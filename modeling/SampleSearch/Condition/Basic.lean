import SampleSearch.Calendar.Moment
import SampleSearch.Condition.Column

/-! # Conditions on objects

A condition is a boolean combination of comparisons of columns with literals. It is what a query
is compiled to, and it is both rendered for the database and evaluated on stored rows.
-/

namespace SampleSearch

/-- What is compared: a column, or the text of a value inside the document in a column. -/
inductive Operand
  | column (c : Column)
  | document (c : Column) (path : Text)
  deriving DecidableEq, Repr

def Operand.base : Operand → Column
  | column c => c
  | document c _ => c

inductive Literal
  | text (t : Text)
  | int (n : Int)
  | moment (m : Moment)
  deriving DecidableEq, Repr

namespace Literal

def quoteSign (c : Char) : Text := if c == '\'' then ['\'', '\''] else [c]

def display : Literal → Text
  | text t => '\'' :: t.flatMap quoteSign ++ ['\'']
  | int n => Text.ofInt n
  | moment m => '\'' :: m.text ++ ['\'']

end Literal

inductive Comparison
  | eq
  | lt
  | le
  | gt
  | ge
  deriving DecidableEq, Repr

namespace Comparison

def all : List Comparison := [eq, lt, le, gt, ge]

def sign : Comparison → Text
  | eq => "=".toList
  | lt => "<".toList
  | le => "<=".toList
  | gt => ">".toList
  | ge => ">=".toList

/-- Whether a comparison holds of values in the given order. -/
def holds : Comparison → Ordering → Bool
  | eq, o => o == .eq
  | lt, o => o == .lt
  | le, o => o != .gt
  | gt, o => o == .gt
  | ge, o => o != .lt

end Comparison

inductive Condition
  | const (b : Bool)
  | compare (operand : Operand) (comparison : Comparison) (literal : Literal)
  | like (operand : Operand) (pattern : Text)
  | among (operand : Operand) (literals : List Literal)
  | all (parts : List Condition)
  | any (parts : List Condition)
  | negated (inner : Condition)
  /-- Some row of the relation that belongs to the id in `outer` satisfies `inner`. -/
  | related (relation : Relation) (outer : Column) (inner : Condition)
  deriving Repr

namespace Condition

def equals (o : Operand) (l : Literal) : Condition := compare o .eq l

/-- A conjunction, where a single part stands for itself. -/
def conjoin (parts : List Condition) : Condition :=
  match parts with
  | [c] => c
  | _ => all parts

@[simp] theorem conjoin_nil : conjoin [] = all [] := rfl

@[simp] theorem conjoin_singleton (c : Condition) : conjoin [c] = c := rfl

@[simp] theorem conjoin_cons_cons (c d : Condition) (cs : List Condition) :
    conjoin (c :: d :: cs) = all (c :: d :: cs) := rfl

def ofObject (r : Relation) (inner : Condition) : Condition := related r .objectId inner

mutual

def columns : Condition → List Column
  | const _ => []
  | compare o _ _ => [o.base]
  | like o _ => [o.base]
  | among _ [] => []
  | among o (_ :: _) => [o.base]
  | all parts => columnsOfAll parts
  | any parts => columnsOfAll parts
  | negated c => columns c
  | related r outer c => r.link :: outer :: columns c

def columnsOfAll : List Condition → List Column
  | [] => []
  | c :: cs => columns c ++ columnsOfAll cs

end

end Condition

end SampleSearch
