import SampleSearch.Condition.Basic
import SampleSearch.Json.DocumentReader
import SampleSearch.Store.Scope
import SampleSearch.Text.Like

/-! # Truth of conditions

A condition on an object is true, false or unknown. Comparing an empty cell is unknown, and the
connectives are those of Kleene: a conjunction is false if one part is, and true if all are. That
there is a related row is never unknown.
-/

namespace SampleSearch

inductive Truth
  | yes
  | no
  | unknown
  deriving DecidableEq, Repr

namespace Truth

def ofBool (b : Bool) : Truth := if b then yes else no

def flip : Truth → Truth
  | yes => no
  | no => yes
  | unknown => unknown

def both : Truth → Truth → Truth
  | no, _ => no
  | _, no => no
  | yes, yes => yes
  | _, _ => unknown

def either : Truth → Truth → Truth
  | yes, _ => yes
  | _, yes => yes
  | no, no => no
  | _, _ => unknown

/-- Truth of a statement about the order of two cells, which may have none. -/
def ofOrdering (holds : Ordering → Bool) : Option Ordering → Truth
  | none => unknown
  | some o => ofBool (holds o)

theorem flip_both (a b : Truth) : (a.both b).flip = a.flip.either b.flip := by
  cases a <;> cases b <;> rfl

theorem flip_either (a b : Truth) : (a.either b).flip = a.flip.both b.flip := by
  cases a <;> cases b <;> rfl

@[simp] theorem flip_flip (a : Truth) : a.flip.flip = a := by cases a <;> rfl

theorem both_eq_yes {a b : Truth} : a.both b = yes ↔ a = yes ∧ b = yes := by
  cases a <;> cases b <;> simp [both]

theorem either_eq_yes {a b : Truth} : a.either b = yes ↔ a = yes ∨ b = yes := by
  cases a <;> cases b <;> simp [either]

theorem both_eq_no {a b : Truth} : a.both b = no ↔ a = no ∨ b = no := by
  cases a <;> cases b <;> simp [both]

theorem either_eq_no {a b : Truth} : a.either b = no ↔ a = no ∧ b = no := by
  cases a <;> cases b <;> simp [either]

theorem flip_eq_yes {a : Truth} : a.flip = yes ↔ a = no := by cases a <;> simp [flip]

theorem flip_eq_no {a : Truth} : a.flip = no ↔ a = yes := by cases a <;> simp [flip]

end Truth

namespace Literal

/-- The cell that a literal is compared as. A moment is compared as its text. -/
def cell : Literal → Cell
  | text t => .text t
  | int n => .int n
  | moment m => .text m.text

end Literal

namespace Operand

/-- A literal that is compared with a column is first converted as for that column. -/
def convert : Operand → Cell → Cell
  | column c, cell => if c.isInteger then cell.asInteger else cell.asText
  | document _ _, cell => cell

/-- The text at a path in a written document, which must be one. -/
def lookUp? (t path : Text) : Option Cell := do
  let labels ← Document.pathLabels? path
  (Document.lookUp? t labels).map fun found => (found.map Cell.ofCodes).getD .empty

/-- The cell of an operand. There is none if a document is malformed. -/
def value? (s : Scope) : Operand → Option Cell
  | column c => some (s c)
  | document c path =>
    match (s c).text? with
    | none => some .empty
    | some t => lookUp? t path

end Operand

namespace Condition

def likeTruth (pattern : Text) (value : Cell) : Truth :=
  match value.codes? with
  | none => .unknown
  | some codes => .ofBool (Text.like pattern codes)

def amongTruth (o : Operand) (literals : List Literal) (value : Cell) : Truth :=
  if value = .empty then .unknown
  else .ofBool (literals.any fun l => value.compare? (o.convert l.cell) == some .eq)

/-- Truth of a comparison, unless a document is malformed. -/
def compareTruth? (s : Scope) (o : Operand) (c : Comparison) (l : Literal) : Option Truth :=
  (o.value? s).map fun value => .ofOrdering c.holds (value.compare? (o.convert l.cell))

/-- Truth of a match, unless a document is malformed or the pattern is too long. -/
def likeTruth? (s : Scope) (o : Operand) (pattern : Text) : Option Truth :=
  if maxPatternSize < pattern.octets.length then none
  else (o.value? s).map (likeTruth pattern)

def amongTruth? (s : Scope) (o : Operand) (literals : List Literal) : Option Truth :=
  if literals.isEmpty then some .no else (o.value? s).map (amongTruth o literals)

/-- Whether a row of a relation belongs to the id in a column. -/
def belongs (r : Relation) (outer : Column) (s : Scope) : Bool :=
  (s r.link).compare? (s outer) == some .eq

mutual

/-- Truth of a condition in a scope. What depends on a malformed document is unknown. -/
def truth (db : Database) (s : Scope) : Condition → Truth
  | const b => .ofBool b
  | compare o c l => (compareTruth? s o c l).getD .unknown
  | like o pattern => (likeTruth? s o pattern).getD .unknown
  | among o literals => (amongTruth? s o literals).getD .unknown
  | all parts => truthOfAll db s parts
  | any parts => truthOfAny db s parts
  | negated c => (truth db s c).flip
  | related r outer c =>
    .ofBool ((db.relatedRows r).any fun row =>
      belongs r outer (row.enter s) && truth db (row.enter s) c == .yes)

def truthOfAll (db : Database) (s : Scope) : List Condition → Truth
  | [] => .yes
  | c :: cs => (truth db s c).both (truthOfAll db s cs)

def truthOfAny (db : Database) (s : Scope) : List Condition → Truth
  | [] => .no
  | c :: cs => (truth db s c).either (truthOfAny db s cs)

end

end Condition

end SampleSearch
