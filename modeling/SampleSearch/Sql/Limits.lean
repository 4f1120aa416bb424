import SampleSearch.Sql.Statement

/-! # Limits on statements

The database refuses a statement that is too long, has too many values, nests too deeply as an
expression or needs too large a stack while it is read. The heights and stack sizes below are those
of the rendered conditions: a chain of operators leans to the left, and everything in front of the
part that is being read stays on the stack.
-/

namespace SampleSearch

namespace Operand

def height : Operand → Nat
  | column _ => 2
  | document _ _ => 5

def stackSize : Operand → Nat
  | column _ => 3
  | document _ _ => 12

end Operand

namespace Condition

def above (h k : Nat) : Nat := 1 + max h k

mutual

def height : Condition → Nat
  | const _ => 2
  | compare o _ _ => above o.height 1
  | like o _ => above o.height 1
  | among _ [] => 2
  | among o (_ :: _) => above o.height 2
  | all [] => 2
  | all (c :: cs) => chainHeight (height c) cs
  | any [] => 2
  | any (c :: cs) => chainHeight (height c) cs
  | negated c => above (height c) 0
  | related _ _ c => above (above 3 (height c)) 1

def chainHeight (h : Nat) : List Condition → Nat
  | [] => h
  | c :: cs => chainHeight (above h (height c)) cs

end

/-- Height of the condition on the rows of a relation. Tags are joined by one condition more. -/
def relatedHeight (r : Relation) (c : Condition) : Nat :=
  let h := above 3 (height c)
  if r = .tags then above h 3 else h

mutual

/-- The largest sum of heights of conditions inside each other. -/
def innerHeight : Condition → Nat
  | all parts => innerHeightOfAll parts
  | any parts => innerHeightOfAll parts
  | negated c => innerHeight c
  | related r _ c => relatedHeight r c + innerHeight c
  | _ => 0

def innerHeightOfAll : List Condition → Nat
  | [] => 0
  | c :: cs => max (innerHeight c) (innerHeightOfAll cs)

end

def joinedHeight (c : Condition) : Nat := above (above (above (height c) 3) 3) 3

mutual

def stackSize : Condition → Nat
  | const _ => 3
  | compare o _ _ => o.stackSize
  | like o _ => max o.stackSize 5
  | among _ [] => 3
  | among o [_] => max o.stackSize 5
  | among o (_ :: _ :: _) => max o.stackSize 6
  | all [] => 3
  | all (c :: cs) => 1 + max (stackSize c) (chainStackSize cs)
  | any [] => 3
  | any (c :: cs) => 1 + max (stackSize c) (chainStackSize cs)
  | negated c => 2 + stackSize c
  | related r _ c => max (if r = .tags then 16 else 12) (9 + stackSize c)

def chainStackSize : List Condition → Nat
  | [] => 0
  | c :: cs => max (2 + stackSize c) (chainStackSize cs)

end

end Condition

namespace Fragment

def maxLength : Nat := 1000000000

def maxParameters : Nat := 32766

def maxHeight : Nat := 1000

def maxStackSize : Nat := 99

/-- Whether the database takes a statement on objects with `leading` parts in front of its
condition. -/
def isAccepted (f : Fragment) (leading : Nat) (c : Condition) : Bool :=
  f.text.octets.length ≤ maxLength && f.parameters.length ≤ maxParameters &&
    c.joinedHeight + c.innerHeight ≤ maxHeight && leading + c.stackSize ≤ maxStackSize

/-- Parts in front of the condition: the word that starts the statement, the kind of rows, the
columns, the source and the word in front of the condition. -/
def leadingParts : Nat := 5

def searchIsAccepted (p : Plan) : Bool :=
  (counting p).isAccepted leadingParts p.condition &&
    (selection p).isAccepted leadingParts p.condition

def explanation (p : Plan) : Fragment := plain "EXPLAIN QUERY PLAN ".toList ++ selection p

/-- Whether the statement that explains a search is taken; it has one part more. -/
def explanationIsAccepted (p : Plan) : Bool :=
  (explanation p).isAccepted (leadingParts + 1) p.condition

end Fragment

end SampleSearch
