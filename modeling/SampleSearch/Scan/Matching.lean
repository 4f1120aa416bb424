import SampleSearch.Condition.Readable
import SampleSearch.Scan.Course

/-! # Matching objects

The objects that match a condition are those of which it is true, and the course of the database
hardly ever shows. It does if something keeps the condition from being decided for some object: then
a test may fail. It also does if a pattern is matched against a hash that has characters which
patterns do not tell apart: an index may pass over an object that the pattern would match.
-/

namespace SampleSearch

/-- Whether patterns tell the characters of a text apart from all others. -/
def Text.isPlain (t : Text) : Bool :=
  t.all fun c => c.toNat != 0xFFFD && c.toNat != 0xFFFE && c.toNat != 0xFFFF

namespace Scope

/-- The scope in which some columns are taken to hold literals. -/
def assuming (s : Scope) (settled : List (Column × Literal)) : Scope := fun c =>
  match settled.find? fun p => p.1 == c with
  | some (_, l) => (Operand.column c).convert l.cell
  | none => s c

end Scope

namespace Database

def hasRowOf (db : Database) (s : Source) (id : Int) : Bool :=
  match s with
  | .file => (db.file? id).isSome
  | .config => (db.config? id).isSome
  | .blob => (db.blob? id).isSome
  | _ => true

end Database

namespace Condition

mutual

def matchesHash : Condition → Bool
  | like o _ => o.base == .objectDhash
  | all parts => someMatchesHash parts
  | any parts => someMatchesHash parts
  | negated c => matchesHash c
  | related _ _ c => matchesHash c
  | _ => false

def someMatchesHash : List Condition → Bool
  | [] => false
  | c :: cs => matchesHash c || someMatchesHash cs

end

end Condition

namespace Test

mutual

def isPassed (db : Database) (o : ObjectRecord) : Test → Bool
  | holds c _ => c.truth db (db.scope o) == .yes
  | joined s => db.hasRowOf s o.id
  | starts octets => octets.isPrefixOf o.dhash.octets
  | someOf courses => somePassed db o courses

def allPassed (db : Database) (o : ObjectRecord) : List Test → Bool
  | [] => true
  | t :: ts => isPassed db o t && allPassed db o ts

def somePassed (db : Database) (o : ObjectRecord) : List (List Test) → Bool
  | [] => false
  | ts :: rest => allPassed db o ts || somePassed db o rest

end

mutual

def passes? (db : Database) (settled : List (Column × Literal)) (o : ObjectRecord) :
    Test → Option Bool
  | holds c true => c.attains? db true (db.scope o)
  | holds c false => c.attains? db true ((db.scope o).assuming settled)
  | joined s => some (db.hasRowOf s o.id)
  | starts octets => some (octets.isPrefixOf o.dhash.octets)
  | someOf courses => passesSome? db settled o courses

def passesAll? (db : Database) (settled : List (Column × Literal)) (o : ObjectRecord) :
    List Test → Option Bool
  | [] => some true
  | t :: ts =>
    match passes? db settled o t with
    | none => none
    | some false => some false
    | some true => passesAll? db settled o ts

/-- Whether an object passes some course; all of them are taken. -/
def passesSome? (db : Database) (settled : List (Column × Literal)) (o : ObjectRecord) :
    List (List Test) → Option Bool
  | [] => some false
  | ts :: rest => do
    let one ← passesAll? db settled o ts
    let others ← passesSome? db settled o rest
    some (one || others)

end

end Test

/-- The first members of a list, `n` at most, that have a property. What lies behind them is not
looked at. -/
def firstWith? {α : Type} (p : α → Option Bool) : Nat → List α → Option (List α)
  | 0, _ => some []
  | _, [] => some []
  | n + 1, a :: as =>
    match p a with
    | none => none
    | some true => (firstWith? p n as).map (a :: ·)
    | some false => firstWith? p (n + 1) as

namespace Database

def isUntroubled (db : Database) (c : Condition) : Bool :=
  (db.rows .objects).all fun o => c.isReadable db (db.scope o)

/-- Whether no pattern of a condition is at a loss with the hash of an object. -/
def isClear (c : Condition) (o : ObjectRecord) : Bool := !c.matchesHash || o.dhash.isPlain

def isMatch (db : Database) (c : Condition) (purpose : Purpose) (o : ObjectRecord) : Bool :=
  c.truth db (db.scope o) == .yes &&
    (isClear c o || Test.allPassed db o (c.course purpose).tests)

def satisfying (db : Database) (c : Condition) : List ObjectRecord :=
  (db.rows .objects).filter fun o => c.truth db (db.scope o) == .yes

def following? (db : Database) (c : Condition) (purpose : Purpose)
    (sorted : List ObjectRecord → List ObjectRecord) (limit : Nat) :
    Option (List ObjectRecord) :=
  let course := c.course purpose
  let passes (o : ObjectRecord) : Option Bool :=
    Test.passesAll? db c.outline.settled o course.tests
  if course.isOrdered then firstWith? passes limit (sorted (db.rows .objects))
  else selectWith? passes (db.rows .objects)

def matching? (db : Database) (c : Condition) (purpose : Purpose)
    (sorted : List ObjectRecord → List ObjectRecord) (limit : Nat) :
    Option (List ObjectRecord) :=
  if db.isUntroubled c then some ((db.rows .objects).filter (db.isMatch c purpose))
  else db.following? c purpose sorted limit

theorem matching?_of_isUntroubled {db : Database} {c : Condition} {purpose : Purpose}
    {sorted : List ObjectRecord → List ObjectRecord} {limit : Nat}
    (h : db.isUntroubled c = true) :
    db.matching? c purpose sorted limit =
      some ((db.rows .objects).filter (db.isMatch c purpose)) := by
  simp [matching?, h]

end Database

end SampleSearch
