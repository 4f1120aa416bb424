import SampleSearch.Condition.Basic
import SampleSearch.Text.Octets

/-! # Terms of a condition

Before the database chooses its way through the rows, it takes a condition apart into terms that
all have to hold. It notes for every term which sources it needs and whether it confines the rows
of a source by a key, and it adds terms that follow from others: a joined id can be found from
either side, a pattern confines a text to those that start as it does, and alternatives of one
column are one list of values.
-/

namespace SampleSearch

inductive Key
  | rowId (s : Source)
  | column (c : Column)
  deriving DecidableEq, Repr

namespace Column

def key : Column → Key
  | objectId => .rowId .object
  | c => .column c

end Column

namespace Key

def source : Key → Source
  | rowId s => s
  | column c => c.source

end Key

inductive Bound
  | equal
  | among (count : Nat)
  | atLeast
  | atMost
  | starting (octets : List Nat)
  deriving DecidableEq, Repr

namespace Comparison

def bound : Comparison → Bound
  | eq => .equal
  | lt => .atMost
  | le => .atMost
  | gt => .atLeast
  | ge => .atLeast

end Comparison

/-- The octets in front of the first wild card of a pattern, and what is left there. -/
def patternStart : List Nat → List Nat × List Nat
  | [] => ([], [])
  | b :: r =>
    if b == 0 || b == 0x25 || b == 0x5F then ([], b :: r)
    else if b == 0x5C then
      match r with
      | [] => ([], [])
      | e :: r =>
        if e == 0 then ([], e :: r)
        else
          let p := patternStart r
          (e :: p.1, p.2)
    else
      let p := patternStart r
      (b :: p.1, p.2)

/-- Whether nothing but a final percent sign is left of a pattern. -/
def endsInRun : List Nat → Bool
  | [0x25] => true
  | 0x25 :: 0 :: _ => true
  | _ => false

namespace Condition

mutual

def conjuncts : Condition → List Condition
  | all (c :: cs) => conjuncts c ++ conjunctsOfAll cs
  | any [c] => conjuncts c
  | c => [c]

def conjunctsOfAll : List Condition → List Condition
  | [] => []
  | c :: cs => conjuncts c ++ conjunctsOfAll cs

end

mutual

def disjuncts : Condition → List Condition
  | any (c :: cs) => disjuncts c ++ disjunctsOfAny cs
  | all [c] => disjuncts c
  | c => [c]

def disjunctsOfAny : List Condition → List Condition
  | [] => []
  | c :: cs => disjuncts c ++ disjunctsOfAny cs

end

mutual

def looksAtRelated : Condition → Bool
  | all parts => someLooksAtRelated parts
  | any parts => someLooksAtRelated parts
  | negated c => looksAtRelated c
  | related _ _ _ => true
  | _ => false

def someLooksAtRelated : List Condition → Bool
  | [] => false
  | c :: cs => looksAtRelated c || someLooksAtRelated cs

end

mutual

def hasPattern : Condition → Bool
  | all parts => someHasPattern parts
  | any parts => someHasPattern parts
  | negated c => hasPattern c
  | like _ _ => true
  | _ => false

def someHasPattern : List Condition → Bool
  | [] => false
  | c :: cs => hasPattern c || someHasPattern cs

end

mutual

def ownColumns : Condition → List Column
  | compare o _ _ => [o.base]
  | like o _ => [o.base]
  | among o (_ :: _) => [o.base]
  | all parts => ownColumnsOfAll parts
  | any parts => ownColumnsOfAll parts
  | negated c => ownColumns c
  | _ => []

def ownColumnsOfAll : List Condition → List Column
  | [] => []
  | c :: cs => ownColumns c ++ ownColumnsOfAll cs

end

mutual

/-- Whether a condition only holds if the object has a row of a source. Patterns and documents do
not tell, and every part of a nested connective has to. -/
def requires (s : Source) : Condition → Bool
  | compare (.column c) _ _ => c.source == s
  | among (.column c) (_ :: _) => c.source == s
  | all (c :: cs) => requires s c && allRequire s cs
  | any (c :: cs) => requires s c && allRequire s cs
  | negated c => requires s c
  | _ => false

def allRequire (s : Source) : List Condition → Bool
  | [] => true
  | c :: cs => requires s c && allRequire s cs

end

end Condition

namespace Source

/-- The object and its rows of the concrete kinds, in the order in which they are joined. -/
def joined : List Source := [object, file, config, blob]

def concrete : List Source := [file, config, blob]

def before (s : Source) : List Source := joined.takeWhile (· != s)

end Source

inductive Claim
  /-- A condition holds. One that settles a column gives it a single value by a comparison;
  wherever else the column occurs, that value stands for it. -/
  | holds (c : Condition) (settles : Bool)
  | joined (s : Source)
  deriving Repr

structure Term where
  place : List Nat
  claim : Claim
  needs : List Source
  /-- A derived term only helps to find rows. -/
  isDerived : Bool
  /-- The term that holds as soon as this one and all others derived from it do. -/
  origin : Option (List Nat)
  bound : Option (Key × Bound)
  /-- The sources that the value for the key is taken from. -/
  givers : List Source
  deriving Repr

structure Outline where
  required : List Source
  settled : List (Column × Literal)
  claims : List Claim
  deriving Repr

namespace Column

def holdsDocument : Column → Bool
  | configDocument => true
  | attributeValue => true
  | _ => false

end Column

namespace Condition

def needs (settled : List Column) (c : Condition) : List Source :=
  let unsettled := c.columns.filter fun d => !settled.contains d
  Source.joined.filter fun s => unsettled.any fun d => d.source == s

def bound? : Condition → Option (Key × Bound)
  | compare (.column c) comparison _ => some (c.key, comparison.bound)
  | among (.column c) [_] => some (c.key, .equal)
  | among (.column c) (l :: ls) => some (c.key, .among (l :: ls).length)
  | _ => none

/-- The claims of conjuncts and the columns that they settle. The last comparison with a column
settles it. -/
def settle : List Condition → List Claim × List (Column × Literal)
  | [] => ([], [])
  | c :: cs =>
    let (claims, settled) := settle cs
    match c with
    | compare (.column d) .eq l =>
      if d.holdsDocument || settled.any fun p => p.1 == d then (.holds c false :: claims, settled)
      else (.holds c true :: claims, (d, l) :: settled)
    | _ => (.holds c false :: claims, settled)

def outline (c : Condition) : Outline :=
  let parts := conjuncts c
  let (claims, settled) := settle parts
  ⟨Source.concrete.filter fun s => parts.any (requires s), settled,
    claims ++ Source.concrete.map .joined⟩

def comparedColumn? : List Condition → Option Column
  | [compare (.column c) .eq _] => some c
  | compare (.column c) .eq _ :: cs => if comparedColumn? cs = some c then some c else none
  | _ => none

def commonColumn? : Condition → Option Column
  | any parts => comparedColumn? (any parts).disjuncts
  | _ => none

/-- The text that all texts start with which match a pattern. -/
def patternStart? (c : Column) (pattern : Text) : Option (Column × List Nat) :=
  let start := (patternStart pattern.octets).1
  if c.isInteger || start.isEmpty then none else some (c, start)

def endsInRun : Condition → Bool
  | like _ pattern => SampleSearch.endsInRun (patternStart pattern.octets).2
  | _ => false

/-- Whether the alternatives of a disjunction of two conditions are these two. -/
def arePair (c d : Condition) : Bool := c.disjuncts.length == 1 && d.disjuncts.length == 1

mutual

/-- The starts of texts that follow from a condition. Two alternatives have those in common that
follow from both of them, if some source can be searched for both. -/
def starts : Condition → List (Column × List Nat)
  | like (.column c) pattern => (patternStart? c pattern).toList
  | all (c :: cs) => startsOfAll cs ++ starts c
  | any [c] => starts c
  | any [c, d] =>
    if arePair c d && Source.joined.any fun s => confines s c && confines s d then
      (starts c).flatMap fun p => (starts d).filter (· == p)
    else []
  | _ => []

def startsOfAll : List Condition → List (Column × List Nat)
  | [] => []
  -- later parts come first
  | c :: cs => startsOfAll cs ++ starts c

/-- Whether the rows of a source can be searched for a condition or for a part of it. -/
def confines (s : Source) : Condition → Bool
  | compare (.column c) _ _ => c.source == s
  | among (.column c) (_ :: _) => c.source == s
  | like (.column c) pattern => c.source == s && (patternStart? c pattern).isSome
  | all (c :: cs) => confines s c || someConfines s cs
  | any [c] => confines s c
  | any [c, d] =>
    (comparedColumn? (any [c, d]).disjuncts).any (·.source == s) ||
      (arePair c d && (Source.joined.any fun s => confines s c && confines s d) &&
        (starts c).any fun p => p.1.source == s && (starts d).contains p)
  | any (c :: d :: e :: cs) =>
    (comparedColumn? (any (c :: d :: e :: cs)).disjuncts).any (·.source == s)
  | _ => false

def someConfines (s : Source) : List Condition → Bool
  | [] => false
  | c :: cs => confines s c || someConfines s cs

end

end Condition

namespace Outline

def settledColumns (o : Outline) : List Column := o.settled.map Prod.fst

def term (o : Outline) (place : List Nat) : Claim → Term
  | .holds c settles =>
    let settled := if settles then [] else o.settledColumns
    ⟨place, .holds c settles, c.needs settled, false, none, c.bound?, []⟩
  | .joined s =>
    let givers := if o.required.contains s then [.object] else s.before
    ⟨place, .joined s, [.object, s], false, none, some (.rowId s, .equal), givers⟩

def derived (o : Outline) (t : Term) : List Term :=
  let bounds : List (Key × Bound × Bool) := match t.claim with
    | .holds c _ =>
      (c.starts.map fun p => (p.1.key, .starting p.2, c.endsInRun)) ++
        match c.commonColumn? with
        | some d => [(d.key, .among c.disjuncts.length, true)]
        | none => []
    | .joined s => if o.required.contains s then [(.rowId .object, .equal, true)] else []
  bounds.zipIdx.map fun p =>
    { t with
      place := t.place ++ [p.2]
      isDerived := true
      origin := if p.1.2.2 then some t.place else none
      bound := some (p.1.1, p.1.2.1)
      givers := match t.claim with
        | .holds _ _ => []
        | .joined s => [s] }

/-- The terms of a list of claims, and behind them those that follow from the last claim, from the
one in front of it and so on. -/
def terms (o : Outline) (place : List Nat) (claims : List Claim) : List Term :=
  let base := claims.zipIdx.map fun p => o.term (place ++ [p.2]) p.1
  base ++ base.reverse.flatMap o.derived

def branch (o : Outline) (place : List Nat) (c : Condition) : List Term :=
  match c.bound? with
  | some _ => [o.term (place ++ [0]) (.holds c false)]
  | none => o.terms place (c.conjuncts.map fun d => .holds d false)

def branches (o : Outline) (t : Term) : List (Condition × List Term) :=
  match t.claim with
  | .holds (.any (c :: d :: cs)) _ =>
    ((Condition.any (c :: d :: cs)).disjuncts.zipIdx).map fun p =>
      (p.1, o.branch (t.place ++ [p.2]) p.1)
  | _ => []

end Outline

namespace Term

def confines (t : Term) (s : Source) : Bool :=
  match t.bound with
  | some (k, _) => k.source == s
  | none => false

end Term

end SampleSearch
