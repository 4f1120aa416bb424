import SampleSearch.Scan.Estimate
import SampleSearch.Scan.Term

/-! # Access to rows

The rows of a source can be reached by their ids, by one of the two indexes of objects, or by taking
the alternatives of a disjunction one after the other. Each access has a cost and a number of rows
by the rough estimates of the database, and one that is no better than another in any respect is
dropped.
-/

namespace SampleSearch

inductive Index
  | rowIds (s : Source)
  | uploadTimes
  | hashes
  deriving DecidableEq, Repr

namespace Index

def source : Index → Source
  | rowIds s => s
  | _ => .object

def keys : Index → List Key
  | rowIds s => [.rowId s]
  | uploadTimes => [.column .objectUploadTime, .rowId .object, .rowId .object]
  | hashes => [.column .objectDhash, .rowId .object]

/-- Rows of the index, and those that share the first key, the first two and so on. -/
def estimates : Index → List Estimate
  | rowIds _ => [200, 0]
  | uploadTimes => [200, 33, 32, 0]
  | hashes => [200, 0, 0]

def estimate (i : Index) (keys : Nat) : Estimate := i.estimates.getD keys 0

def holdsRows : Index → Bool
  | rowIds _ => true
  | _ => false

def covers (i : Index) (c : Column) : Bool :=
  c.source != i.source || i.holdsRows || c == .objectId || i.keys.contains c.key

def all (s : Source) : List Index :=
  if s = .object then [rowIds s, uploadTimes, hashes] else [rowIds s]

def passing (i : Index) (rows : Estimate) : Estimate :=
  match i with
  | rowIds _ => rows + 16
  | uploadTimes => rows + 13
  | hashes => rows + 12

end Index

structure Access where
  source : Source
  needs : List Source
  group : Nat
  /-- There is no index for the alternatives of a disjunction. -/
  index : Option Index
  readsIndexOnly : Bool
  isSingle : Bool
  terms : List Term
  weight : Nat
  cost : Estimate
  rows : Estimate
  deriving Repr

namespace Term

def isSame (s t : Term) : Bool := s.place == t.place

def isEqual (t : Term) : Bool :=
  match t.bound with
  | some (_, .equal) => true
  | _ => false

def isEqualOrAmong (t : Term) : Bool :=
  match t.bound with
  | some (_, .equal) => true
  | some (_, .among _) => true
  | _ => false

def isStarting (t : Term) : Bool :=
  match t.bound with
  | some (_, .starting _) => true
  | _ => false

def weight (t : Term) : Nat := if t.isStarting then 2 else 1

def serves (s t : Term) : Bool := s.isSame t || s.origin == some t.place

end Term

namespace Access

def isIndexed (a : Access) : Bool :=
  match a.index with
  | some i => !i.holdsRows
  | none => false

def hasEquality (a : Access) : Bool := a.index.isSome && a.terms.any Term.isEqualOrAmong

def isConfined (a : Access) : Bool := a.index.isSome && !a.terms.isEmpty

/-- Estimates that a list of terms makes fewer rows pass: each of them a little, and one that gives
a value a good deal. -/
def confinedBy (own : List Term) (bound : Estimate) (a : Access) : Access :=
  let known := a.source :: a.needs
  let unused := own.filter fun t => !t.isDerived && t.needs.contains a.source &&
    t.needs.all known.contains && !a.terms.any fun u => u.serves t
  let rows := a.rows - unused.length
  let most := bound - if unused.any Term.isEqual then 20 else 0
  { a with rows := min rows most }

/-- Whether all terms of one access are used by another that should not cost more. -/
def isPartOf (a b : Access) : Bool :=
  a.weight < b.weight && !(a.cost > b.cost && a.rows > b.rows) &&
    (a.terms.all fun t => b.terms.any t.isSame) && (!a.readsIndexOnly || b.readsIndexOnly)

def corrected (a p : Access) : Access :=
  if p.source != a.source || !p.isIndexed then a
  else if p.isPartOf a then { a with cost := min p.cost a.cost, rows := min (p.rows - 1) a.rows }
  else if a.isPartOf p then { a with cost := max p.cost a.cost, rows := max (p.rows + 1) a.rows }
  else a

def correctedBy (known : List Access) (a : Access) : Access :=
  if a.isIndexed then known.foldl corrected a else a

def isComparable (a b : Access) : Bool := a.source == b.source && a.group == b.group

def isNoWorse (a b : Access) : Bool :=
  a.needs.all b.needs.contains && a.cost ≤ b.cost && a.rows ≤ b.rows

/-- Drops those that a new access replaces, up to one that is no worse than it. -/
def dropReplaced (a : Access) : List Access → List Access
  | [] => []
  | p :: ps =>
    if !a.isComparable p then p :: dropReplaced a ps
    else if p.isNoWorse a then p :: ps
    else if a.isNoWorse p then dropReplaced a ps
    else p :: dropReplaced a ps

def place (a : Access) : List Access → List Access
  | [] => [a]
  | p :: ps =>
    if !a.isComparable p then p :: place a ps
    else if p.isNoWorse a then p :: ps
    else if a.isNoWorse p then a :: dropReplaced a ps
    else p :: place a ps

def add (known : List Access) (a : Access) : List Access := place (a.correctedBy known) known

end Access

structure Survey where
  outline : Outline
  columns : List Column
  wantsOrder : Bool
  source : Source
  needs : List Source
  own : List Term
  /-- The terms of the conjunctions around it. -/
  outer : List Term

namespace Survey

def readsIndexOnly (v : Survey) (i : Index) : Bool :=
  !i.holdsRows && v.columns.all i.covers

def group (v : Survey) (i : Index) : Nat :=
  -- only an order of objects is wanted
  if v.wantsOrder && v.source = .object then
    match i with
    | .rowIds _ => 1
    | .uploadTimes => 2
    | .hashes => 3
  else 0

/-- Sources that are joined by an outer join are only found by the ids that join them. -/
def admits (v : Survey) (t : Term) : Bool :=
  !t.givers.contains v.source &&
    (v.source = .object || v.outline.required.contains v.source ||
      match t.claim with
      | .joined s => s == v.source
      | _ => false)

structure Range where
  equalities : Nat
  lower : Bool
  terms : List Term
  weight : Nat
  needs : List Source
  rows : Estimate
  /-- The number of lists of values that the rows are taken for. -/
  repeats : Estimate
  isSingle : Bool

def boundedRows (rows : Estimate) (bothSides : Bool) : Estimate :=
  if bothSides then min (rows - 2) (max 10 (rows - 60)) else min (rows - 1) (max 10 (rows - 20))

/-- Whether giving the next key a value leaves one row at most. -/
def single (i : Index) (r : Range) : Bool :=
  match i with
  | .rowIds _ => true
  | .uploadTimes => false
  | .hashes => r.equalities != 0 || r.repeats == 0

def narrowed? (i : Index) (r : Range) (t : Term) : Option Range :=
  match t.bound with
  | none => none
  | some (_, b) =>
    let r := { r with
      terms := r.terms ++ [t]
      weight := r.weight + t.weight
      needs := (r.needs ++ t.givers.filter fun s => !r.needs.contains s) }
    let step := i.estimate (r.equalities + 1) - i.estimate r.equalities
    match b with
    | .equal =>
      if r.lower then none
      else some { r with
        equalities := r.equalities + 1
        rows := r.rows + step
        isSingle := r.isSingle || single i r }
    | .among n =>
      if r.lower then none
      else some { r with
        equalities := r.equalities + 1
        rows := r.rows + step
        repeats := r.repeats + .ofNat n }
    | .atLeast => if r.lower then none else some { r with lower := true }
    | .starting _ => if r.lower then none else some { r with lower := true }
    | .atMost => some r

def access (v : Survey) (i : Index) (r : Range) (rows : Estimate) : Access :=
  let found := Estimate.sum (.searching (i.estimate 0)) (i.passing rows)
  let cost := if i.holdsRows || v.readsIndexOnly i then found else .sum found (rows + 16)
  let a : Access := ⟨v.source, r.needs.filter (· != v.source), v.group i, some i,
    v.readsIndexOnly i, r.isSingle, r.terms, r.weight, cost + r.repeats, rows + r.repeats⟩
  a.confinedBy v.own (i.estimate 0)

/-- Accesses to the parts of a range, for every term that narrows it down. An index has no more than
`n` keys and one more bound. -/
def ranges (v : Survey) (i : Index) : Nat → Range → List Access
  | 0, _ => []
  | n + 1, r =>
    match i.keys[r.equalities]? with
    | none => []
    | some k =>
      ((v.own ++ v.outer).filter fun t => (t.bound.map Prod.fst) == some k && v.admits t).flatMap
        fun t =>
          match narrowed? i r t, t.bound with
          | some q, some (_, .equal) => v.access i q q.rows :: ranges v i n q
          | some q, some (_, .among _) => v.access i q q.rows :: ranges v i n q
          | some q, some (_, .atLeast) =>
            v.access i q (boundedRows q.rows false) :: ranges v i n q
          | some q, some (_, .starting _) => [v.access i q (boundedRows q.rows true)]
          | some q, some (_, .atMost) => [v.access i q (boundedRows q.rows r.lower)]
          | _, _ => []

def whole (v : Survey) (i : Index) : Range :=
  ⟨0, false, [], 0, v.needs, i.estimate 0, 0, false⟩

/-- Terms in front of the first that needs more than an index. -/
def coveredFront (i : Index) (ts : List Term) : List Term :=
  ts.takeWhile fun t =>
    match t.claim with
    | .holds c _ => c.ownColumns.all i.covers
    | .joined _ => true

def wholeCost (v : Survey) (i : Index) : Estimate :=
  let rows := i.estimate 0
  if i.holdsRows || v.readsIndexOnly i then i.passing rows
  else
    -- looking the rows up costs less if some terms can be decided before
    let front := coveredFront i (v.own ++ v.outer)
    let tests : Nat := front.foldl (fun n t => n + t.weight) 0
    let lookups := rows + 16 - tests - 19 * (front.filter Term.isEqual).length
    .sum (i.passing rows) lookups

/-- Passing a whole index, which is worth it for the order of its rows or if it is small. -/
def wholeAccess? (v : Survey) (i : Index) : List Access :=
  if i.holdsRows || v.group i != 0 || v.readsIndexOnly i then
    let a : Access := ⟨v.source, v.needs, v.group i, some i, v.readsIndexOnly i, false, [], 0,
      v.wholeCost i, i.estimate 0⟩
    [a.confinedBy v.own (i.estimate 0)]
  else []

def direct (v : Survey) : List Access :=
  (Index.all v.source).flatMap fun i => v.wholeAccess? i ++ v.ranges i 4 (v.whole i)

structure Choice where
  needs : List Source
  cost : Estimate
  rows : Estimate

namespace Choice

/-- Puts a choice in the place of the first that it replaces; at most three choices are kept. -/
def add (c : Choice) (known : List Choice) : List Choice :=
  let replaces (p : Choice) : Bool := c.cost ≤ p.cost && c.needs.all p.needs.contains
  let isReplaced (p : Choice) : Bool := p.cost ≤ c.cost && p.needs.all c.needs.contains
  let put (k : Nat) : List Choice :=
    known.modify k fun p => { c with rows := min p.rows c.rows }
  match known.findIdx? fun p => replaces p || isReplaced p with
  | some k => if (known[k]?.map replaces).getD false then put k else known
  | none =>
    if known.length < 3 then known ++ [c]
    else
      let cheapest := (known.map Choice.cost).min?.getD 0
      match known.findIdx? fun p => p.cost == cheapest with
      | some k => if cheapest ≤ c.cost then known else put k
      | none => known

def addAll (cs : List Choice) (known : List Choice) : List Choice :=
  cs.foldl (fun known c => add c known) known

def both (a b : Choice) : Choice :=
  ⟨a.needs ++ b.needs.filter fun s => !a.needs.contains s, .sum a.cost b.cost, .sum a.rows b.rows⟩

def combined : List (List Choice) → List Choice
  | [] => []
  | cs :: rest => rest.foldl (fun sum cs =>
      addAll (sum.flatMap fun a => cs.map fun b => a.both b) []) cs

end Choice

/-- The terms that confine a source whatever alternative is taken. -/
def isSplit (v : Survey) (t : Term) : Bool :=
  let bs := v.outline.branches t
  !bs.isEmpty && bs.all fun b => b.2.any fun u => u.confines v.source

/-- Accesses by the alternatives of disjunctions, which may be nested `n` levels deep. What is known
of the accesses to the whole source corrects the estimates. -/
def alternatives (known : List Access) : Nat → Survey → List Access
  | 0, _ => []
  | n + 1, v =>
    (v.own.filter v.isSplit).flatMap fun t =>
      let choices := (v.outline.branches t).map fun b =>
        let inner := { v with own := b.2, outer := v.own ++ v.outer }
        let found := (inner.direct.filter fun a => !a.terms.isEmpty).map (·.correctedBy known) ++
          alternatives known n inner
        Choice.addAll (found.map fun a => ⟨a.needs, a.cost, a.rows⟩) []
      if choices.any List.isEmpty then []
      else
        (Choice.combined choices).map fun c =>
          ⟨v.source, c.needs, 0, none, false, false, [t], 1, c.cost + 1, c.rows⟩

def addAccesses (v : Survey) (depth : Nat) (known : List Access) : List Access :=
  let known := v.direct.foldl Access.add known
  (alternatives known depth v).foldl Access.add known

end Survey

end SampleSearch
