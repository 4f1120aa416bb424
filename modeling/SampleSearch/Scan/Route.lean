import SampleSearch.Scan.Access

/-! # Routes

A route goes through the sources of a statement one inside the other, with one access to each of
them. Routes are extended step by step, and for every set of sources the cheapest one is kept. If an
order is wanted, routes are looked for twice: the first time regardless of the order, to learn how
many rows would have to be sorted.
-/

namespace SampleSearch

structure Route where
  accesses : List Access
  rows : Estimate
  cost : Estimate
  /-- The cost without sorting, which decides between equal costs. -/
  unsorted : Estimate
  deriving Repr

namespace Route

def sources (r : Route) : List Source := r.accesses.map Access.source

def start (rows : Estimate) : Route := ⟨[], rows, 0, 0⟩

/-- Whether the objects come in the order of the search. The first access alone decides. -/
def isOrdered (r : Route) : Bool :=
  match r.accesses with
  | a :: _ => a.source == .object && (a.isSingle || a.index == some .uploadTimes)
  | [] => false

def sorting (rows : Estimate) : Estimate :=
  rows + 10 + .searching (if rows > 10 then rows - 10 else rows)

/-- A route that goes on by an access, which takes one step to begin with. The rows to sort are
given if an order is wanted. -/
def extended (r : Route) (sorted : Option Estimate) (a : Access) : Route :=
  let unsorted := Estimate.sum (.sum 0 (a.cost + r.rows)) r.unsorted
  let next : Route := ⟨r.accesses ++ [a], r.rows + a.rows, unsorted, unsorted - 2⟩
  match sorted with
  | none => next
  | some rows =>
    if next.isOrdered then next
    else { next with cost := .sum unsorted (sorting rows) + 3, unsorted := unsorted }

def reaches (r : Route) (a : Access) : Bool :=
  a.needs.all r.sources.contains && !r.sources.contains a.source

def hasSameSources (r s : Route) : Bool :=
  r.sources.all s.sources.contains && s.sources.all r.sources.contains

def isBetter (r known : Route) : Bool :=
  r.cost < known.cost || (r.cost == known.cost && (r.rows < known.rows ||
    (r.rows == known.rows && r.unsorted < known.unsorted)))

def keep (known : List Route) (r : Route) : List Route :=
  match known.findIdx? r.hasSameSources with
  | none => known ++ [r]
  | some k => known.modify k fun s => if r.isBetter s then r else s

def step (accesses : List Access) (sorted : Option Estimate) (routes : List Route) : List Route :=
  (routes.flatMap fun r =>
    (accesses.filter r.reaches).map (r.extended sorted)).foldl keep []

def cheapest? : List Route → Option Route
  | [] => none
  | r :: rs => some (rs.foldl (fun best s => if s.cost < best.cost then s else best) r)

def best? (accesses : List Access) (sorted : Option Estimate) (n : Nat) (rows : Estimate) :
    Option Route :=
  cheapest? (n.repeat (step accesses sorted) [start rows])

/-- What is still considered for an order. Sources that are found by values on the first route,
up to the first that is not, are not passed as a whole. -/
def reconsidered (accesses : List Access) (r : Route) : List Access :=
  let found := (r.accesses.takeWhile Access.hasEquality).map Access.source
  accesses.filter fun a => !found.contains a.source || a.isConfined

/-- The route of a statement through `n` sources, and whether it was chosen with respect to an
order. If a single row has to be sorted by the estimates, the order is not looked at. -/
def choose? (wantsOrder : Bool) (accesses : List Access) (n : Nat) : Option (Route × Bool) :=
  match best? accesses none n 0 with
  | none => none
  | some r =>
    if wantsOrder then
      let sorted := if r.rows == -1 then none else some (r.rows + 1)
      (best? (reconsidered accesses r) sorted n 0).map fun s => (s, sorted.isSome)
    else some (r, false)

end Route

end SampleSearch
