import SampleSearch.Scan.Route

/-! # Courses

A course is what the database tests for every object, in order. Terms that need no source come
first. A term is tested as soon as all its sources are reached; among those of one source the terms
that an index decides come first and those that look at related rows last. A term that is used to
find rows is not tested again, but a disjunction whose alternatives are used is.
-/

namespace SampleSearch

inductive Purpose
  | counting
  /-- All columns of the objects are wanted, in an order by the time of upload. -/
  | selecting
  deriving DecidableEq, Repr

inductive Test
  | holds (c : Condition) (settles : Bool)
  | joined (s : Source)
  | starts (octets : List Nat)
  /-- All tests of some list are passed. -/
  | someOf (courses : List (List Test))
  deriving Repr

structure Course where
  tests : List Test
  isOrdered : Bool
  deriving Repr

namespace Term

/-- Terms without sources are tested first, but not patterns. -/
def isConstant (t : Term) : Bool :=
  t.needs.isEmpty && !t.isDerived &&
    match t.claim with
    | .holds c _ => !c.hasPattern
    | .joined _ => false

def looksAtRelated (t : Term) : Bool :=
  match t.claim with
  | .holds c _ => c.looksAtRelated
  | .joined _ => false

def isCovered (i : Index) (t : Term) : Bool :=
  match t.claim with
  | .holds c _ => c.ownColumns.all i.covers
  | .joined _ => true

def test (t : Term) : Test :=
  match t.claim with
  | .holds c settles => .holds c settles
  | .joined s => .joined s

/-- The test that finding rows by a term amounts to. The start of a text is stricter than a
pattern. -/
def finding (t : Term) : Test :=
  match t.bound with
  | some (_, .starting octets) => .starts octets
  | _ => t.test

/-- A claim that narrows down every alternative of a disjunction: a comparison or another
disjunction that does not look at related rows. -/
def shared? (t : Term) : Option Claim :=
  if t.isDerived || t.isConstant || t.looksAtRelated then none
  else
    match t.claim with
    | .holds (.any (c :: d :: cs)) settles => some (.holds (.any (c :: d :: cs)) settles)
    | .holds c settles => if t.bound.isSome then some (.holds c settles) else none
    | .joined _ => none

end Term

namespace Access

def arranged (a : Access) (isOuter : Bool) (ts : List Term) : List Term :=
  let early (t : Term) : Bool := !t.looksAtRelated && !a.readsIndexOnly &&
    match a.index with
    | some i => !i.holdsRows && t.isCovered i
    | none => false
  if isOuter then ts
  else
    ts.filter early ++ (ts.filter fun t => !early t && !t.looksAtRelated) ++
      ts.filter Term.looksAtRelated

def answers (a : Access) (t : Term) : Bool := a.index.isSome && a.terms.any fun u => u.serves t

end Access

structure Conjunction where
  outline : Outline
  columns : List Column
  wantsOrder : Bool
  terms : List Term

namespace Conjunction

def survey (j : Conjunction) (s : Source) : Survey :=
  let isRequired := s = .object || j.outline.required.contains s
  ⟨j.outline, j.columns, j.wantsOrder, s, if isRequired then [] else s.before, j.terms, []⟩

def accesses (j : Conjunction) (depth : Nat) (ss : List Source) : List Access :=
  ss.foldl (fun known s => (j.survey s).addAccesses depth known) []

def constants (j : Conjunction) : List Test :=
  (j.terms.filter Term.isConstant).map Term.test

def findings (j : Conjunction) (alternatives : Term → Test) (a : Access) : List Test :=
  match a.source, a.index with
  | .object, none => a.terms.map alternatives
  | .object, some i => if i.holdsRows then [] else a.terms.map Term.finding
  | s, _ => if j.outline.required.contains s then [.joined s] else []

/-- The tests of the terms that are left, along a list of accesses. -/
def testsAlong (j : Conjunction) (alternatives : Term → Test) (reached : List Source)
    (left : List Term) : List Access → List Test
  | [] => []
  | a :: as =>
    let left := left.filter fun t => !a.answers t
    let reached := reached ++ [a.source]
    let ripe (t : Term) : Bool := t.needs.all reached.contains
    let isOuter := a.source != .object && !j.outline.required.contains a.source
    j.findings alternatives a ++ (a.arranged isOuter (left.filter ripe)).map Term.test ++
      testsAlong j alternatives reached (left.filter fun t => !ripe t) as

def testsOn (j : Conjunction) (alternatives : Term → Test) (r : Route) : List Test :=
  let left := j.terms.filter fun t => !t.isDerived && !t.isConstant
  j.constants ++ j.testsAlong alternatives [] left r.accesses

/-- The conjunction of one alternative of a term with all that narrows it down. -/
def alternative (j : Conjunction) (t : Term) (c : Condition) : Conjunction :=
  let others := (j.terms.filter fun u => !u.isSame t).filterMap Term.shared?
  { j with
    wantsOrder := false
    terms := j.outline.terms [] ((c.conjuncts.map fun d => .holds d false) ++ others) }

/-- Takes the alternatives of a term, which may be nested `n` levels deep. The statement around them
passes a number of rows. -/
def alternatives (rows : Estimate) : Nat → Conjunction → Term → Test
  | 0, _, t => t.test
  | n + 1, j, t =>
    .someOf ((j.outline.branches t).map fun b =>
      let inner := j.alternative t b.1
      match Route.best? (inner.accesses n [.object]) none 1 (min rows 48) with
      | some r => inner.testsOn (alternatives (rows + r.rows) n inner) r
      | none => [])

def course (j : Conjunction) (depth : Nat) : Course :=
  match Route.choose? j.wantsOrder (j.accesses depth Source.joined) Source.joined.length with
  | none => ⟨[], false⟩
  | some (r, minded) =>
    let rows := if j.wantsOrder then r.rows - 30 else r.rows
    ⟨j.testsOn (alternatives rows depth j) r, minded && r.isOrdered⟩

end Conjunction

namespace Condition

mutual

def depth : Condition → Nat
  | all parts => depthOfAll parts + 1
  | any parts => depthOfAll parts + 1
  | _ => 1

def depthOfAll : List Condition → Nat
  | [] => 0
  | c :: cs => max (depth c) (depthOfAll cs)

end

def course (c : Condition) (purpose : Purpose) : Course :=
  let o := c.outline
  let columns := match purpose with
    | .counting => c.columns
    | .selecting => Column.all
  Conjunction.course ⟨o, columns.filter fun d => d.source == .object, purpose = .selecting,
    o.terms [] o.claims⟩ c.depth

end Condition

end SampleSearch
