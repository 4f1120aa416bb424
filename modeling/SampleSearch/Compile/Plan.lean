import SampleSearch.Compile.Query
import SampleSearch.Condition.Access
import SampleSearch.Query.Parser

/-! # Plans

A plan is a query compiled for a viewer. Its objects are those of the bound kind that satisfy the
query, are visible to the viewer and come after a given object in the order of the search.
-/

namespace SampleSearch

inductive SortOrder
  | newest
  | oldest
  deriving DecidableEq, Repr

namespace SortOrder

/-- How an object compares with those before it in the order. -/
def beyond : SortOrder → Comparison
  | newest => .lt
  | oldest => .gt

end SortOrder

structure SearchOptions where
  kind : Binding
  limit : Nat
  sort : SortOrder
  /-- Only objects after the one with this hash are wanted. -/
  olderThan : Option Text
  deriving DecidableEq, Repr

namespace SearchOptions

def maxLimit : Nat := 10000

def default : SearchOptions := ⟨none, maxLimit, .newest, none⟩

def effectiveLimit (o : SearchOptions) : Nat := min (max o.limit 1) maxLimit

theorem effectiveLimit_bounds (o : SearchOptions) :
    1 ≤ o.effectiveLimit ∧ o.effectiveLimit ≤ maxLimit := by
  unfold effectiveLimit maxLimit
  omega

end SearchOptions

structure Plan where
  kind : Kind
  condition : Condition
  sort : SortOrder
  limit : Nat

namespace Plan

/-- Strictly after a position: by time of upload, and by id among objects of the same time. -/
def afterPosition (sort : SortOrder) (p : Position) : Condition :=
  .any [.compare (.column .objectUploadTime) sort.beyond (.moment p.uploadTime),
    .all [.equals (.column .objectUploadTime) (.moment p.uploadTime),
      .compare (.column .objectId) sort.beyond (.int p.id)]]

def afterObject (d : Directory) (v : Viewer) (sort : SortOrder) :
    Option Text → Except SearchError (List Condition)
  | none => .ok []
  | some dhash => do
    let p ← Directory.required (.noSuchObject dhash) (d.position? dhash v)
    .ok [afterPosition sort p]

def ofKind (k : Kind) : List Condition :=
  match k.typeTag with
  | none => []
  | some tag => [.equals (.column .objectType) (.text tag)]

def ofQuery (d : Directory) (v : Viewer) (o : SearchOptions) (q : Query) :
    Except SearchError Plan := do
  let (condition, binding) ← q.compile d v o.kind
  let kind := binding.getD .object
  let after ← afterObject d v o.sort o.olderThan
  .ok ⟨kind, .all (ofKind kind ++ [condition, v.access] ++ after), o.sort, o.effectiveLimit⟩

def compile (d : Directory) (v : Viewer) (o : SearchOptions) (text : Text) :
    Except SearchError Plan := do
  ofQuery d v o (← Query.parse text)

end Plan

end SampleSearch
