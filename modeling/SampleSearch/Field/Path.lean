import SampleSearch.Error
import SampleSearch.Field.Registry

/-! # Field paths

A field path is a list of segments with points between them. The first segment may name the kind;
otherwise the path belongs to the kind that the query is bound to, or to the generic one. The next
segment names the field, and the others are left for the field: labels in a document, or the key
of an attribute and labels behind it.
-/

namespace SampleSearch

def segments : Text → List Text
  | [] => [[]]
  | c :: s =>
    if c == '.' then [] :: segments s
    else
      match segments s with
      | [] => [[c]]
      | w :: ws => (c :: w) :: ws

theorem segments_ne_nil (t : Text) : segments t ≠ [] := by
  cases t with
  | nil => simp [segments]
  | cons c s =>
    rw [segments]
    split
    · simp
    · split <;> simp

structure ResolvedField where
  path : Text
  kind : Kind
  strategy : Strategy
  residual : List Text
  deriving DecidableEq, Repr

namespace ResolvedField

/-- The kind of a path and its segments behind the prefix. -/
def splitKind (bound : Binding) : List Text → Kind × List Text
  | [] => (bound.getD .object, [])
  | first :: rest =>
    match Kind.ofAlias first with
    | some kind => (kind, rest)
    | none => (bound.getD .object, first :: rest)

def ofSegments (path : Text) (kind : Kind) : List Text → Except SearchError ResolvedField
  | [] => .error (.missingFieldName path)
  | name :: residual =>
    match FieldEntry.find? kind name with
    | none => .error (.unknownField path kind)
    | some entry =>
      if !residual.isEmpty && !entry.strategy.takesSegments then .error (.noSubfields name)
      else if residual.isEmpty && entry.strategy == .keyed then
        .error (.missingAttributeKey path)
      else .ok ⟨path, kind, entry.strategy, residual⟩

def resolve (path : Text) (bound : Binding) : Except SearchError ResolvedField :=
  let parts := segments path
  if parts.any List.isEmpty then .error (.emptySegment path)
  else
    let (kind, rest) := splitKind bound parts
    ofSegments path kind rest

end ResolvedField

namespace Kind

/-- Binds a query further. The generic kind goes with every other, two concrete ones do not. -/
def bind (binding : Binding) (kind : Kind) : Except SearchError Binding :=
  match binding with
  | none => .ok (some kind)
  | some current =>
    if current.isConcrete && kind.isConcrete && kind != current then
      .error (.kindConflict current kind)
    else if current.isConcrete then .ok (some current)
    else .ok (some kind)

end Kind

end SampleSearch
