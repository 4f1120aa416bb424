import SampleSearch.Text.Basic

/-! # Kinds of objects

Every entry of a sample repository is an object, and most objects are also of one concrete kind: a
file, a static configuration or a text blob. A query is bound to one kind; the generic kind goes
together with every other one.
-/

namespace SampleSearch

inductive Kind
  | object
  | file
  | config
  | blob
  deriving DecidableEq, Repr

namespace Kind

def isConcrete (k : Kind) : Bool := k != object

def text : Kind → Text
  | object => "object".toList
  | file => "file".toList
  | config => "config".toList
  | blob => "blob".toList

def resultName : Kind → Text
  | blob => "text_blob".toList
  | k => k.text

/-- The kind that a prefix of a field path names. -/
def ofAlias (name : Text) : Option Kind :=
  if name = "object".toList then some object
  else if name = "file".toList then some file
  else if name = "static".toList ∨ name = "config".toList then some config
  else if name = "blob".toList then some blob
  else none

def typeTag : Kind → Option Text
  | object => none
  | file => some "file".toList
  | config => some "static_config".toList
  | blob => some "text_blob".toList

def ofTypeTag (tag : Text) : Option Kind :=
  if tag = "file".toList then some file
  else if tag = "static_config".toList then some config
  else if tag = "text_blob".toList then some blob
  else none

theorem isConcrete_iff_typeTag (k : Kind) : k.isConcrete = k.typeTag.isSome := by
  cases k <;> decide

theorem ofTypeTag_eq_some_iff {tag : Text} {k : Kind} :
    ofTypeTag tag = some k ↔ k.typeTag = some tag := by
  constructor
  · intro h
    unfold ofTypeTag at h
    split at h
    · cases h; simp_all [typeTag]
    · split at h
      · cases h; simp_all [typeTag]
      · split at h
        · cases h; simp_all [typeTag]
        · cases h
  · intro h
    cases k <;> simp only [typeTag, Option.some.injEq, reduceCtorEq] at h <;> subst h <;> decide

end Kind

/-- The kind bound so far in a query; nothing until a field has been resolved. -/
abbrev Binding := Option Kind

end SampleSearch
