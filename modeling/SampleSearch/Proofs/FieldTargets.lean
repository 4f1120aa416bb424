import SampleSearch.Proofs.BoundKinds

/-!
# Where fields look

The condition of a value depends on where its field looks: on how the field is compared and on the
segments that are left for it. The path as it is written only occurs in messages, and the kind that
it was resolved for does not matter any more.

A path that starts with a kind or with a field of all kinds looks to the same place whatever kind is
bound, because no kind has a field of its own with the name of an inherited one.
-/

namespace SampleSearch

theorem toOption_eq_some_iff {ε α : Type} {x : Except ε α} {a : α} :
    x.toOption = some a ↔ x = .ok a := by
  cases x <;> simp [Except.toOption]

theorem toOption_bind {ε α β : Type} (x : Except ε α) (f : α → Except ε β) :
    (x >>= f).toOption = x.toOption.bind fun a => (f a).toOption := by
  cases x <;> rfl

theorem toOption_bind_congr {ε α β : Type} {x y : Except ε α} {f g : α → Except ε β}
    (h : x.toOption = y.toOption) (hrest : ∀ a, (f a).toOption = (g a).toOption) :
    (x >>= f).toOption = (y >>= g).toOption := by
  rw [toOption_bind, toOption_bind, h]
  simp only [hrest]

def ResolvedField.target (f : ResolvedField) : Strategy × List Text := (f.strategy, f.residual)

namespace Leaf

variable (p q : Text) (c : Column)

theorem toOption_integer? (value : Text) :
    (integer? p value).toOption = (integer? q value).toOption := by
  unfold integer?
  split
  · rfl
  · split <;> rfl

theorem toOption_integerBound (comparison : Comparison) (value : Text) :
    (integerBound p c comparison value).toOption =
      (integerBound q c comparison value).toOption := by
  unfold integerBound
  split
  · rfl
  · exact toOption_bind_congr (toOption_integer? p q _) fun _ => rfl

theorem toOption_integerRange (r : Range) :
    (integerRange p c r).toOption = (integerRange q c r).toOption :=
  toOption_bind_congr (toOption_integerBound p q c _ _) fun _ =>
    toOption_bind_congr (toOption_integerBound p q c _ _) fun _ => rfl

theorem toOption_window? (value : Text) :
    (window? p value).toOption = (window? q value).toOption := by
  unfold window?
  split <;> rfl

theorem toOption_momentTerm (value : Text) :
    (momentTerm p c value).toOption = (momentTerm q c value).toOption := by
  unfold momentTerm
  split
  · rfl
  · exact toOption_bind_congr (toOption_window? p q _) fun _ => rfl

theorem toOption_momentLow (value : Text) :
    (momentLow p c value).toOption = (momentLow q c value).toOption := by
  unfold momentLow
  split
  · rfl
  · exact toOption_bind_congr (toOption_window? p q _) fun _ => rfl

theorem toOption_momentHigh (value : Text) :
    (momentHigh p c value).toOption = (momentHigh q c value).toOption := by
  unfold momentHigh
  split
  · rfl
  · exact toOption_bind_congr (toOption_window? p q _) fun _ => rfl

theorem toOption_momentRange (r : Range) :
    (momentRange p c r).toOption = (momentRange q c r).toOption := by
  unfold momentRange
  split
  · rfl
  · exact toOption_bind_congr (toOption_momentLow p q c _) fun _ =>
      toOption_bind_congr (toOption_momentHigh p q c _) fun _ => rfl

theorem toOption_exactName (leaf : Leaf) :
    (exactName p leaf).toOption = (exactName q leaf).toOption := by
  cases leaf with
  | range r => rfl
  | term value =>
    simp only [exactName]
    split <;> rfl

variable (d : Directory) (v : Viewer)

theorem toOption_keyedCondition (residual : List Text) (leaf : Leaf) :
    (keyedCondition d v p residual leaf).toOption =
      (keyedCondition d v q residual leaf).toOption := by
  cases leaf with
  | range r => rfl
  | term value => cases residual <;> rfl

variable {d v}

/-- Whether a value has a condition, and which one, depends on where the field looks. -/
theorem toOption_condition {f g : ResolvedField} (h : f.target = g.target) (leaf : Leaf) :
    (leaf.condition d v f).toOption = (leaf.condition d v g).toOption := by
  obtain ⟨p, kind, strategy, residual⟩ := f
  obtain ⟨q, kind', strategy', residual'⟩ := g
  obtain ⟨rfl, rfl⟩ := Prod.mk.inj h
  cases strategy with
  | text c => cases leaf <;> rfl
  | integer c =>
    cases leaf with
    | term value => exact toOption_bind_congr (toOption_integer? p q value) fun _ => rfl
    | range r => exact toOption_integerRange p q c r
  | moment c =>
    cases leaf with
    | term value => exact toOption_momentTerm p q c value
    | range r => exact toOption_momentRange p q c r
  | related r c => cases leaf <;> rfl
  | document c => cases leaf <;> rfl
  | keyed => exact toOption_keyedCondition p q d v residual leaf
  | sharedWith => exact toOption_bind_congr (toOption_exactName p q leaf) fun _ => rfl
  | uploadedBy => exact toOption_bind_congr (toOption_exactName p q leaf) fun _ => rfl

end Leaf

namespace Query

variable {d : Directory} {v : Viewer} {f g : Option ResolvedField}

theorem toOption_leafCondition (h : f.map ResolvedField.target = g.map ResolvedField.target)
    (leaf : Leaf) : (leafCondition d v f leaf).toOption = (leafCondition d v g leaf).toOption := by
  cases f with
  | none =>
    cases g with
    | none => rfl
    | some g => cases h
  | some f =>
    cases g with
    | none => cases h
    | some g => exact Leaf.toOption_condition (Option.some.inj h) leaf

theorem leafCondition_of_target (h : f.map ResolvedField.target = g.map ResolvedField.target)
    {leaf : Leaf} {c : Condition} (hc : leafCondition d v f leaf = .ok c) :
    leafCondition d v g leaf = .ok c := by
  rw [← toOption_eq_some_iff, toOption_leafCondition h] at *
  exact hc

end Query

namespace FieldEntry

def inheritedNames : List Text :=
  ["dhash".toList, "upload_time".toList, "tag".toList, "comment".toList, "meta".toList,
    "attribute".toList, "shared".toList, "uploader".toList]

theorem mem_inheritedNames {name : Text} {e : FieldEntry} (h : find? .object name = some e) :
    name ∈ inheritedNames := by
  have hall : ∀ e ∈ tables.flatten, e.kind = .object → e.name ∈ inheritedNames := by decide
  obtain ⟨hmem, hkind, rfl⟩ := find?_eq_some h
  exact hall e hmem (hkind.elim id id)

theorem find?_inherited {name : Text} (h : name ∈ inheritedNames) (k : Kind) :
    find? k name = find? .object name := by
  have hall : ∀ name ∈ inheritedNames, find? .file name = find? .object name ∧
      find? .config name = find? .object name ∧ find? .blob name = find? .object name := by decide
  obtain ⟨hfile, hconfig, hblob⟩ := hall name h
  cases k with
  | object => rfl
  | file => exact hfile
  | config => exact hconfig
  | blob => exact hblob

end FieldEntry

namespace Kind

theorem bind_getD (b : Binding) : bind b (b.getD .object) = bind b .object := by
  cases b with
  | none => rfl
  | some k => cases k <;> rfl

theorem getD_of_bind_object {b b' : Binding} (h : bind b .object = .ok b') :
    b'.getD .object = b.getD .object := by
  cases b with
  | none =>
    cases h
    rfl
  | some k => cases k <;> cases h <;> rfl

end Kind

namespace ResolvedField

/-- The kind that a path names by its prefix; it is the generic one if there is none. -/
def namedKind (path : Text) : Kind := (splitKind none (segments path)).1

/-- Whether a path starts with the name of a kind or of a field that all kinds have. -/
def IsFree (path : Text) : Prop :=
  ∃ first rest, segments path = first :: rest ∧
    ((Kind.ofAlias first).isSome = true ∨ first ∈ FieldEntry.inheritedNames)

/-- What segments lead to depends on the field that is found for the first of them. -/
theorem exists_ofSegments {kind kind' : Kind} {name path : Text} {residual : List Text}
    {f : ResolvedField} (hfind : FieldEntry.find? kind' name = FieldEntry.find? kind name)
    (h : ofSegments path kind (name :: residual) = .ok f) (path' : Text) :
    ∃ g, ofSegments path' kind' (name :: residual) = .ok g ∧ g.kind = kind' ∧
      g.target = f.target := by
  simp only [ofSegments, hfind] at h ⊢
  cases he : FieldEntry.find? kind name with
  | none =>
    rw [he] at h
    cases h
  | some e =>
    simp only [he] at h ⊢
    split at h
    · cases h
    · rename_i htakes
      split at h
      · cases h
      · rename_i hkey
        cases h
        rw [if_neg htakes, if_neg hkey]
        exact ⟨_, rfl, rfl, rfl⟩

/-- What is resolved is the segments behind the kind, none of which is empty. -/
theorem resolve_eq_ok_iff {path : Text} {b : Binding} {f : ResolvedField} :
    resolve path b = .ok f ↔ (segments path).any List.isEmpty = false ∧
      ofSegments path (splitKind b (segments path)).1 (splitKind b (segments path)).2 = .ok f := by
  unfold resolve
  dsimp only
  split
  · rename_i hempty
    simp [hempty]
  · rename_i hfull
    rw [Bool.not_eq_true] at hfull
    simp only [hfull, true_and]

/-- A path that names a kind or a field of all kinds looks to the same place whatever is bound. -/
theorem IsFree.exists_resolve {path : Text} (hfree : IsFree path) {b : Binding} {f : ResolvedField}
    (h : resolve path b = .ok f) (b' : Binding) :
    ∃ g, resolve path b' = .ok g ∧ g.target = f.target := by
  obtain ⟨first, rest, hpath, hfirst⟩ := hfree
  rw [resolve_eq_ok_iff, hpath] at h
  obtain ⟨hfull, h⟩ := h
  rw [splitKind] at h
  cases halias : Kind.ofAlias first with
  | some k =>
    rw [halias] at h
    refine ⟨f, resolve_eq_ok_iff.2 ?_, rfl⟩
    rw [hpath, splitKind, halias]
    exact ⟨hfull, h⟩
  | none =>
    rw [halias] at h
    have hmem : first ∈ FieldEntry.inheritedNames := by simpa [halias] using hfirst
    have hfind : FieldEntry.find? (b'.getD .object) first =
        FieldEntry.find? (b.getD .object) first := by
      rw [FieldEntry.find?_inherited hmem, FieldEntry.find?_inherited hmem (b.getD .object)]
    obtain ⟨g, hg, -, htarget⟩ := exists_ofSegments hfind h path
    refine ⟨g, resolve_eq_ok_iff.2 ?_, htarget⟩
    rw [hpath, splitKind, halias]
    exact ⟨hfull, hg⟩

/-- A path that is resolved while nothing concrete is bound names a kind or a field of all kinds. -/
theorem isFree_of_resolve {path : Text} {b : Binding} {f : ResolvedField}
    (hb : b.getD .object = .object) (h : resolve path b = .ok f) : IsFree path := by
  obtain ⟨-, name, residual, e, hsplit, he, -⟩ := exists_entry_of_resolve h
  cases hpath : segments path with
  | nil => exact absurd hpath (segments_ne_nil path)
  | cons first rest =>
    refine ⟨first, rest, hpath, ?_⟩
    rw [hpath, splitKind] at hsplit
    cases halias : Kind.ofAlias first with
    | some k => exact .inl rfl
    | none =>
      rw [halias, hb] at hsplit
      obtain ⟨hkind, rfl, -⟩ : Kind.object = f.kind ∧ first = name ∧ rest = residual := by
        simpa using hsplit
      rw [← hkind] at he
      exact .inr (FieldEntry.mem_inheritedNames he)

theorem bind_kind_of_resolve {path : Text} {b : Binding} {f : ResolvedField}
    (h : resolve path b = .ok f) : Kind.bind b f.kind = Kind.bind b (namedKind path) := by
  rw [(resolve_eq_ok h).1, namedKind]
  cases hpath : segments path with
  | nil => exact absurd hpath (segments_ne_nil path)
  | cons first rest =>
    rw [splitKind, splitKind]
    cases Kind.ofAlias first with
    | some k => rfl
    | none => exact Kind.bind_getD b

end ResolvedField

end SampleSearch
