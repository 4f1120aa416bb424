import SampleSearch.Proofs.EscapedPaths
import SampleSearch.Proofs.FieldTargets
import SampleSearch.Proofs.HiddenEntities

/-!
# Dropping prefixes

The prefix of a path may be dropped where the query is bound to its kind already, and the prefix of
the generic kind may be dropped everywhere. What is left starts with the name of a field, which is
never read as a prefix, and leads to where the whole path led. The bindings behind it stay the same,
so any number of prefixes can be dropped at once: which ones depends on the whole query as it was.
-/

namespace SampleSearch

namespace Kind

def aliases : List Text :=
  ["object".toList, "file".toList, "static".toList, "config".toList, "blob".toList]

theorem mem_aliases {name : Text} {k : Kind} (h : ofAlias name = some k) : name ∈ aliases := by
  unfold ofAlias at h
  split at h
  · rename_i hobject
    exact hobject ▸ by decide
  · split at h
    · rename_i hfile
      exact hfile ▸ by decide
    · split at h
      · rename_i hconfig
        rcases hconfig with rfl | rfl <;> decide
      · split at h
        · rename_i hblob
          exact hblob ▸ by decide
        · cases h

theorem point_notMem_of_ofAlias {name : Text} {k : Kind} (h : ofAlias name = some k) :
    '.' ∉ name := by
  have hall : ∀ name ∈ aliases, '.' ∉ name := by decide
  exact hall name (mem_aliases h)

end Kind

theorem FieldEntry.ofAlias_of_find? {kind : Kind} {name : Text} {e : FieldEntry}
    (h : find? kind name = some e) : Kind.ofAlias name = none := by
  have hall : ∀ e ∈ tables.flatten, Kind.ofAlias e.name = none := by decide
  obtain ⟨hmem, -, rfl⟩ := find?_eq_some h
  exact hall e hmem

namespace ResolvedField

/-- Without a prefix that is implied a path leads to the same place and binds the same kind. -/
theorem exists_resolve_dropped {first rest : Text} {k : Kind} {b : Binding} {f : ResolvedField}
    (hk : Kind.ofAlias first = some k) (hb : k = .object ∨ b = some k)
    (h : resolve (first ++ '.' :: rest) b = .ok f) :
    ∃ g, resolve rest b = .ok g ∧ g.target = f.target ∧
      Kind.bind b g.kind = Kind.bind b f.kind := by
  have hpath : segments (first ++ '.' :: rest) = first :: segments rest :=
    segments_append_point (Kind.point_notMem_of_ofAlias hk) rest
  obtain ⟨hfull, name, residual, e, hsplit, he, -⟩ := exists_entry_of_resolve h
  rw [hpath, List.any_cons, Bool.or_eq_false_iff] at hfull
  simp only [hpath, splitKind, hk, Prod.mk.injEq] at hsplit
  obtain ⟨rfl, hrest⟩ := hsplit
  have hfind : FieldEntry.find? (b.getD .object) name = FieldEntry.find? f.kind name := by
    rcases hb with hgeneric | rfl
    · rw [hgeneric] at he ⊢
      exact FieldEntry.find?_inherited (FieldEntry.mem_inheritedNames he) _
    · rfl
  rw [resolve_eq_ok_iff, hpath, splitKind, hk, hrest] at h
  obtain ⟨g, hg, hkind, htarget⟩ := exists_ofSegments hfind h.2 rest
  refine ⟨g, resolve_eq_ok_iff.2 ⟨hfull.2, ?_⟩, htarget, ?_⟩
  · rw [hrest, splitKind, FieldEntry.ofAlias_of_find? he]
    exact hg
  · rw [hkind]
    rcases hb with hgeneric | hsame
    · rw [hgeneric, Kind.bind_getD]
    · rw [hsame]
      rfl

end ResolvedField

namespace Query

def boundBehind (b : Binding) (path : Text) : Binding :=
  match ResolvedField.resolve path b with
  | .ok f => narrow b f.kind
  | .error _ => b

mutual

/-- Whether one query becomes another by dropping prefixes, each of which names the kind that is
bound in front of its path, or the generic kind. -/
inductive Shortens : Binding → Query → Query → Prop
  | all {b ps qs} : ShortensParts b ps qs → Shortens b (.all ps) (.all qs)
  | any {b ps qs} : ShortensParts b ps qs → Shortens b (.any ps) (.any qs)
  | negated {b q r} : Shortens b q r → Shortens b (.negated q) (.negated r)
  | prohibited {b q r} : Shortens b q r → Shortens b (.prohibited q) (.prohibited r)
  | group {b q r} : Shortens b q r → Shortens b (.group q) (.group r)
  | fieldGroup {b q r} : Shortens b q r → Shortens b (.fieldGroup q) (.fieldGroup r)
  | word {b} (value : Text) : Shortens b (.word value) (.word value)
  | phrase {b} (content : Text) : Shortens b (.phrase content) (.phrase content)
  | range {b} (r : Range) : Shortens b (.range r) (.range r)
  | field {b path q r} : Shortens (boundBehind b path) q r →
      Shortens b (.field path q) (.field path r)
  | dropped {b first rest k q r} : Kind.ofAlias first = some k → k = .object ∨ b = some k →
      Shortens (boundBehind b (first ++ '.' :: rest)) q r →
      Shortens b (.field (first ++ '.' :: rest) q) (.field rest r)

inductive ShortensParts : Binding → List Query → List Query → Prop
  | nil {b} : ShortensParts b [] []
  | cons {b p q ps qs} : Shortens b p q → ShortensParts (boundAfter b p) ps qs →
      ShortensParts b (p :: ps) (q :: qs)

end

variable {d : Directory} {v : Viewer}

theorem boundBehind_of_bind {b b' : Binding} {path : Text} {f : ResolvedField}
    (hf : ResolvedField.resolve path b = .ok f) (hb : Kind.bind b f.kind = .ok b') :
    boundBehind b path = b' := by
  rw [boundBehind, hf, eq_narrow_of_bind hb]

theorem compileValue_of_target {f g : Option ResolvedField}
    (hfg : f.map ResolvedField.target = g.map ResolvedField.target) {b b' : Binding} {leaf : Leaf}
    {c : Condition} (h : (do .ok (← leafCondition d v f leaf, b)) = Except.ok (c, b')) :
    (do .ok (← leafCondition d v g leaf, b)) = Except.ok (c, b') := by
  obtain ⟨e, he, h⟩ := bind_eq_ok_iff.1 h
  exact bind_eq_ok_iff.2 ⟨e, leafCondition_of_target hfg he, h⟩

mutual

/-- A query that is compiled is compiled to the same without its implied prefixes. -/
theorem compileIn_of_shortens {f g : Option ResolvedField}
    (hfg : f.map ResolvedField.target = g.map ResolvedField.target) {b b' : Binding} {q r : Query}
    (hs : Shortens b q r) {c : Condition} (h : compileIn d v f b q = .ok (c, b')) :
    compileIn d v g b r = .ok (c, b') := by
  cases q with
  | all parts =>
    cases hs with
    | all hparts =>
      obtain ⟨⟨cs, e⟩, hcs, h⟩ := bind_eq_ok_iff.1 (by simpa only [compileIn] using h)
      exact bind_eq_ok_iff.2 ⟨(cs, e), compileParts_of_shortens hfg hparts hcs, h⟩
  | any parts =>
    cases hs with
    | any hparts =>
      obtain ⟨⟨cs, e⟩, hcs, h⟩ := bind_eq_ok_iff.1 (by simpa only [compileIn] using h)
      exact bind_eq_ok_iff.2 ⟨(cs, e), compileParts_of_shortens hfg hparts hcs, h⟩
  | negated q =>
    cases hs with
    | negated hs =>
      obtain ⟨⟨e, e'⟩, hq, h⟩ := bind_eq_ok_iff.1 (by simpa only [compileIn] using h)
      exact bind_eq_ok_iff.2 ⟨(e, e'), compileIn_of_shortens hfg hs hq, h⟩
  | prohibited q =>
    cases hs with
    | prohibited hs =>
      obtain ⟨⟨e, e'⟩, hq, h⟩ := bind_eq_ok_iff.1 (by simpa only [compileIn] using h)
      exact bind_eq_ok_iff.2 ⟨(e, e'), compileIn_of_shortens hfg hs hq, h⟩
  | group q =>
    cases hs with
    | group hs =>
      rw [compileIn] at h ⊢
      exact compileIn_of_shortens hfg hs h
  | fieldGroup q =>
    cases hs with
    | fieldGroup hs =>
      rw [compileIn] at h ⊢
      exact compileIn_of_shortens hfg hs h
  | field path q =>
    obtain ⟨e, he, hrest⟩ := bind_eq_ok_iff.1 (by simpa only [compileIn] using h)
    obtain ⟨b₁, hb₁, hq⟩ := bind_eq_ok_iff.1 hrest
    cases hs with
    | field hs =>
      rw [boundBehind_of_bind he hb₁] at hs
      exact bind_eq_ok_iff.2
        ⟨e, he, bind_eq_ok_iff.2 ⟨b₁, hb₁, compileIn_of_shortens rfl hs hq⟩⟩
    | dropped hk hb hs =>
      rw [boundBehind_of_bind he hb₁] at hs
      obtain ⟨e', he', htarget, hbind⟩ := ResolvedField.exists_resolve_dropped hk hb he
      have hsame : (some e).map ResolvedField.target = (some e').map ResolvedField.target :=
        congrArg some htarget.symm
      exact bind_eq_ok_iff.2
        ⟨e', he', bind_eq_ok_iff.2 ⟨b₁, hbind.trans hb₁, compileIn_of_shortens hsame hs hq⟩⟩
  | word value =>
    cases hs
    rw [compileIn] at h ⊢
    exact compileValue_of_target hfg h
  | phrase content =>
    cases hs
    rw [compileIn] at h ⊢
    exact compileValue_of_target hfg h
  | range r =>
    cases hs
    rw [compileIn] at h ⊢
    exact compileValue_of_target hfg h
  | required q => cases h
  | fuzzy value degree => cases h
  | proximity content degree => cases h
  | boost q force => cases h
  | regex pattern => cases h

theorem compileParts_of_shortens {f g : Option ResolvedField}
    (hfg : f.map ResolvedField.target = g.map ResolvedField.target) {b b' : Binding}
    {qs rs : List Query} (hs : ShortensParts b qs rs) {cs : List Condition}
    (h : compileParts d v f b qs = .ok (cs, b')) : compileParts d v g b rs = .ok (cs, b') := by
  cases qs with
  | nil =>
    cases hs
    exact h
  | cons q qs =>
    cases hs with
    | cons hq hqs =>
      obtain ⟨⟨e, b₁⟩, he, h⟩ := bind_eq_ok_iff.1 (by simpa only [compileParts] using h)
      obtain ⟨⟨es, b₂⟩, hes, h⟩ := bind_eq_ok_iff.1 h
      rw [← eq_boundAfter_of_compileIn he] at hqs
      exact bind_eq_ok_iff.2 ⟨(e, b₁), compileIn_of_shortens hfg hq he,
        bind_eq_ok_iff.2 ⟨(es, b₂), compileParts_of_shortens hfg hqs hes, h⟩⟩

end

/-- A query that is compiled is compiled to the same condition and binding if prefixes are dropped
that name the generic kind or the kind that is bound in front of them. -/
theorem compile_without_prefixes {b b' : Binding} {q r : Query} (hs : Shortens b q r)
    {c : Condition} (h : q.compile d v b = .ok (c, b')) : r.compile d v b = .ok (c, b') :=
  compileIn_of_shortens rfl hs h

def longQuery : Query :=
  all [.field ("object".toList ++ '.' :: "tag".toList) (word ['x']),
    .field ("file".toList ++ '.' :: "name".toList) (word "a*".toList),
    group (any [.field ("object".toList ++ '.' :: "meta.k.l".toList) (word ['y']),
      negated (.field ("file".toList ++ '.' :: "type".toList) (phrase ['t']))]),
    .field ("file".toList ++ '.' :: "alt_name".toList) (word ['b'])]

def shortQuery : Query :=
  all [.field "tag".toList (word ['x']),
    .field ("file".toList ++ '.' :: "name".toList) (word "a*".toList),
    group (any [.field "meta.k.l".toList (word ['y']),
      negated (.field "type".toList (phrase ['t']))]),
    .field ("file".toList ++ '.' :: "alt_name".toList) (word ['b'])]

theorem shortens_longQuery : Shortens none longQuery shortQuery := by
  refine .all (.cons (.dropped rfl (.inl rfl) (.word _)) (.cons (.field (.word _)) (.cons ?_
    (.cons (.field (.word _)) .nil))))
  refine .group (.any (.cons (.dropped rfl (.inl rfl) (.word _)) (.cons ?_ .nil)))
  exact .negated (.dropped rfl (.inr rfl) (.phrase _))

/-- Both queries are compiled to one condition on files. -/
theorem compile_without_prefixes_shortQuery :
    Shortens none longQuery shortQuery ∧
      ∃ c, longQuery.compile .secretive ⟨⟨1, ['a']⟩, [⟨1, ['g']⟩], []⟩ none =
          .ok (c, some .file) ∧
        shortQuery.compile .secretive ⟨⟨1, ['a']⟩, [⟨1, ['g']⟩], []⟩ none = .ok (c, some .file) :=
  ⟨shortens_longQuery, _, rfl, compile_without_prefixes shortens_longQuery rfl⟩

end Query

end SampleSearch
