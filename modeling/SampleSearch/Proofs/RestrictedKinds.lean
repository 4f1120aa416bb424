import SampleSearch.Proofs.FieldTargets
import SampleSearch.Proofs.WiderViewers

/-!
# Searching for one kind

A kind that is bound before a query is compiled only decides whether the query is compiled: it has
to go with the kind that the query is bound to without it. All fields lead to the same places, so
that the condition of the query stays the same, and the objects that are found are those of the
kind among the ones found without it.

The condition on the type is one part more, though. It makes the statement deeper, may have the
database take another index, and may spare it a document that cannot be read.
-/

namespace SampleSearch

namespace Kind

variable {k : Kind}

theorem bind_of_isWithin (hk : k.isConcrete = true) {j : Kind} (h : j.IsWithin k) :
    bind (some k) j = .ok (some k) := by
  rcases h with rfl | rfl
  · rw [bind, if_neg (by simp [isConcrete]), if_pos hk]
  · rw [bind, if_neg (by simp), if_pos hk]

theorem bind_of_not_isWithin (hk : k.isConcrete = true) {j : Kind} (h : ¬ j.IsWithin k) :
    bind (some k) j = .error (.kindConflict k j) := by
  obtain ⟨hgeneric, hother⟩ := not_or.1 h
  have hj : j.isConcrete = true := bne_iff_ne.2 hgeneric
  rw [bind, if_pos (by simp [hk, hj, hother])]

theorem bind_added (hk : k.isConcrete = true) {b b' : Binding} (hb : (b.getD .object).IsWithin k)
    {j : Kind} (h : bind b j = .ok b') : bind (some k) j = bind (some k) (b'.getD .object) := by
  rcases (isWithin_of_bind h).2 with rfl | rfl
  · rw [getD_of_bind_object h, bind_of_isWithin hk hb, bind_of_isWithin hk (.inl rfl)]
  · rfl

/-- What is bound to another kind stays bound to it: a conflict that is noticed at once is the one
that would be noticed in the end. -/
theorem bind_then {α : Type} (hk : k.isConcrete = true) {i j : Kind} (hgrows : i.IsWithin j) {a : α}
    {rest : Binding → Except SearchError (α × Binding)}
    (hrest : i.IsWithin k → rest (some k) = (bind (some k) j).map fun b => (a, b)) :
    (bind (some k) i >>= rest) = (bind (some k) j).map fun b => (a, b) := by
  by_cases h : i.IsWithin k
  · rw [bind_of_isWithin hk h]
    exact hrest h
  · obtain rfl : i = j := hgrows.resolve_left (not_or.1 h).1
    rw [bind_of_not_isWithin hk h]
    rfl

end Kind

/-- Under a kind that goes with what is bound a path leads to the same place, and binds the kind by
what it adds to the binding. -/
theorem ResolvedField.exists_resolve_bound {k : Kind} (hk : k.isConcrete = true) {b b' : Binding}
    (hb : (b.getD .object).IsWithin k) {path : Text} {f : ResolvedField}
    (hf : resolve path b = .ok f) (hbind : Kind.bind b f.kind = .ok b') :
    ∃ g, resolve path (some k) = .ok g ∧ g.target = f.target ∧
      Kind.bind (some k) g.kind = Kind.bind (some k) (b'.getD .object) := by
  have hg : ∃ g, resolve path (some k) = .ok g ∧ g.target = f.target := by
    rcases hb with hgeneric | hsame
    · exact (isFree_of_resolve hgeneric hf).exists_resolve hf (some k)
    · cases b with
      | none =>
        subst hsame
        cases hk
      | some i =>
        cases hsame
        exact ⟨f, hf, rfl⟩
  obtain ⟨g, hg, htarget⟩ := hg
  rw [bind_kind_of_resolve hf] at hbind
  exact ⟨g, hg, htarget, by rw [bind_kind_of_resolve hg, Kind.bind_added hk hb hbind]⟩

namespace Query

variable {d : Directory} {v : Viewer} {k : Kind}

theorem compileValue_bound (hk : k.isConcrete = true) {f g : Option ResolvedField}
    (hfg : f.map ResolvedField.target = g.map ResolvedField.target) {b b' : Binding}
    (hb : (b.getD .object).IsWithin k) {leaf : Leaf} {c : Condition}
    (h : (do .ok (← leafCondition d v f leaf, b)) = Except.ok (c, b')) :
    (do .ok (← leafCondition d v g leaf, some k)) =
      (Kind.bind (some k) (b'.getD .object)).map fun e => (c, e) := by
  obtain ⟨e, he, h⟩ := bind_eq_ok_iff.1 h
  cases h
  rw [leafCondition_of_target hfg he, Kind.bind_of_isWithin hk hb]
  rfl

mutual

/-- Under a kind that goes with the binding a query is compiled to the same condition, unless what
it is bound to in the end is another kind. -/
theorem compileIn_bound (hk : k.isConcrete = true) {f g : Option ResolvedField}
    (hfg : f.map ResolvedField.target = g.map ResolvedField.target) {b b' : Binding}
    (hb : (b.getD .object).IsWithin k) {q : Query} {c : Condition}
    (h : compileIn d v f b q = .ok (c, b')) :
    compileIn d v g (some k) q =
      (Kind.bind (some k) (b'.getD .object)).map fun e => (c, e) := by
  cases q with
  | all parts =>
    obtain ⟨⟨cs, bound⟩, hcs, h⟩ := bind_eq_ok_iff.1 (by simpa only [compileIn] using h)
    cases h
    rw [compileIn, compileParts_bound hk hfg hb hcs]
    cases Kind.bind (some k) (bound.getD .object) <;> rfl
  | any parts =>
    obtain ⟨⟨cs, bound⟩, hcs, h⟩ := bind_eq_ok_iff.1 (by simpa only [compileIn] using h)
    cases h
    rw [compileIn, compileParts_bound hk hfg hb hcs]
    cases Kind.bind (some k) (bound.getD .object) <;> rfl
  | negated q =>
    obtain ⟨⟨e, bound⟩, hq, h⟩ := bind_eq_ok_iff.1 (by simpa only [compileIn] using h)
    cases h
    rw [compileIn, compileIn_bound hk hfg hb hq]
    cases Kind.bind (some k) (bound.getD .object) <;> rfl
  | prohibited q =>
    obtain ⟨⟨e, bound⟩, hq, h⟩ := bind_eq_ok_iff.1 (by simpa only [compileIn] using h)
    cases h
    rw [compileIn, compileIn_bound hk hfg hb hq]
    cases Kind.bind (some k) (bound.getD .object) <;> rfl
  | group q =>
    rw [compileIn] at h ⊢
    exact compileIn_bound hk hfg hb h
  | fieldGroup q =>
    rw [compileIn] at h ⊢
    exact compileIn_bound hk hfg hb h
  | field path q =>
    obtain ⟨f', hpath, h⟩ := bind_eq_ok_iff.1 (by simpa only [compileIn] using h)
    obtain ⟨bound, hbind, hq⟩ := bind_eq_ok_iff.1 h
    obtain ⟨g', hpath', htarget, hbind'⟩ :=
      ResolvedField.exists_resolve_bound hk hb hpath hbind
    have hrest : compileIn d v g (some k) (.field path q) =
        Kind.bind (some k) (bound.getD .object) >>= fun e => compileIn d v (some g') e q := by
      simp only [compileIn, hpath', ← hbind']
      rfl
    rw [hrest]
    exact Kind.bind_then hk (keepsKind_of_compileIn hq).grows fun hbound =>
      compileIn_bound hk (by simp [htarget]) hbound hq
  | word value => exact compileValue_bound hk hfg hb h
  | phrase content => exact compileValue_bound hk hfg hb h
  | range r => exact compileValue_bound hk hfg hb h
  | required q => cases h
  | fuzzy value degree => cases h
  | proximity content degree => cases h
  | boost q force => cases h
  | regex pattern => cases h

theorem compileParts_bound (hk : k.isConcrete = true) {f g : Option ResolvedField}
    (hfg : f.map ResolvedField.target = g.map ResolvedField.target) {b b' : Binding}
    (hb : (b.getD .object).IsWithin k) {qs : List Query} {cs : List Condition}
    (h : compileParts d v f b qs = .ok (cs, b')) :
    compileParts d v g (some k) qs =
      (Kind.bind (some k) (b'.getD .object)).map fun e => (cs, e) := by
  cases qs with
  | nil =>
    cases h
    rw [compileParts, Kind.bind_of_isWithin hk hb]
    rfl
  | cons q qs =>
    obtain ⟨⟨c, bound⟩, hq, h⟩ := bind_eq_ok_iff.1 (by simpa only [compileParts] using h)
    obtain ⟨⟨es, last⟩, hqs, h⟩ := bind_eq_ok_iff.1 h
    cases h
    have hrest : compileParts d v g (some k) (q :: qs) =
        Kind.bind (some k) (bound.getD .object) >>= fun e =>
          (compileParts d v g e qs).map fun r => (c :: r.1, r.2) := by
      rw [compileParts, compileIn_bound hk hfg hb hq]
      cases Kind.bind (some k) (bound.getD .object) with
      | error e => rfl
      | ok e => 
        cases compileParts d v g e qs <;> rfl
    rw [hrest]
    refine Kind.bind_then hk (keepsKind_of_compileParts hqs).grows fun hbound => ?_
    rw [compileParts_bound hk hfg hbound hqs]
    cases Kind.bind (some k) (last.getD .object) <;> rfl

end

theorem compile_bound (hk : k.isConcrete = true) {b : Binding} {q : Query} {c : Condition}
    (h : q.compile d v none = .ok (c, b)) :
    q.compile d v (some k) = (Kind.bind (some k) (b.getD .object)).map fun e => (c, e) :=
  compileIn_bound hk rfl (.inl rfl) h

end Query

namespace Condition

/-- Whether one condition is within all limits that another one is within. -/
structure IsNoLarger (c d : Condition) : Prop where
  octets : (Fragment.ofCondition c).text.octets.length ≤
    (Fragment.ofCondition d).text.octets.length
  parameters : (Fragment.ofCondition c).parameters.length ≤
    (Fragment.ofCondition d).parameters.length
  height : c.height ≤ d.height
  innerHeight : c.innerHeight ≤ d.innerHeight
  stackSize : c.stackSize ≤ d.stackSize

theorem IsNoLarger.refl (c : Condition) : c.IsNoLarger c :=
  ⟨Nat.le_refl _, Nat.le_refl _, Nat.le_refl _, Nat.le_refl _, Nat.le_refl _⟩

theorem chainHeight_mono {h h' : Nat} (hle : h ≤ h') (cs : List Condition) :
    chainHeight h cs ≤ chainHeight h' cs := by
  induction cs generalizing h h' with
  | nil => exact hle
  | cons c cs ih =>
    rw [chainHeight, chainHeight]
    refine ih ?_
    unfold above
    omega

theorem isNoLarger_all_tail (t c : Condition) (cs : List Condition) :
    IsNoLarger (.all (c :: cs)) (.all (t :: c :: cs)) := by
  have hfragment : Fragment.ofCondition (.all (t :: c :: cs)) = Fragment.parenthesized
      (Fragment.ofCondition t ++ Fragment.plain " AND ".toList ++
        Fragment.joined " AND ".toList (Fragment.ofConditions (c :: cs))) := by
    rw [Fragment.ofCondition, Fragment.ofConditions, Fragment.ofConditions, Fragment.joined]
    simp
  constructor
  · rw [hfragment, Fragment.ofCondition]
    simp only [Fragment.parenthesized, Fragment.text_append, Text.octets_append, List.length_append]
    omega
  · rw [hfragment, Fragment.ofCondition]
    simp only [Fragment.parenthesized, Fragment.parameters_append, List.length_append]
    omega
  · rw [Condition.height, Condition.height, chainHeight]
    refine chainHeight_mono ?_ cs
    unfold above
    omega
  · simp only [Condition.innerHeight, innerHeightOfAll]
    omega
  · simp only [Condition.stackSize, chainStackSize]
    omega

end Condition

namespace Fragment

theorem isAccepted_mono {f g : Fragment} {leading : Nat} {c d : Condition} (h : c.IsNoLarger d)
    (htext : f.text.octets.length ≤ g.text.octets.length)
    (hparameters : f.parameters.length ≤ g.parameters.length)
    (haccepted : g.isAccepted leading d = true) : f.isAccepted leading c = true := by
  have hjoined : c.joinedHeight ≤ d.joinedHeight := by
    have hheight := h.height
    unfold Condition.joinedHeight Condition.above
    omega
  have hinner := h.innerHeight
  have hstack := h.stackSize
  simp only [isAccepted, Bool.and_eq_true, decide_eq_true_eq] at haccepted ⊢
  omega

theorem searchIsAccepted_mono {kind kind' : Kind} {c d : Condition} {sort : SortOrder}
    {limit : Nat} (h : c.IsNoLarger d)
    (haccepted : searchIsAccepted ⟨kind', d, sort, limit⟩ = true) :
    searchIsAccepted ⟨kind, c, sort, limit⟩ = true := by
  have htext := h.octets
  have hparameters := h.parameters
  rw [searchIsAccepted, Bool.and_eq_true] at haccepted ⊢
  refine ⟨isAccepted_mono h ?_ ?_ haccepted.1, isAccepted_mono h ?_ ?_ haccepted.2⟩
  · simp only [counting, filtered, text_append, Text.octets_append, List.length_append]
    omega
  · simp only [counting, filtered, parameters_append, List.length_append]
    omega
  · simp only [selection, filtered, text_append, Text.octets_append, List.length_append]
    omega
  · simp only [selection, filtered, parameters_append, List.length_append]
    omega

end Fragment

namespace Plan

variable {db : Database} {v : Viewer} {j k : Kind} {c : Condition} {after : List Condition}
  {o : SearchOptions}

theorem accepts_wider (h : j.IsWithin k)
    (haccepted : Fragment.searchIsAccepted (.seenBy k c after o v) = true) :
    Fragment.searchIsAccepted (.seenBy j c after o v) = true := by
  rcases h with rfl | rfl
  · refine Fragment.searchIsAccepted_mono ?_ haccepted
    cases k with
    | object => exact .refl _
    | file => exact Condition.isNoLarger_all_tail _ _ _
    | config => exact Condition.isNoLarger_all_tail _ _ _
    | blob => exact Condition.isNoLarger_all_tail _ _ _
  · exact haccepted

theorem isUntroubled_ofKind (h : db.isUntroubled (seenBy j c after o v).condition = true) :
    db.isUntroubled (seenBy k c after o v).condition = true := by
  simp only [Database.isUntroubled, List.all_eq_true, seenBy, Condition.isReadable,
    Condition.allReadable_iff, forall_mem_parts] at h ⊢
  intro r hr
  obtain ⟨⟨-, hc, haccess⟩, hafter⟩ := h r hr
  refine ⟨⟨fun e he => ?_, hc, haccess⟩, hafter⟩
  unfold ofKind at he
  cases k <;> simp [Kind.typeTag] at he <;> subst he <;> rfl

theorem isClear_ofKind (r : ObjectRecord) :
    Database.isClear (seenBy k c after o v).condition r =
      Database.isClear (seenBy j c after o v).condition r := by
  have hkind : ∀ k, Condition.someMatchesHash (ofKind k) = false := fun k => by cases k <;> rfl
  simp only [Database.isClear, seenBy, Condition.matchesHash, Condition.someMatchesHash_append,
    hkind]

theorem truth_seenBy_restricted (hk : k.isConcrete = true) (h : j.IsWithin k) (r : ObjectRecord) :
    (seenBy k c after o v).condition.truth db (db.scope r) = .yes ↔
      (seenBy j c after o v).condition.truth db (db.scope r) = .yes ∧
        k.typeTag = some r.typeTag := by
  have htag : (∀ tag, k.typeTag = some tag → r.typeTag = tag) ↔ k.typeTag = some r.typeTag := by
    rw [Kind.isConcrete_iff_typeTag, Option.isSome_iff_exists] at hk
    obtain ⟨tag, htag⟩ := hk
    simp [htag, eq_comm]
  have hwider : k.typeTag = some r.typeTag → ∀ tag, j.typeTag = some tag → r.typeTag = tag := by
    rcases h with rfl | rfl
    · intro _ tag htag
      cases htag
    · exact htag.2
  simp only [seenBy, Condition.truth_all, Condition.truthOfAll_eq_yes, forall_mem_parts,
    Database.truth_ofKind, htag]
  constructor
  · rintro ⟨⟨hkind, hrest⟩, hafter⟩
    exact ⟨⟨⟨hwider hkind, hrest⟩, hafter⟩, hkind⟩
  · rintro ⟨⟨⟨-, hrest⟩, hafter⟩, hkind⟩
    exact ⟨⟨hkind, hrest⟩, hafter⟩

end Plan

namespace Database

variable {db : Database} {v : Viewer} {o : SearchOptions} {q : Query} {j k : Kind} {c : Condition}
  {after : List Condition}

theorem finds_restricted (hk : k.isConcrete = true) (h : j.IsWithin k)
    (haccepted : Fragment.searchIsAccepted (.seenBy k c after o v) = true)
    (hu : db.isUntroubled (Plan.seenBy j c after o v).condition = true) {r : ObjectRecord}
    (hclear : isClear (Plan.seenBy j c after o v).condition r = true) (purpose : Purpose) :
    db.Finds (.seenBy k c after o v) purpose r ↔
      db.Finds (.seenBy j c after o v) purpose r ∧ k.typeTag = some r.typeTag := by
  have hu' := Plan.isUntroubled_ofKind (k := k) hu
  have htruth : (Plan.seenBy k c after o v).condition.truth db (db.scope r) = .yes ↔
      (Plan.seenBy j c after o v).condition.truth db (db.scope r) = .yes ∧
        k.typeTag = some r.typeTag := Plan.truth_seenBy_restricted hk h r
  constructor
  · intro hfinds
    obtain ⟨hyes, htag⟩ := htruth.1 (hfinds.truth hu')
    exact ⟨finds_of_truth (Plan.accepts_wider h haccepted) hu (hfinds.mem hu') hclear hyes purpose,
      htag⟩
  · rintro ⟨hfinds, htag⟩
    have hyes := htruth.2 ⟨hfinds.truth hu, htag⟩
    rw [← Plan.isClear_ofKind (k := k)] at hclear
    exact finds_of_truth haccepted hu' (hfinds.mem hu) hclear hyes purpose

theorem matching_restricted (hk : k.isConcrete = true) (h : j.IsWithin k)
    (hu : db.isUntroubled (Plan.seenBy j c after o v).condition = true)
    (hclear : ∀ r ∈ db.rows .objects, isClear (Plan.seenBy j c after o v).condition r = true)
    (purpose : Purpose) :
    ∃ os, db.matching (.seenBy j c after o v) purpose = .ok os ∧
      db.matching (.seenBy k c after o v) purpose =
        .ok (os.filter fun r => k.typeTag = some r.typeTag) := by
  have hu' := Plan.isUntroubled_ofKind (k := k) hu
  refine ⟨_, by rw [matching, matching?_of_isUntroubled hu], ?_⟩
  rw [matching, matching?_of_isUntroubled hu', List.filter_filter]
  refine congrArg Except.ok (List.filter_congr fun r hr => ?_)
  have hclear' := hclear r hr
  rw [← Plan.isClear_ofKind (k := k)] at hclear'
  rw [isMatch_of_isClear hclear', isMatch_of_isClear (hclear r hr), Bool.eq_iff_iff]
  simp only [beq_iff_eq, Bool.and_eq_true, decide_eq_true_eq]
  rw [Plan.truth_seenBy_restricted hk h, and_comm]

/-- A query that is accepted with no kind bound is accepted for a concrete kind if it ends with this
kind or with the generic one, and otherwise fails because its kinds are in conflict. It is compiled
to the same condition, and what is true of the objects of the kind stays true of them. If the
database accepts the statements for the kind and can decide the condition, the objects found for it
are those of its type that are found without it. -/
theorem restricted_search_filters (hk : k.isConcrete = true) (ho : o.kind = none) {p : Plan}
    (hp : Plan.ofQuery db.directory v o q = .ok p) :
    ((∃ p', Plan.ofQuery db.directory v { o with kind := some k } q = .ok p') ↔
      p.kind = .object ∨ p.kind = k) ∧
    (¬ (p.kind = .object ∨ p.kind = k) →
      Plan.ofQuery db.directory v { o with kind := some k } q =
        .error (.kindConflict k p.kind)) ∧
    ∀ p', Plan.ofQuery db.directory v { o with kind := some k } q = .ok p' →
      (∃ c b after, q.compile db.directory v none = .ok (c, b) ∧
        q.compile db.directory v (some k) = .ok (c, some k) ∧
        p = Plan.seenBy p.kind c after o v ∧ p' = Plan.seenBy k c after o v) ∧
      (∀ r, p'.condition.truth db (db.scope r) = .yes ↔
        p.condition.truth db (db.scope r) = .yes ∧ k.typeTag = some r.typeTag) ∧
      (Fragment.searchIsAccepted p' = true → db.isUntroubled p.condition = true →
        (∀ r, isClear p.condition r = true → ∀ purpose, db.Finds p' purpose r ↔
          db.Finds p purpose r ∧ k.typeTag = some r.typeTag) ∧
        ((∀ r ∈ db.rows .objects, isClear p.condition r = true) → ∀ purpose,
          ∃ os, db.matching p purpose = .ok os ∧
            db.matching p' purpose = .ok (os.filter fun r => k.typeTag = some r.typeTag))) := by
  obtain ⟨c, b, after, hc, hafter, rfl⟩ := Plan.ofQuery_eq_ok hp
  rw [ho] at hc
  have hbound := Query.compile_bound hk hc
  by_cases h : (b.getD .object).IsWithin k
  · rw [Kind.bind_of_isWithin hk h] at hbound
    have hp' : Plan.ofQuery db.directory v { o with kind := some k } q =
        .ok (.seenBy k c after o v) :=
      bind_eq_ok_iff.2 ⟨(c, some k), hbound, bind_eq_ok_iff.2 ⟨after, hafter, rfl⟩⟩
    refine ⟨⟨fun _ => h, fun _ => ⟨_, hp'⟩⟩, absurd h, fun p' hok => ?_⟩
    obtain rfl := Except.ok.inj (hp'.symm.trans hok)
    refine ⟨⟨c, b, after, hc, hbound, rfl, rfl⟩, Plan.truth_seenBy_restricted hk h, ?_⟩
    intro haccepted hu
    exact ⟨fun r hclear => finds_restricted hk h haccepted hu hclear, matching_restricted hk h hu⟩
  · rw [Kind.bind_of_not_isWithin hk h] at hbound
    have hp' : Plan.ofQuery db.directory v { o with kind := some k } q =
        .error (.kindConflict k (b.getD .object)) := by
      rw [Plan.ofQuery, hbound]
      rfl
    refine ⟨⟨?_, fun h' => absurd h' h⟩, fun _ => hp', fun p' hok => ?_⟩
    · rintro ⟨p', hok⟩
      rw [hp'] at hok
      cases hok
    · rw [hp'] at hok
      cases hok

/-- Of the untagged objects on the shelf the configurations are found if they are asked for. -/
theorem restricted_search_filters_shelf : ∃ p p',
    Plan.ofQuery shelf.directory member .default (.negated (.field "tag".toList (.word ['a']))) =
      .ok p ∧
    Plan.ofQuery shelf.directory member ⟨some .config, 10000, .newest, none⟩
      (.negated (.field "tag".toList (.word ['a']))) = .ok p' ∧
    (∀ r purpose, shelf.Finds p' purpose r ↔
      shelf.Finds p purpose r ∧ some "static_config".toList = some r.typeTag) ∧
    ∀ purpose, ∃ os, shelf.matching p purpose = .ok os ∧
      shelf.matching p' purpose =
        .ok (os.filter fun r => Kind.config.typeTag = some r.typeTag) := by
  have hcheck : (Plan.ofQuery shelf.directory member .default
      (.negated (.field "tag".toList (.word ['a'])))).toOption.any (fun p => p.kind == .object &&
        shelf.isUntroubled p.condition && !p.condition.matchesHash) = true := by
    decide +kernel
  have hcheck' : (Plan.ofQuery shelf.directory member ⟨some .config, 10000, .newest, none⟩
      (.negated (.field "tag".toList (.word ['a'])))).toOption.any Plan.isSmall = true := by
    decide +kernel
  obtain ⟨p, hp, hchecked⟩ := exists_ok_of_any hcheck
  obtain ⟨p'', hp'', hsmall⟩ := exists_ok_of_any hcheck'
  simp only [Bool.and_eq_true, Bool.not_eq_true', beq_iff_eq] at hchecked
  obtain ⟨⟨hkind, hu⟩, hhash⟩ := hchecked
  obtain ⟨haccepted, -, hplans⟩ := restricted_search_filters (k := .config) rfl rfl hp
  obtain ⟨p', hp'⟩ := haccepted.2 (.inl hkind)
  obtain rfl : p' = p'' := Except.ok.inj (hp'.symm.trans hp'')
  have hclear : ∀ r, isClear p.condition r = true := by
    intro r
    rw [isClear, hhash]
    rfl
  obtain ⟨-, -, hsame⟩ := hplans p' hp'
  obtain ⟨hfinds, hmatching⟩ := hsame (Fragment.searchIsAccepted_of_isSmall hsmall) hu
  exact ⟨p, p', hp, hp', fun r purpose => hfinds r (hclear r) purpose,
    hmatching fun r _ => hclear r⟩

def rackFile : ObjectRecord := ⟨1, ['p'], "file".toList, "2021-01-05 00:00:00".toList⟩

/-- The file whose hash patterns do not tell apart from others. -/
def oddRackFile : ObjectRecord := ⟨2, ['\uFFFE'], "file".toList, "2021-01-05 00:00:00".toList⟩

def rack : Database where
  rows
    | .objects =>
      [rackFile, oddRackFile, ⟨3, ['q'], "object".toList, "2021-01-04 00:00:00".toList⟩]
    | .files =>
      [⟨1, ['n'], .int 5, ['t'], ['a'], ['a'], ['a'], ['a'], ['a'], none⟩,
       ⟨2, ['n'], .int 5, ['t'], ['b'], ['b'], ['b'], ['b'], ['b'], none⟩]
    | .attributes =>
      [⟨1, 1, ['k'], ['\x7b', '"', 'a', '"', ':', '"', 'x', '"', '\x7d']⟩,
       ⟨2, 3, ['k'], "torn".toList⟩]
    | .definitions => [⟨some ['k'], [], none, .int 0⟩]
    | .rights => [⟨['k'], .int 1, .int 1, .int 0⟩]
    | .users => [⟨1, ['u']⟩]
    | .groups => [⟨1, ['g'], ['[', ']']⟩]
    | .members => [⟨1, 1⟩]
    | .permissions =>
      [⟨1, 1, "added".toList, .empty⟩, ⟨2, 1, "added".toList, .empty⟩,
       ⟨3, 1, "added".toList, .empty⟩]
    | _ => []

/-- A negation that is nested as deeply as the database takes it without a condition on the type. -/
def deepNegation : Query :=
  Nat.repeat .negated 45 (.field "dhash".toList (.word ['z']))

/-- A conjunction for which the condition on the type makes the database choose another index. -/
def evenQuery : Query :=
  .all [.field "dhash".toList
      (.fieldGroup (.all (.word ['\uFFFD', '*'] :: List.replicate 137 (.word ['*'])))),
    .field "upload_time".toList
      (.range ⟨"2021-01-02".toList, "2022-01-01".toList, true, true⟩)]

def attributeQuery : Query := .field "attribute.k.a".toList (.word ['x'])

theorem finds_of_isMatch {p : Plan} {purpose : Purpose} {r : ObjectRecord}
    (hr : r ∈ db.rows .objects)
    (h : (p.isSmall && db.isUntroubled p.condition && db.isMatch p.condition purpose r) = true) :
    db.Finds p purpose r := by
  simp only [Bool.and_eq_true] at h
  obtain ⟨⟨hsmall, hu⟩, hmatch⟩ := h
  exact ⟨Fragment.searchIsAccepted_of_isSmall hsmall, _,
    by rw [matching, matching?_of_isUntroubled hu], List.mem_filter.2 ⟨hr, hmatch⟩⟩

theorem not_finds_of_isMatch {p : Plan} {purpose : Purpose} {r : ObjectRecord}
    (h : (db.isUntroubled p.condition && !db.isMatch p.condition purpose r) = true) :
    ¬ db.Finds p purpose r := by
  simp only [Bool.and_eq_true, Bool.not_eq_true'] at h
  rintro ⟨-, os, hos, hr⟩
  rw [matching, matching?_of_isUntroubled h.1] at hos
  cases hos
  rw [(List.mem_filter.1 hr).2] at h
  cases h.2

/-- Beyond the limits of the database a search for files is not a search among files. The condition
on the type makes a statement too deep and lets an index be taken that passes over a hash, so that
files are lost; and it keeps a search that fails by a torn document from reaching this one. -/
theorem restricted_search_differs : rack.isIntact = true ∧
    (∃ p p', Plan.ofQuery rack.directory member .default deepNegation = .ok p ∧
      Plan.ofQuery rack.directory member ⟨some .file, 10000, .newest, none⟩ deepNegation = .ok p' ∧
      rack.Finds p .counting rackFile ∧ ¬ rack.Finds p' .counting rackFile) ∧
    (∃ p p', Plan.ofQuery rack.directory member .default evenQuery = .ok p ∧
      Plan.ofQuery rack.directory member ⟨some .file, 10000, .newest, none⟩ evenQuery = .ok p' ∧
      Fragment.searchIsAccepted p' = true ∧ rack.Finds p .selecting oddRackFile ∧
      ¬ rack.Finds p' .selecting oddRackFile) ∧
    ∃ p p', Plan.ofQuery rack.directory member .default attributeQuery = .ok p ∧
      Plan.ofQuery rack.directory member ⟨some .file, 10000, .newest, none⟩ attributeQuery =
        .ok p' ∧
      ¬ rack.Finds p .counting rackFile ∧ rack.Finds p' .counting rackFile := by
  have hfile : rackFile ∈ rack.rows .objects := by decide +kernel
  have hodd : oddRackFile ∈ rack.rows .objects := by decide +kernel
  refine ⟨by decide +kernel, ?_, ?_, ?_⟩
  · have hcheck : (Plan.ofQuery rack.directory member .default deepNegation).toOption.any (fun p =>
        p.isSmall && rack.isUntroubled p.condition &&
          rack.isMatch p.condition .counting rackFile) = true := by decide +kernel
    have hcheck' : (Plan.ofQuery rack.directory member ⟨some .file, 10000, .newest, none⟩
        deepNegation).toOption.any (fun p => !p.fits) = true := by decide +kernel
    obtain ⟨p, hp, hmatch⟩ := exists_ok_of_any hcheck
    obtain ⟨p', hp', hfits⟩ := exists_ok_of_any hcheck'
    refine ⟨p, p', hp, hp', finds_of_isMatch hfile hmatch, fun hfinds => ?_⟩
    rw [Fragment.fits_of_searchIsAccepted hfinds.1] at hfits
    cases hfits
  · have hcheck : (Plan.ofQuery rack.directory member .default evenQuery).toOption.any (fun p =>
        p.isSmall && rack.isUntroubled p.condition &&
          rack.isMatch p.condition .selecting oddRackFile) = true := by decide +kernel
    have hcheck' : (Plan.ofQuery rack.directory member ⟨some .file, 10000, .newest, none⟩
        evenQuery).toOption.any (fun p => p.isSmall && (rack.isUntroubled p.condition &&
          !rack.isMatch p.condition .selecting oddRackFile)) = true := by decide +kernel
    obtain ⟨p, hp, hmatch⟩ := exists_ok_of_any hcheck
    obtain ⟨p', hp', hmatch'⟩ := exists_ok_of_any hcheck'
    rw [Bool.and_eq_true] at hmatch'
    exact ⟨p, p', hp, hp', Fragment.searchIsAccepted_of_isSmall hmatch'.1,
      finds_of_isMatch hodd hmatch, not_finds_of_isMatch hmatch'.2⟩
  · have hcheck : (Plan.ofQuery rack.directory member .default attributeQuery).toOption.any
        (fun p => (rack.matching p .counting).toOption.isNone) = true := by decide +kernel
    have hcheck' : (Plan.ofQuery rack.directory member ⟨some .file, 10000, .newest, none⟩
        attributeQuery).toOption.any (fun p => p.isSmall &&
          (rack.matching p .counting).toOption.any (·.contains rackFile)) = true := by
      decide +kernel
    obtain ⟨p, hp, hnone⟩ := exists_ok_of_any hcheck
    obtain ⟨p', hp', hmatch'⟩ := exists_ok_of_any hcheck'
    rw [Bool.and_eq_true] at hmatch'
    obtain ⟨os, hos, hmem⟩ := exists_ok_of_any hmatch'.2
    refine ⟨p, p', hp, hp', ?_, Fragment.searchIsAccepted_of_isSmall hmatch'.1, os, hos,
      List.contains_iff_mem.1 hmem⟩
    rintro ⟨-, os, hos, -⟩
    rw [hos] at hnone
    cases hnone

end Database

end SampleSearch
