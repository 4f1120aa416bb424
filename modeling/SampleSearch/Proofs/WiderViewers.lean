import SampleSearch.Proofs.HiddenEntities
import SampleSearch.Proofs.Negation
import SampleSearch.Proofs.OrderlyConditions

/-!
# Viewers with more rights

A viewer who gets more groups and capabilities still gets every query compiled that was compiled
before, to the same condition of the query and with the same pivot; only the access condition
becomes weaker. What was found is still found, within the limits of the database: the wider access
may make a statement too deep for it, have it reach a document that cannot be read, or send it by
an index that passes over a hash.
-/

namespace SampleSearch

namespace Viewer

/-- Whether another viewer is the same user with all groups and capabilities of this one. -/
structure IsWithin (v w : Viewer) : Prop where
  user : v.user = w.user
  groups : ∀ id, v.isMember id = true → w.isMember id = true
  capabilities : ∀ c, v.has c = true → w.has c = true

variable {v w : Viewer}

theorem IsWithin.refl (v : Viewer) : v.IsWithin v := ⟨rfl, fun _ h => h, fun _ h => h⟩

theorem isWithin_join (v : Viewer) (g : Group) : v.IsWithin (v.join g) := by
  refine ⟨?_, fun id h => ?_, fun c h => ?_⟩
  · unfold join
    split <;> rfl
  · rw [isMember_join, h, Bool.true_or]
  · rw [has_join, h]

theorem isWithin_grant (v : Viewer) (c : Capability) : v.IsWithin (v.grant c) := by
  refine ⟨?_, fun id h => ?_, fun d h => ?_⟩
  · unfold grant
    split <;> rfl
  · unfold grant
    split <;> exact h
  · rw [has_grant, h, Bool.true_or]

theorem IsWithin.truth_access (h : v.IsWithin w) {db : Database} {r : ObjectRecord}
    (htruth : v.access.truth db (db.scope r) = .yes) : w.access.truth db (db.scope r) = .yes := by
  rw [truth_access_eq_yes (db.scope_objectId r)] at htruth ⊢
  rcases htruth with hall | ⟨p, hp, howner, hmember⟩
  · exact .inl (h.capabilities _ hall)
  · exact .inr ⟨p, hp, howner, h.groups _ hmember⟩

end Viewer

theorem AttributeDefinition.readableBy_mono {v w : Viewer} (h : v.IsWithin w)
    {a : AttributeDefinition} (ha : a.readableBy v = true) : a.readableBy w = true := by
  rw [readableBy, Bool.or_eq_true, List.any_eq_true] at ha ⊢
  refine ha.imp (h.capabilities _) fun ⟨p, hp, hreads⟩ => ⟨p, hp, ?_⟩
  rw [Bool.and_eq_true] at hreads ⊢
  exact ⟨hreads.1, h.groups _ hreads.2⟩

namespace Leaf

variable {d : Directory} {v w : Viewer}

theorem keyedCondition_mono (h : v.IsWithin w) {path : Text} {residual : List Text} {leaf : Leaf}
    {e : Condition} (he : keyedCondition d v path residual leaf = .ok e) :
    keyedCondition d w path residual leaf = .ok e := by
  cases leaf with
  | range r => cases he
  | term value =>
    cases residual with
    | nil => cases he
    | cons segment rest =>
      rw [keyedCondition_term] at he ⊢
      obtain ⟨hidden, hflag, he⟩ := bind_eq_ok_iff.1 he
      obtain ⟨a, ha, hread, hhidden⟩ := readFlag_eq_ok_iff.1 hflag
      have hreads : d.Reads w (Text.unescape segment) hidden :=
        ⟨a, ha, AttributeDefinition.readableBy_mono h hread, hhidden⟩
      rw [readFlag_eq_ok_iff.2 hreads]
      exact he

theorem sharedWithCondition_mono (h : v.IsWithin w) {path : Text} {leaf : Leaf} {e : Condition}
    (he : sharedWithCondition d v path leaf = .ok e) :
    sharedWithCondition d w path leaf = .ok e := by
  obtain ⟨name, hname, he⟩ := bind_eq_ok_iff.1 he
  obtain ⟨g, hg, he⟩ := bind_eq_ok_iff.1 he
  refine bind_eq_ok_iff.2 ⟨name, hname, bind_eq_ok_iff.2 ⟨g, hg, ?_⟩⟩
  split at he
  · rename_i hknown
    rw [if_pos]
    · exact he
    · rw [Bool.or_eq_true] at hknown ⊢
      exact hknown.imp (h.capabilities _) (h.groups _)
  · cases he

theorem uploadedByCondition_mono (h : v.IsWithin w) {path : Text} {leaf : Leaf} {e : Condition}
    (he : uploadedByCondition d v path leaf = .ok e) :
    uploadedByCondition d w path leaf = .ok e := by
  obtain ⟨login, hlogin, he⟩ := bind_eq_ok_iff.1 he
  refine bind_eq_ok_iff.2 ⟨login, hlogin, ?_⟩
  split at he
  · rename_i hknown
    rw [if_pos]
    · exact he
    · rw [Viewer.login, ← h.user]
      rw [Bool.or_eq_true] at hknown ⊢
      exact hknown.imp_left (h.capabilities _)
  · cases he

theorem condition_mono (h : v.IsWithin w) {f : ResolvedField} {leaf : Leaf} {e : Condition}
    (he : leaf.condition d v f = .ok e) : leaf.condition d w f = .ok e := by
  obtain ⟨path, kind, strategy, residual⟩ := f
  cases strategy with
  | text c => cases leaf <;> exact he
  | integer c => cases leaf <;> exact he
  | moment c => cases leaf <;> exact he
  | related r c => cases leaf <;> exact he
  | document c => cases leaf <;> exact he
  | keyed =>
    have hv : keyedCondition d v path residual leaf = .ok e := by cases leaf <;> exact he
    have hw := keyedCondition_mono h hv
    cases leaf <;> exact hw
  | sharedWith => cases leaf <;> exact sharedWithCondition_mono h he
  | uploadedBy => cases leaf <;> exact uploadedByCondition_mono h he

end Leaf

namespace Query

variable {d : Directory} {v w : Viewer}

theorem leafCondition_mono (h : v.IsWithin w) {field : Option ResolvedField} {leaf : Leaf}
    {e : Condition} (he : leafCondition d v field leaf = .ok e) :
    leafCondition d w field leaf = .ok e := by
  cases field with
  | none => cases he
  | some f => exact Leaf.condition_mono h he

mutual

/-- Whatever is compiled for a viewer is compiled to the same condition for a wider one. -/
theorem compileIn_mono (h : v.IsWithin w) {field : Option ResolvedField} {b : Binding} {q : Query}
    {r : Condition × Binding} (hr : compileIn d v field b q = .ok r) :
    compileIn d w field b q = .ok r := by
  cases q with
  | all parts =>
    obtain ⟨cs, hcs, hr⟩ := bind_eq_ok_iff.1 hr
    exact bind_eq_ok_iff.2 ⟨cs, compileParts_mono h hcs, hr⟩
  | any parts =>
    obtain ⟨cs, hcs, hr⟩ := bind_eq_ok_iff.1 hr
    exact bind_eq_ok_iff.2 ⟨cs, compileParts_mono h hcs, hr⟩
  | negated q =>
    obtain ⟨c, hc, hr⟩ := bind_eq_ok_iff.1 hr
    exact bind_eq_ok_iff.2 ⟨c, compileIn_mono h hc, hr⟩
  | prohibited q =>
    obtain ⟨c, hc, hr⟩ := bind_eq_ok_iff.1 hr
    exact bind_eq_ok_iff.2 ⟨c, compileIn_mono h hc, hr⟩
  | group q => exact compileIn_mono h (q := q) hr
  | fieldGroup q => exact compileIn_mono h (q := q) hr
  | field name q =>
    obtain ⟨f, hf, hr⟩ := bind_eq_ok_iff.1 hr
    obtain ⟨b', hb, hr⟩ := bind_eq_ok_iff.1 hr
    exact bind_eq_ok_iff.2 ⟨f, hf, bind_eq_ok_iff.2 ⟨b', hb, compileIn_mono h hr⟩⟩
  | word value =>
    obtain ⟨e, he, hr⟩ := bind_eq_ok_iff.1 hr
    exact bind_eq_ok_iff.2 ⟨e, leafCondition_mono h he, hr⟩
  | phrase content =>
    obtain ⟨e, he, hr⟩ := bind_eq_ok_iff.1 hr
    exact bind_eq_ok_iff.2 ⟨e, leafCondition_mono h he, hr⟩
  | range range =>
    obtain ⟨e, he, hr⟩ := bind_eq_ok_iff.1 hr
    exact bind_eq_ok_iff.2 ⟨e, leafCondition_mono h he, hr⟩
  | required q => cases hr
  | fuzzy value degree => cases hr
  | proximity content degree => cases hr
  | boost q force => cases hr
  | regex pattern => cases hr

theorem compileParts_mono (h : v.IsWithin w) {field : Option ResolvedField} {b : Binding}
    {qs : List Query} {r : List Condition × Binding} (hr : compileParts d v field b qs = .ok r) :
    compileParts d w field b qs = .ok r := by
  cases qs with
  | nil => exact hr
  | cons q qs =>
    obtain ⟨c, hc, hr⟩ := bind_eq_ok_iff.1 hr
    obtain ⟨cs, hcs, hr⟩ := bind_eq_ok_iff.1 hr
    exact bind_eq_ok_iff.2
      ⟨c, compileIn_mono h hc, bind_eq_ok_iff.2 ⟨cs, compileParts_mono h hcs, hr⟩⟩

end

end Query

namespace Plan

/-- The plan of a search by a viewer, as far as it depends on the viewer. -/
def seenBy (k : Kind) (c : Condition) (after : List Condition) (o : SearchOptions) (v : Viewer) :
    Plan :=
  ⟨k, .all (ofKind k ++ [c, v.access] ++ after), o.sort, o.effectiveLimit⟩

variable {db : Database} {v w : Viewer} {k : Kind} {c : Condition} {after : List Condition}
  {o : SearchOptions}

theorem isUntroubled_seenBy (h : db.isUntroubled (seenBy k c after o w).condition = true) :
    db.isUntroubled (seenBy k c after o v).condition = true := by
  simp only [Database.isUntroubled, List.all_eq_true, seenBy, Condition.isReadable,
    Condition.allReadable_iff, forall_mem_parts] at h ⊢
  intro r hr
  obtain ⟨⟨hkind, hc, -⟩, hafter⟩ := h r hr
  exact ⟨⟨hkind, hc, v.isReadable_access db _⟩, hafter⟩

theorem truth_seenBy_mono (h : v.IsWithin w) {r : ObjectRecord}
    (htruth : (seenBy k c after o v).condition.truth db (db.scope r) = .yes) :
    (seenBy k c after o w).condition.truth db (db.scope r) = .yes := by
  simp only [seenBy, Condition.truth, Condition.truthOfAll_eq_yes, forall_mem_parts] at htruth ⊢
  obtain ⟨⟨hkind, hc, haccess⟩, hafter⟩ := htruth
  exact ⟨⟨hkind, hc, h.truth_access haccess⟩, hafter⟩

end Plan

namespace Database

variable {db : Database} {v w : Viewer} {o : SearchOptions} {q : Query}

theorem position?_mono (hi : db.isIntact = true) (h : v.IsWithin w) {dhash : Text} {p : Position}
    (hp : db.position? dhash v = .ok (some p)) : db.position? dhash w = .ok (some p) := by
  rw [position?_eq_ok hi] at hp ⊢
  obtain ⟨r, hr, hhash, haccess, hrest⟩ := hp
  exact ⟨r, hr, hhash, h.truth_access haccess, hrest⟩

theorem afterObject_mono (hi : db.isIntact = true) (h : v.IsWithin w) {sort : SortOrder}
    {dhash : Option Text} {after : List Condition}
    (hafter : Plan.afterObject db.directory v sort dhash = .ok after) :
    Plan.afterObject db.directory w sort dhash = .ok after := by
  cases dhash with
  | none => exact hafter
  | some t =>
    obtain ⟨p, hp, hafter⟩ := bind_eq_ok_iff.1 hafter
    have hfound := position?_mono hi h (Leaf.required_eq_ok.1 hp)
    exact bind_eq_ok_iff.2 ⟨p, Leaf.required_eq_ok.2 hfound, hafter⟩

theorem count_of_isUntroubled {p : Plan} (h : db.isUntroubled p.condition = true) :
    db.count p = .ok ((db.rows .objects).countP (db.isMatch p.condition .counting)) := by
  rw [count, matching, matching?_of_isUntroubled h, List.countP_eq_length_filter]
  rfl

/-- A plan that is clear about an object matches it by its truth alone. -/
theorem isMatch_of_isClear {c : Condition} {r : ObjectRecord} (h : isClear c r = true)
    (purpose : Purpose) : db.isMatch c purpose r = (c.truth db (db.scope r) == .yes) := by
  rw [isMatch, h, Bool.true_or, Bool.and_true]

theorem Finds.mem {p : Plan} (hu : db.isUntroubled p.condition = true) {purpose : Purpose}
    {r : ObjectRecord} (h : db.Finds p purpose r) : r ∈ db.rows .objects := by
  obtain ⟨-, os, hos, hr⟩ := h
  rw [matching, matching?_of_isUntroubled hu] at hos
  cases hos
  exact (List.mem_filter.1 hr).1

variable {k : Kind} {c : Condition} {after : List Condition}

theorem finds_mono (h : v.IsWithin w)
    (haccepted : Fragment.searchIsAccepted (.seenBy k c after o w) = true)
    (hu : db.isUntroubled (Plan.seenBy k c after o w).condition = true) {r : ObjectRecord}
    (hclear : isClear (Plan.seenBy k c after o w).condition r = true) {purpose : Purpose}
    (hfinds : db.Finds (.seenBy k c after o v) purpose r) :
    db.Finds (.seenBy k c after o w) purpose r := by
  have hu' := Plan.isUntroubled_seenBy (v := v) hu
  have htruth := Plan.truth_seenBy_mono h (hfinds.truth hu')
  exact finds_of_truth haccepted hu (hfinds.mem hu') hclear htruth purpose

theorem count_mono (h : v.IsWithin w)
    (hu : db.isUntroubled (Plan.seenBy k c after o w).condition = true)
    (hclear : ∀ r ∈ db.rows .objects, isClear (Plan.seenBy k c after o w).condition r = true)
    {n : Nat} (hn : db.count (.seenBy k c after o v) = .ok n) :
    ∃ n', db.count (.seenBy k c after o w) = .ok n' ∧ n ≤ n' := by
  have hcount := count_of_isUntroubled (Plan.isUntroubled_seenBy (v := v) hu)
  obtain rfl := Except.ok.inj (hcount.symm.trans hn)
  refine ⟨_, count_of_isUntroubled hu, List.countP_mono_left fun r hr hmatch => ?_⟩
  rw [isMatch_of_isClear (hclear r hr), beq_iff_eq]
  rw [isMatch, Bool.and_eq_true, beq_iff_eq] at hmatch
  exact Plan.truth_seenBy_mono h hmatch.1

/-- Whatever is compiled for a viewer is compiled for one with more groups and capabilities, for the
same kind, order and limit and with the same condition of the query and the same pivot. If the
database accepts the statements for that one and can decide the condition, it finds all that it
found before, and counts no less. -/
theorem wider_viewer_finds_more (hi : db.isIntact = true) (h : v.IsWithin w) {p : Plan}
    (hp : Plan.ofQuery db.directory v o q = .ok p) :
    ∃ p' k c b after, Plan.ofQuery db.directory w o q = .ok p' ∧
      q.compile db.directory v o.kind = .ok (c, b) ∧ q.compile db.directory w o.kind = .ok (c, b) ∧
      Plan.afterObject db.directory v o.sort o.olderThan = .ok after ∧
      Plan.afterObject db.directory w o.sort o.olderThan = .ok after ∧
      p = Plan.seenBy k c after o v ∧ p' = Plan.seenBy k c after o w ∧
      (Fragment.searchIsAccepted p' = true → db.isUntroubled p'.condition = true →
        (∀ r, isClear p'.condition r = true → ∀ purpose, db.Finds p purpose r →
          db.Finds p' purpose r) ∧
        ((∀ r ∈ db.rows .objects, isClear p'.condition r = true) → ∀ n, db.count p = .ok n →
          ∃ n', db.count p' = .ok n' ∧ n ≤ n')) := by
  obtain ⟨c, b, after, hc, hafter, rfl⟩ := Plan.ofQuery_eq_ok hp
  have hc' : q.compile db.directory w o.kind = .ok (c, b) := Query.compileIn_mono h hc
  have hafter' := afterObject_mono hi h hafter
  have hp' : Plan.ofQuery db.directory w o q = .ok (.seenBy (b.getD .object) c after o w) :=
    bind_eq_ok_iff.2 ⟨(c, b), hc', bind_eq_ok_iff.2 ⟨after, hafter', rfl⟩⟩
  refine ⟨_, b.getD .object, c, b, after, hp', hc, hc', hafter, hafter', rfl, rfl, ?_⟩
  intro haccepted hu
  exact ⟨fun r hclear purpose hfinds => finds_mono h haccepted hu hclear hfinds,
    fun hclear n hn => count_mono h hu hclear hn⟩

def newcomer : Viewer := .ofUser ⟨1, ['u']⟩

def member : Viewer := newcomer.join ⟨1, ['g']⟩

def overseer : Viewer := member.grant .accessAllObjects

theorem isWithin_overseer : member.IsWithin overseer := member.isWithin_grant _

/-- The overseer finds all untagged objects behind the pivot that a member finds. -/
theorem wider_viewer_finds_more_shelf : ∃ p p' n n',
    Plan.ofQuery shelf.directory member ⟨none, 10000, .oldest, some ['p']⟩
      (.negated (.field "tag".toList (.word ['a']))) = .ok p ∧
    Plan.ofQuery shelf.directory overseer ⟨none, 10000, .oldest, some ['p']⟩
      (.negated (.field "tag".toList (.word ['a']))) = .ok p' ∧
    (∀ r purpose, shelf.Finds p purpose r → shelf.Finds p' purpose r) ∧
    shelf.count p = .ok n ∧ shelf.count p' = .ok n' ∧ n ≤ n' := by
  have hcheck : (Plan.ofQuery shelf.directory member ⟨none, 10000, .oldest, some ['p']⟩
      (.negated (.field "tag".toList (.word ['a'])))).toOption.any (fun p =>
        (shelf.count p).toOption.isSome) = true := by decide +kernel
  have hcheck' : (Plan.ofQuery shelf.directory overseer ⟨none, 10000, .oldest, some ['p']⟩
      (.negated (.field "tag".toList (.word ['a'])))).toOption.any (fun p =>
        p.isSmall && shelf.isUntroubled p.condition && !p.condition.matchesHash) = true := by
    decide +kernel
  obtain ⟨p, hp, hcounted⟩ := exists_ok_of_any hcheck
  obtain ⟨n, hn⟩ := exists_ok_of_isSome hcounted
  obtain ⟨p'', hp'', hchecked⟩ := exists_ok_of_any hcheck'
  simp only [Bool.and_eq_true, Bool.not_eq_true'] at hchecked
  obtain ⟨⟨hsmall, hu⟩, hhash⟩ := hchecked
  obtain ⟨p', k, c, b, after, hp', -, -, -, -, -, -, hmore⟩ :=
    wider_viewer_finds_more (by decide +kernel) isWithin_overseer hp
  obtain rfl : p' = p'' := Except.ok.inj (hp'.symm.trans hp'')
  have hclear : ∀ r, isClear p'.condition r = true := by
    intro r
    rw [isClear, hhash]
    rfl
  obtain ⟨hfinds, hcounts⟩ := hmore (Fragment.searchIsAccepted_of_isSmall hsmall) hu
  obtain ⟨n', hn', hle⟩ := hcounts (fun r _ => hclear r) n hn
  exact ⟨p, p', n, n', hp, hp', fun r purpose => hfinds r (hclear r) purpose, hn, hn', hle⟩

/-- The shelf with a document that cannot be read. -/
def tornShelf : Database := shelf.replace .configs [⟨1, ['f'], ['t'], "torn".toList⟩]

def tornQuery : Query := .field "static.cfg.a".toList (.word ['x'])

/-- A conjunction that is as long as the database takes it without a part on related rows. -/
def deepQuery : Query :=
  .field "upload_time".toList
    (.fieldGroup (.all (List.replicate 993 (.range ⟨['*'], ['*'], true, true⟩))))

/-- A conjunction for which a few rows more or less, by the estimates of the database, make it
choose between the index of hashes and that of times. -/
def broadQuery : Query :=
  .all [.field "dhash".toList
      (.fieldGroup (.all (.word ['\uFFFD', '*'] :: List.replicate 139 (.word ['*'])))),
    .field "upload_time".toList
      (.range ⟨"2021-01-02".toList, "2022-01-01".toList, true, true⟩)]

/-- The object whose hash patterns do not tell apart from others. -/
def oddObject : ObjectRecord := ⟨2, ['\uFFFE'], "object".toList, "2021-01-05 00:00:00".toList⟩

/-- Beyond the limits of the database a viewer may lose by more rights. A search that was answered
because nothing was visible reaches a torn document or is nested too deeply with the condition on
groups in it, and without that condition another index is chosen, which passes over a hash. -/
theorem wider_viewer_finds_less : shelf.isIntact = true ∧ tornShelf.isIntact = true ∧
    newcomer.IsWithin member ∧ member.IsWithin overseer ∧
    (∃ p p', Plan.ofQuery tornShelf.directory newcomer .default tornQuery = .ok p ∧
      Plan.ofQuery tornShelf.directory member .default tornQuery = .ok p' ∧
      tornShelf.count p = .ok 0 ∧ ∀ n, tornShelf.count p' ≠ .ok n) ∧
    (∃ p p', Plan.ofQuery shelf.directory newcomer .default deepQuery = .ok p ∧
      Plan.ofQuery shelf.directory member .default deepQuery = .ok p' ∧
      p.fits = true ∧ ¬ Fragment.searchIsAccepted p' = true) ∧
    ∃ p p', Plan.ofQuery shelf.directory member .default broadQuery = .ok p ∧
      Plan.ofQuery shelf.directory overseer .default broadQuery = .ok p' ∧
      oddObject ∈ shelf.rows .objects ∧ shelf.Finds p .selecting oddObject ∧
      Fragment.searchIsAccepted p' = true ∧ ¬ shelf.Finds p' .selecting oddObject := by
  refine ⟨by decide +kernel, by decide +kernel, newcomer.isWithin_join _, isWithin_overseer,
    ?_, ?_, ?_⟩
  · have hcheck : (Plan.ofQuery tornShelf.directory newcomer .default tornQuery).toOption.any
        (fun p => (tornShelf.count p).toOption == some 0) = true := by decide +kernel
    have hcheck' : (Plan.ofQuery tornShelf.directory member .default tornQuery).toOption.any
        (fun p => (tornShelf.count p).toOption.isNone) = true := by decide +kernel
    obtain ⟨p, hp, hcount⟩ := exists_ok_of_any hcheck
    obtain ⟨p', hp', hcount'⟩ := exists_ok_of_any hcheck'
    refine ⟨p, p', hp, hp', eq_ok_of_toOption (beq_iff_eq.1 hcount), fun n hn => ?_⟩
    rw [hn] at hcount'
    cases hcount'
  · have hcheck : (Plan.ofQuery shelf.directory newcomer .default deepQuery).toOption.any
        Plan.fits = true := by decide +kernel
    have hcheck' : (Plan.ofQuery shelf.directory member .default deepQuery).toOption.any
        (fun p => !p.fits) = true := by decide +kernel
    obtain ⟨p, hp, hfits⟩ := exists_ok_of_any hcheck
    obtain ⟨p', hp', hfits'⟩ := exists_ok_of_any hcheck'
    refine ⟨p, p', hp, hp', hfits, fun haccepted => ?_⟩
    rw [Fragment.fits_of_searchIsAccepted haccepted] at hfits'
    cases hfits'
  · have hcheck : (Plan.ofQuery shelf.directory member .default broadQuery).toOption.any
        (fun p => p.isSmall && shelf.isUntroubled p.condition &&
          shelf.isMatch p.condition .selecting oddObject) = true := by decide +kernel
    have hcheck' : (Plan.ofQuery shelf.directory overseer .default broadQuery).toOption.any
        (fun p => p.isSmall && shelf.isUntroubled p.condition &&
          !shelf.isMatch p.condition .selecting oddObject) = true := by decide +kernel
    obtain ⟨p, hp, hchecked⟩ := exists_ok_of_any hcheck
    obtain ⟨p', hp', hchecked'⟩ := exists_ok_of_any hcheck'
    simp only [Bool.and_eq_true, Bool.not_eq_true'] at hchecked hchecked'
    obtain ⟨⟨hsmall, hu⟩, hmatch⟩ := hchecked
    obtain ⟨⟨hsmall', hu'⟩, hmatch'⟩ := hchecked'
    have hmem : oddObject ∈ shelf.rows .objects := by decide +kernel
    refine ⟨p, p', hp, hp', hmem, ⟨Fragment.searchIsAccepted_of_isSmall hsmall, _,
      by rw [matching, matching?_of_isUntroubled hu], List.mem_filter.2 ⟨hmem, hmatch⟩⟩,
      Fragment.searchIsAccepted_of_isSmall hsmall', ?_⟩
    rintro ⟨-, os, hos, hr⟩
    rw [matching, matching?_of_isUntroubled hu'] at hos
    cases hos
    rw [(List.mem_filter.1 hr).2] at hmatch'
    cases hmatch'

end Database

end SampleSearch
