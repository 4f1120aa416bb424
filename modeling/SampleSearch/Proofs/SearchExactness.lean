import SampleSearch.Proofs.QueryMeaning
import SampleSearch.Proofs.Readability
import SampleSearch.Proofs.StatementLimits
import SampleSearch.Proofs.StrictDocuments
import SampleSearch.Proofs.UploadOrder
import SampleSearch.Proofs.Visibility

/-!
# What a search answers

An object is wanted by a search if the user sees it, it is of the bound kind, it stands behind the
pivot and the query is true of it. Within the limits of the database, the answer to a search holds
the first wanted objects in the order of upload and counts all of them.
-/

namespace SampleSearch

theorem mapM_congr {ε α β : Type} {f g : α → Except ε β} {as : List α}
    (h : ∀ a ∈ as, f a = g a) : as.mapM f = as.mapM g := by
  induction as with
  | nil => rfl
  | cons a as ih =>
    rw [List.mapM_cons, List.mapM_cons, h a (by simp),
      ih fun b hb => h b (List.mem_cons_of_mem a hb)]

theorem mapM_eq_ok {ε α β : Type} {f : α → Except ε β} {as : List α}
    (h : ∀ a ∈ as, ∃ b, f a = .ok b) : ∃ bs, as.mapM f = .ok bs ∧ as.map f = bs.map .ok := by
  induction as with
  | nil => exact ⟨[], rfl, rfl⟩
  | cons a as ih =>
    obtain ⟨b, hb⟩ := h a (by simp)
    obtain ⟨bs, hbs, hmap⟩ := ih fun c hc => h c (List.mem_cons_of_mem a hc)
    refine ⟨b :: bs, ?_, ?_⟩
    · rw [List.mapM_cons, hb, hbs]
      rfl
    · rw [List.map_cons, List.map_cons, hb, hmap]

namespace Database

/-- Whether an object is wanted by a search for a query. -/
structure Wants (db : Database) (login : Text) (o : SearchOptions) (q : Query)
    (r : ObjectRecord) : Prop where
  visible : db.Sees login r
  ofKind : ∀ tag, ((q.boundAfter o.kind).getD .object).typeTag = some tag → r.typeTag = tag
  /-- The time of the pivot counts in the form in which it is printed. -/
  behind : ∀ dhash, o.olderThan = some dhash →
    ∃ pivot ∈ db.rows .objects, pivot.dhash = dhash ∧ db.Sees login pivot ∧
      ∃ m, Moment.stored? pivot.uploadTime = some m ∧ o.sort.IsBehind m.text pivot.id r
  holds : q.truthOn db r none o.kind = .yes

/-- Whether a search for objects of a kind concerns an object, whatever is searched for. -/
structure Concerns (db : Database) (login : Text) (o : SearchOptions) (k : Kind)
    (r : ObjectRecord) : Prop where
  visible : db.Sees login r
  ofKind : ∀ tag, k.typeTag = some tag → r.typeTag = tag
  /-- The time of the pivot counts in the form in which it is printed. -/
  behind : ∀ dhash, o.olderThan = some dhash →
    ∃ pivot ∈ db.rows .objects, pivot.dhash = dhash ∧ db.Sees login pivot ∧
      ∃ m, Moment.stored? pivot.uploadTime = some m ∧ o.sort.IsBehind m.text pivot.id r

structure IsResult (db : Database) (login : Text) (o : SearchOptions) (q : Query)
    (os : List ObjectRecord) : Prop where
  mem : ∀ r, r ∈ os ↔ r ∈ db.rows .objects ∧ db.Wants login o q r
  ordered : os.Pairwise o.sort.Precedes

/-- Whether nothing keeps the database from searching by a plan: its statements are accepted, its
condition can be decided for every object, and no pattern is at a loss with the hash of one. -/
structure Supports (db : Database) (p : Plan) : Prop where
  accepted : Fragment.searchIsAccepted p = true
  untroubled : db.isUntroubled p.condition = true
  clear : ∀ r ∈ db.rows .objects, isClear p.condition r = true

/-- Whether a plan is within the limits of the database, whatever the documents in it: those are
the limits of statements, those of patterns and paths, and those of patterns for hashes. -/
structure Admits (db : Database) (p : Plan) : Prop where
  accepted : Fragment.searchIsAccepted p = true
  modest : p.condition.isModest = true
  clear : ∀ r ∈ db.rows .objects, isClear p.condition r = true

variable {db : Database} {login text : Text} {o : SearchOptions} {q : Query}

theorem IsResult.unique {os ps : List ObjectRecord} (ho : db.IsResult login o q os)
    (hp : db.IsResult login o q ps) : os = ps := by
  apply SortOrder.eq_of_pairwise_precedes ho.ordered hp.ordered
  intro r
  rw [ho.mem, hp.mem]

theorem plan_eq_ok {p : Plan} (h : db.plan login o text = .ok p) :
    ∃ v, db.viewer login = .ok v ∧ Plan.compile db.directory v o text = .ok p := by
  obtain ⟨v, hv, h⟩ := bind_eq_ok_iff.1 h
  exact ⟨v, hv, h⟩

theorem truth_positionCondition {v : Viewer} {dhash : Text} {r : ObjectRecord} :
    (positionCondition dhash v).truth db (db.scope r) = .yes ↔
      r.dhash = dhash ∧ v.access.truth db (db.scope r) = .yes := by
  rw [positionCondition, Condition.truth_all, Condition.truthOfAll_eq_yes]
  simp only [List.mem_cons, List.not_mem_nil, or_false, forall_eq_or_imp, forall_eq,
    Condition.equals, Condition.truth_compare]
  refine and_congr_left fun _ => ?_
  change (Cell.text r.dhash).stands .eq (.text dhash) = .yes ↔ _
  rw [Cell.stands_eq_yes, Cell.compare?_text, Option.some.injEq, Cell.compareTexts_eq_iff]

theorem mem_satisfying {c : Condition} {r : ObjectRecord} :
    r ∈ db.satisfying c ↔ r ∈ db.rows .objects ∧ c.truth db (db.scope r) = .yes := by
  rw [satisfying, List.mem_filter, beq_iff_eq]

theorem moment_eq_ok {t : Text} {m : Moment} : moment t = .ok m ↔ Moment.stored? t = some m := by
  unfold moment
  cases Moment.stored? t with
  | none => simp [storageFailure]
  | some n => simp

/-- A position is found exactly for an object with the hash that the viewer sees, if the time of
the object can be read. -/
theorem position?_eq_ok (hi : db.isIntact = true) {v : Viewer} {dhash : Text} {p : Position} :
    db.position? dhash v = .ok (some p) ↔
      ∃ r ∈ db.rows .objects, r.dhash = dhash ∧ v.access.truth db (db.scope r) = .yes ∧
        Moment.stored? r.uploadTime = some p.uploadTime ∧ r.id = p.id := by
  unfold position?
  cases hs : db.satisfying (positionCondition dhash v) with
  | nil =>
    simp only [Except.ok.injEq, reduceCtorEq, false_iff]
    rintro ⟨r, hr, hhash, haccess, _⟩
    have hmem := mem_satisfying.2 ⟨hr, truth_positionCondition.2 ⟨hhash, haccess⟩⟩
    rw [hs] at hmem
    simp at hmem
  | cons r rest =>
    have hr : r ∈ db.satisfying (positionCondition dhash v) := by
      rw [hs]
      simp
    obtain ⟨hmem, htruth⟩ := mem_satisfying.1 hr
    obtain ⟨hhash, haccess⟩ := truth_positionCondition.1 htruth
    constructor
    · intro h
      obtain ⟨m, hm, h⟩ := bind_eq_ok_iff.1 h
      cases h
      exact ⟨r, hmem, hhash, haccess, moment_eq_ok.1 hm, rfl⟩
    · rintro ⟨s, hs', hhash', _, htime, hid⟩
      have hsame : r = s := object_eq_of_dhash hi hmem hs' (hhash.trans hhash'.symm)
      subst hsame
      exact bind_eq_ok_iff.2 ⟨p.uploadTime, moment_eq_ok.2 htime, by rw [hid]⟩

theorem truth_ofKind (k : Kind) (r : ObjectRecord) :
    (∀ c ∈ Plan.ofKind k, c.truth db (db.scope r) = .yes) ↔
      ∀ tag, k.typeTag = some tag → r.typeTag = tag := by
  have heq : ∀ tag, (Condition.equals (.column .objectType) (.text tag)).truth db (db.scope r) =
      .yes ↔ r.typeTag = tag := by
    intro tag
    rw [Condition.equals, Condition.truth_compare]
    change (Cell.text r.typeTag).stands .eq (.text tag) = .yes ↔ _
    rw [Cell.stands_eq_yes, Cell.compare?_text, Option.some.injEq, Cell.compareTexts_eq_iff]
  unfold Plan.ofKind
  cases k.typeTag with
  | none => simp
  | some tag => simp [heq]

theorem truth_after_iff (hi : db.isIntact = true) {v : Viewer} (hv : db.viewer login = .ok v)
    {after : List Condition}
    (hafter : Plan.afterObject db.directory v o.sort o.olderThan = .ok after) (r : ObjectRecord) :
    (∀ e ∈ after, e.truth db (db.scope r) = .yes) ↔
      ∀ dhash, o.olderThan = some dhash →
        ∃ pivot ∈ db.rows .objects, pivot.dhash = dhash ∧ db.Sees login pivot ∧
          ∃ m, Moment.stored? pivot.uploadTime = some m ∧ o.sort.IsBehind m.text pivot.id r := by
  rcases Plan.afterObject_eq_ok hafter with ⟨hnone, rfl⟩ | ⟨dhash, pos, hsome, hpos, rfl⟩
  · simp [hnone]
  · obtain ⟨pivot, hpivot, hhash, haccess, htime, hid⟩ := (position?_eq_ok hi).1 hpos
    have hseen := (truth_access_iff_sees hi hv pivot).1 haccess
    simp only [List.mem_singleton, forall_eq, Plan.truth_afterPosition, hsome,
      Option.some.injEq, forall_eq']
    constructor
    · intro h
      refine ⟨pivot, hpivot, hhash, hseen, pos.uploadTime, htime, ?_⟩
      rw [hid]
      exact h
    · rintro ⟨other, hother, hhash', _, m, htime', h⟩
      have hsame : other = pivot := object_eq_of_dhash hi hother hpivot (hhash'.trans hhash.symm)
      subst hsame
      obtain rfl : m = pos.uploadTime := Option.some.inj (htime'.symm.trans htime)
      rw [← hid]
      exact h

/-- The condition of a plan is true of the objects that the search concerns and of which the
condition of its query is true. -/
theorem truth_parts_iff (hi : db.isIntact = true) {v : Viewer} (hv : db.viewer login = .ok v)
    {after : List Condition}
    (hafter : Plan.afterObject db.directory v o.sort o.olderThan = .ok after) {k : Kind}
    {c : Condition} {r : ObjectRecord} :
    (Condition.all (Plan.ofKind k ++ [c, v.access] ++ after)).truth db (db.scope r) = .yes ↔
      db.Concerns login o k r ∧ c.truth db (db.scope r) = .yes := by
  have hsees : v.access.truth db (db.scope r) = .yes ↔ db.Sees login r :=
    truth_access_iff_sees hi hv r
  have hbehind := truth_after_iff hi hv hafter r
  rw [Condition.truth_all, Condition.truthOfAll_eq_yes, Plan.forall_mem_parts, truth_ofKind,
    hsees, hbehind]
  constructor
  · rintro ⟨⟨hkind, hholds, hvisible⟩, hafter⟩
    exact ⟨⟨hvisible, hkind, hafter⟩, hholds⟩
  · rintro ⟨⟨hvisible, hkind, hafter⟩, hholds⟩
    exact ⟨⟨hkind, hholds, hvisible⟩, hafter⟩

theorem truth_plan_iff_wants (hi : db.isIntact = true) (hq : Query.parse text = .ok q) {p : Plan}
    (hp : db.plan login o text = .ok p) {r : ObjectRecord}
    (hr : p.condition.isReadable db (db.scope r) = true) :
    p.condition.truth db (db.scope r) = .yes ↔ db.Wants login o q r := by
  obtain ⟨v, hv, hcompile⟩ := plan_eq_ok hp
  obtain ⟨q', c, b, after, hq', hc, hafter, rfl⟩ := Plan.compile_eq_ok hcompile
  obtain rfl : q = q' := Except.ok.inj (hq.symm.trans hq')
  obtain rfl : b = q.boundAfter o.kind := Query.eq_boundAfter_of_compileIn hc
  have hread : c.isReadable db (db.scope r) = true := by
    rw [Condition.isReadable, Condition.allReadable_iff] at hr
    exact hr c (by simp)
  have htruth : c.truth db (db.scope r) = q.truthOn db r none o.kind :=
    Query.truth_eq_truthOn (by simp) hc hread
  rw [truth_parts_iff hi hv hafter, htruth]
  constructor
  · rintro ⟨⟨hvisible, hkind, hafter⟩, hholds⟩
    exact ⟨hvisible, hkind, hafter, hholds⟩
  · rintro ⟨hvisible, hkind, hafter, hholds⟩
    exact ⟨⟨hvisible, hkind, hafter⟩, hholds⟩

theorem mem_sorted {p : Plan} {os : List ObjectRecord} {r : ObjectRecord} :
    r ∈ sorted p os ↔ r ∈ os := List.mem_mergeSort

theorem sort_limit_of_plan {p : Plan} (hp : db.plan login o text = .ok p) :
    p.sort = o.sort ∧ p.limit = o.effectiveLimit := by
  obtain ⟨v, _, hcompile⟩ := plan_eq_ok hp
  obtain ⟨_, _, _, _, _, _, _, rfl⟩ := Plan.compile_eq_ok hcompile
  exact ⟨rfl, rfl⟩

theorem Admits.supports (hd : db.HoldsDocuments) {p : Plan} (hp : db.plan login o text = .ok p)
    (ha : db.Admits p) : db.Supports p := by
  obtain ⟨v, _, hcompile⟩ := plan_eq_ok hp
  exact ⟨ha.accepted, isUntroubled_of_compile hd hcompile ha.modest, ha.clear⟩

theorem matching_of_supports {p : Plan} (hs : db.Supports p) (purpose : Purpose) :
    db.matching p purpose = .ok (db.satisfying p.condition) := by
  have hfilter : (db.rows .objects).filter (db.isMatch p.condition purpose) =
      db.satisfying p.condition := by
    apply List.filter_congr
    intro r hr
    simp [isMatch, hs.clear r hr]
  rw [matching, matching?_of_isUntroubled hs.untroubled, hfilter]

theorem isResult_sorted (hi : db.isIntact = true) (hq : Query.parse text = .ok q) {p : Plan}
    (hp : db.plan login o text = .ok p) (hu : db.isUntroubled p.condition = true) :
    db.IsResult login o q (sorted p (db.satisfying p.condition)) := by
  constructor
  · intro r
    rw [sorted, List.mem_mergeSort, mem_satisfying]
    refine and_congr_right fun hmem => ?_
    have hread := List.all_eq_true.1 hu r hmem
    exact truth_plan_iff_wants hi hq hp hread
  · rw [sorted, (sort_limit_of_plan hp).1]
    exact SortOrder.pairwise_precedes_mergeSort _ ((pairwise_ids hi).filter _)

/-- A search by a supported plan counts what matches it and answers with the first page of it. -/
theorem search_of_supports (hi : db.isIntact = true) (hq : Query.parse text = .ok q) {p : Plan}
    (hp : db.plan login o text = .ok p) (hs : db.Supports p)
    (hdecodes : ∀ r ∈ db.rows .objects, db.Wants login o q r → ∃ h, db.hit r = .ok h) :
    ∃ a, db.search login o text = .ok a ∧
      a.total = (sorted p (db.satisfying p.condition)).length ∧
      a.hits.map .ok =
        ((sorted p (db.satisfying p.condition)).take o.effectiveLimit).map db.hit := by
  have hresult := isResult_sorted hi hq hp hs.untroubled
  have hhits : ∀ r ∈ page p (db.satisfying p.condition), ∃ h, db.hit r = .ok h := by
    intro r hr
    obtain ⟨hmem, hwants⟩ := (hresult.mem r).1 (List.mem_of_mem_take hr)
    exact hdecodes r hmem hwants
  obtain ⟨hits, hmap, hdecoded⟩ := mapM_eq_ok hhits
  refine ⟨⟨p, (db.satisfying p.condition).length, hits⟩, ?_, ?_, ?_⟩
  · rw [search, hp]
    simp only [required, hs.accepted, count, Database.hits, matching_of_supports hs, bind,
      Except.bind, hmap, if_true]
  · rw [sorted, List.length_mergeSort]
  · rw [← (sort_limit_of_plan hp).2]
    exact hdecoded.symm

/-- The number of objects that a search finds and the hashes of its hits, if there is an answer. -/
def found? (db : Database) (login : Text) (o : SearchOptions) (text : Text) :
    Option (Nat × List Text) :=
  (db.search login o text).toOption.map fun a => (a.total, a.hits.map Hit.dhash)

def run? (db : Database) (p : Plan) : Option (Nat × List Text) := do
  let counted ← db.matching? p.condition .counting id p.limit
  let selected ← db.matching? p.condition .selecting id p.limit
  let hits ← ((selected.take p.limit).mapM db.hit).toOption
  if selected.Pairwise fun a b => p.sort.beforeOrSame a b = true then
    some (counted.length, hits.map Hit.dhash)
  else none

theorem sorted_of_pairwise {p : Plan} {os : List ObjectRecord}
    (h : os.Pairwise fun a b => p.sort.beforeOrSame a b = true) : sorted p os = os :=
  List.mergeSort_of_pairwise h

theorem matching_of_pairwise {p : Plan}
    (h : (db.rows .objects).Pairwise fun a b => p.sort.beforeOrSame a b = true)
    {purpose : Purpose} {os : List ObjectRecord}
    (hos : db.matching? p.condition purpose id p.limit = some os) :
    db.matching p purpose = .ok os := by
  have hsorted : sorted p (db.rows .objects) = db.rows .objects := sorted_of_pairwise h
  have hmatching : db.matching? p.condition purpose (sorted p) p.limit =
      db.matching? p.condition purpose id p.limit := by
    unfold matching? following?
    rw [hsorted]
    rfl
  rw [matching, hmatching, hos]

theorem found?_eq_some (hsorted : (db.rows .objects).Pairwise fun a b =>
      o.sort.beforeOrSame a b = true) {r : Nat × List Text}
    (h : (db.plan login o text).toOption.any (fun p => p.isSmall && db.run? p == some r) = true) :
    db.found? login o text = some r := by
  obtain ⟨p, hp, hrun⟩ := exists_ok_of_any h
  rw [Bool.and_eq_true, beq_iff_eq] at hrun
  obtain ⟨hsmall, hrun⟩ := hrun
  have haccepted := Fragment.searchIsAccepted_of_isSmall hsmall
  rw [← (sort_limit_of_plan hp).1] at hsorted
  unfold run? at hrun
  simp only [Option.bind_eq_bind, Option.bind_eq_some_iff] at hrun
  obtain ⟨counted, hcounted, selected, hselected, hits, hhits, hrun⟩ := hrun
  split at hrun
  · rename_i hordered
    have hcount := matching_of_pairwise hsorted hcounted
    have hselect := matching_of_pairwise hsorted hselected
    have hmap : (page p selected).mapM db.hit = .ok hits := by
      rw [page, sorted_of_pairwise hordered]
      cases hm : (selected.take p.limit).mapM db.hit with
      | error e => simp [hm, Except.toOption] at hhits
      | ok hs =>
        rw [hm] at hhits
        cases hhits
        rfl
    rw [found?, search, hp]
    simp only [required, haccepted, count, Database.hits, hcount, hselect, hmap, bind, Except.bind,
      if_true]
    exact hrun
  · cases hrun

theorem found?_eq_none
    (h : (db.plan login o text).toOption.any
      (fun p => !p.fits || (db.count p).toOption.isNone) = true) :
    db.found? login o text = none := by
  obtain ⟨p, hp, hcheck⟩ := exists_ok_of_any h
  rw [Bool.or_eq_true, Bool.not_eq_true', Option.isNone_iff_eq_none] at hcheck
  rw [found?, search, hp]
  cases haccepted : Fragment.searchIsAccepted p with
  | false => simp [required, haccepted, bind, Except.bind, Except.toOption, storageFailure]
  | true =>
    have hfits := Fragment.fits_of_searchIsAccepted haccepted
    have hcount : (db.count p).toOption = none := by
      rcases hcheck with hcheck | hcheck
      · rw [hfits] at hcheck
        cases hcheck
      · exact hcheck
    cases hc : db.count p with
    | error e =>
      simp [required, haccepted, hc, bind, Except.bind, Except.toOption]
    | ok n =>
      rw [hc] at hcount
      cases hcount

/-- A search answers with the first wanted objects in the order of upload, up to its limit, and
with the number of all of them. -/
theorem search_exact (hi : db.isIntact = true) (hd : db.HoldsDocuments)
    (hq : Query.parse text = .ok q) {p : Plan} (hp : db.plan login o text = .ok p)
    (ha : db.Admits p)
    (hdecodes : ∀ r ∈ db.rows .objects, db.Wants login o q r → ∃ h, db.hit r = .ok h) :
    ∃ os a, db.IsResult login o q os ∧ db.search login o text = .ok a ∧ a.total = os.length ∧
      a.hits.map .ok = (os.take o.effectiveLimit).map db.hit := by
  have hs := ha.supports hd hp
  obtain ⟨a, hfound, htotal, hhits⟩ := search_of_supports hi hq hp hs hdecodes
  exact ⟨_, a, isResult_sorted hi hq hp hs.untroubled, hfound, htotal, hhits⟩

/-- Three objects, of which the user sees the first two. The time of the first one is not stored in
the form in which it is printed, and the hash of the second one is a character that patterns do not
tell apart from others. -/
def shelf : Database where
  rows
    | .objects =>
      [⟨1, ['p'], "static_config".toList, "2021-1-1 1:2:3".toList⟩,
       ⟨2, ['\uFFFE'], "object".toList, "2021-01-05 00:00:00".toList⟩,
       ⟨3, ['q'], "object".toList, "2021-01-04 00:00:00".toList⟩]
    | .configs => [⟨1, ['f'], ['t'], ['\x7b', '\x7d']⟩]
    | .users => [⟨1, ['u']⟩]
    | .groups => [⟨1, ['g'], ['[', ']']⟩]
    | .members => [⟨1, 1⟩]
    | .permissions => [⟨1, 1, "added".toList, .empty⟩, ⟨2, 1, "added".toList, .empty⟩]
    | _ => []

theorem holdsDocuments_shelf : shelf.HoldsDocuments := by
  apply holdsDocuments_of_read?
  · decide +kernel
  · intro r hr
    cases hr

theorem decodes_shelf : ∀ r ∈ shelf.rows .objects, ∃ h, shelf.hit r = .ok h := by
  have hall : ∀ r ∈ shelf.rows .objects, (shelf.hit r).toOption.isSome = true := by
    decide +kernel
  exact fun r hr => exists_ok_of_isSome (hall r hr)

theorem search_exact_shelf : ∃ q os a, Query.parse "NOT tag:a".toList = .ok q ∧
    shelf.IsResult ['u'] .default q os ∧ shelf.search ['u'] .default "NOT tag:a".toList = .ok a ∧
    a.total = os.length ∧ a.hits.map .ok = (os.take 10000).map shelf.hit := by
  have hcheck : (shelf.plan ['u'] .default "NOT tag:a".toList).toOption.any (fun p =>
      p.isSmall && p.condition.isModest && !p.condition.matchesHash) = true := by decide +kernel
  obtain ⟨p, hp, hcheck⟩ := exists_ok_of_any hcheck
  simp only [Bool.and_eq_true] at hcheck
  obtain ⟨⟨hsmall, hmodest⟩, hhash⟩ := hcheck
  have hadmits : shelf.Admits p := by
    refine ⟨Fragment.searchIsAccepted_of_isSmall hsmall, hmodest, fun r _ => ?_⟩
    rw [isClear, hhash]
    rfl
  have hparse : (Query.parse "NOT tag:a".toList).toOption.isSome = true := by decide +kernel
  obtain ⟨q, hq⟩ := exists_ok_of_isSome hparse
  obtain ⟨os, a, hresult, hfound, htotal, hhits⟩ :=
    search_exact (by decide +kernel) holdsDocuments_shelf hq hp hadmits fun r hr _ =>
      decodes_shelf r hr
  exact ⟨q, os, a, hq, hresult, hfound, htotal, hhits⟩

/-- Beyond the limits of the database a search is not exact, although the objects of the shelf can
be decoded: there is no answer if the query is nested too deeply or has a torn label, the hits are
not those that are counted if a pattern is at a loss with a hash, and what comes after a pivot is
left out if the time of the pivot is not stored in the form in which it is printed. -/
theorem search_inexact : shelf.isIntact = true ∧ shelf.HoldsDocuments ∧
    (∀ r ∈ shelf.rows .objects, ∃ h, shelf.hit r = .ok h) ∧
    ((∃ p, shelf.plan ['u'] .default (List.replicate 41 '!' ++ "tag:a".toList) = .ok p) ∧
      shelf.found? ['u'] .default (List.replicate 41 '!' ++ "tag:a".toList) = none) ∧
    ((∃ p, shelf.plan ['u'] .default ("static.cfg.a".toList ++ [Char.ofNat 0, ':', 'x']) = .ok p) ∧
      shelf.found? ['u'] .default ("static.cfg.a".toList ++ [Char.ofNat 0, ':', 'x']) = none) ∧
    shelf.found? ['u'] .default "upload_time:2021-01-05 AND dhash:\uFFFD*".toList =
      some (0, [['\uFFFE']]) ∧
    shelf.found? ['u'] .default "dhash:\uFFFE".toList = some (1, [['\uFFFE']]) ∧
    SortOrder.newest.Precedes ⟨1, ['p'], "static_config".toList, "2021-1-1 1:2:3".toList⟩
      ⟨2, ['\uFFFE'], "object".toList, "2021-01-05 00:00:00".toList⟩ ∧
    shelf.found? ['u'] ⟨none, 10000, .newest, some ['p']⟩ "dhash:\uFFFE".toList =
      some (0, []) := by
  refine ⟨by decide +kernel, holdsDocuments_shelf, decodes_shelf,
    ⟨exists_ok_of_isSome (by decide +kernel), ?_⟩, ⟨exists_ok_of_isSome (by decide +kernel), ?_⟩,
    ?_, ?_, by decide +kernel, ?_⟩
  · exact found?_eq_none (by decide +kernel)
  · exact found?_eq_none (by decide +kernel)
  · exact found?_eq_some (by decide +kernel) (by decide +kernel)
  · exact found?_eq_some (by decide +kernel) (by decide +kernel)
  · exact found?_eq_some (by decide +kernel) (by decide +kernel)

end Database

end SampleSearch
