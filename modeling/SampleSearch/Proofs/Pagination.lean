import SampleSearch.Proofs.SearchExactness
import SampleSearch.Proofs.StatementLimits

/-!
# Walking through pages

A walk starts without a pivot and goes on behind the last hit of each page until a page is shorter
than the limit. If the times of upload are stored in the form in which they are printed, a search
behind any visible object gives what comes after it in the result, so a walk reads the whole result,
each object once and in order.
-/

namespace SampleSearch

namespace SearchOptions

def startingAfter (o : SearchOptions) (dhash : Option Text) : SearchOptions :=
  { o with olderThan := dhash }

end SearchOptions

namespace Plan

def parts (p : Plan) : List Condition :=
  match p.condition with
  | .all cs => cs
  | c => [c]

def resumed (p : Plan) (pos : Position) : Plan :=
  { p with condition := .all (p.parts ++ [afterPosition p.sort pos]) }

theorem searchIsAccepted_resumed (p : Plan) (pos pos' : Position) :
    Fragment.searchIsAccepted (p.resumed pos) = Fragment.searchIsAccepted (p.resumed pos') :=
  Fragment.searchIsAccepted_congr ((Fragment.sameSize_afterPosition p.sort pos pos').all_append _)

/-- What a plan can be decided for, it can be decided for behind a position. -/
theorem isReadable_resumed {p : Plan} {db : Database} {s : Scope}
    (h : p.condition.isReadable db s = true) (pos : Position) :
    (p.resumed pos).condition.isReadable db s = true := by
  rw [resumed, Condition.isReadable, Condition.allReadable_iff]
  intro c hc
  rcases List.mem_append.1 hc with hc | hc
  · unfold parts at hc
    split at hc
    · rename_i cs hcs
      rw [hcs, Condition.isReadable, Condition.allReadable_iff] at h
      exact h c hc
    · rw [List.mem_singleton.1 hc]
      exact h
  · rw [List.mem_singleton.1 hc]
    rfl

theorem compile_startingAfter {d : Directory} {v : Viewer} {o : SearchOptions} {text : Text}
    {p : Plan} (h : compile d v (o.startingAfter none) text = .ok p) {dhash : Text}
    {pos : Position} (hpos : d.position? dhash v = .ok (some pos)) :
    compile d v (o.startingAfter (some dhash)) text = .ok (p.resumed pos) := by
  obtain ⟨q, c, b, after, hq, hc, hafter, rfl⟩ := compile_eq_ok h
  cases hafter
  refine bind_eq_ok_iff.2 ⟨q, hq, bind_eq_ok_iff.2 ⟨(c, b), hc, ?_⟩⟩
  refine bind_eq_ok_iff.2 ⟨[afterPosition o.sort pos], ?_, ?_⟩
  · exact bind_eq_ok_iff.2 ⟨pos, Leaf.required_eq_ok.2 hpos, rfl⟩
  · simp [resumed, parts, SearchOptions.startingAfter, SearchOptions.effectiveLimit]

end Plan

namespace Database

def HasCanonicalTimes (db : Database) : Prop :=
  ∀ r ∈ db.rows .objects, ∃ m, Moment.stored? r.uploadTime = some m ∧ m.text = r.uploadTime

structure SupportsPages (db : Database) (p : Plan) : Prop where
  first : db.Supports p
  next : ∃ pos, Fragment.searchIsAccepted (p.resumed pos) = true

/-- The pages of a search, read one after the other: each starts behind the last hit of the one
before, and the last page is the first that is not full. -/
inductive Walk (db : Database) (login : Text) (o : SearchOptions) (text : Text) :
    Option Text → List (List Hit) → Prop
  | last {dhash : Option Text} {a : Answer}
      (found : db.search login (o.startingAfter dhash) text = .ok a)
      (short : a.hits.length < o.effectiveLimit) : Walk db login o text dhash [a.hits]
  | next {dhash : Option Text} {a : Answer} {h : Hit} {pages : List (List Hit)}
      (found : db.search login (o.startingAfter dhash) text = .ok a)
      (full : o.effectiveLimit ≤ a.hits.length) (last : a.hits.getLast? = some h)
      (rest : Walk db login o text (some h.dhash) pages) :
      Walk db login o text dhash (a.hits :: pages)

variable {db : Database} {login text : Text} {o : SearchOptions} {q : Query} {p : Plan}

theorem Walk.unique {dhash : Option Text} {pages pages' : List (List Hit)}
    (h : db.Walk login o text dhash pages) (h' : db.Walk login o text dhash pages') :
    pages = pages' := by
  induction h generalizing pages' with
  | last found short =>
    cases h' with
    | last found' _ =>
      cases found.symm.trans found'
      rfl
    | next found' full _ _ =>
      cases found.symm.trans found'
      omega
  | next found full last rest ih =>
    cases h' with
    | last found' short =>
      cases found.symm.trans found'
      omega
    | next found' _ last' rest' =>
      cases found.symm.trans found'
      cases last.symm.trans last'
      rw [ih rest']

theorem SupportsPages.resumed (h : db.SupportsPages p) (pos : Position) :
    db.Supports (p.resumed pos) := by
  obtain ⟨first, pos', hnext⟩ := h
  refine ⟨by rw [Plan.searchIsAccepted_resumed p pos pos']; exact hnext, ?_, fun r hr => ?_⟩
  · rw [isUntroubled, List.all_eq_true]
    intro r hr
    exact Plan.isReadable_resumed (List.all_eq_true.1 first.untroubled r hr) pos
  · have hclear := first.clear r hr
    have hsame : (p.resumed pos).condition.matchesHash = p.condition.matchesHash := by
      have hafter : Condition.someMatchesHash [Plan.afterPosition p.sort pos] = false := rfl
      rw [Plan.resumed, Condition.matchesHash, Condition.someMatchesHash_append, hafter,
        Bool.or_false, Plan.parts]
      split
      · rename_i cs hcs
        rw [hcs, Condition.matchesHash]
      · rw [Condition.someMatchesHash, Condition.someMatchesHash, Bool.or_false]
    rw [isClear, hsame]
    exact hclear

theorem hit_eq_ok {r : ObjectRecord} {h : Hit} (hh : db.hit r = .ok h) : h.dhash = r.dhash := by
  obtain ⟨m, _, hh⟩ := bind_eq_ok_iff.1 hh
  obtain ⟨d, _, hh⟩ := bind_eq_ok_iff.1 hh
  cases hh
  rfl

theorem wants_startingAfter (hi : db.isIntact = true) (hc : db.HasCanonicalTimes)
    {pivot : ObjectRecord} (hpivot : pivot ∈ db.rows .objects) (hsees : db.Sees login pivot)
    (r : ObjectRecord) :
    db.Wants login (o.startingAfter (some pivot.dhash)) q r ↔
      db.Wants login (o.startingAfter none) q r ∧ o.sort.Precedes pivot r := by
  obtain ⟨m, hm, htext⟩ := hc pivot hpivot
  constructor
  · rintro ⟨hvisible, hkind, hbehind, hholds⟩
    obtain ⟨other, hother, hhash, _, m', hm', h⟩ := hbehind pivot.dhash rfl
    have hsame : other = pivot := object_eq_of_dhash hi hother hpivot hhash
    subst hsame
    obtain rfl : m = m' := Option.some.inj (hm.symm.trans hm')
    rw [htext] at h
    exact ⟨⟨hvisible, hkind, (fun _ hd => by cases hd), hholds⟩, h⟩
  · rintro ⟨⟨hvisible, hkind, _, hholds⟩, h⟩
    refine ⟨hvisible, hkind, fun dhash hd => ?_, hholds⟩
    cases hd
    refine ⟨pivot, hpivot, rfl, hsees, m, hm, ?_⟩
    rw [htext]
    exact h

theorem search_startingAfter (hi : db.isIntact = true) (hc : db.HasCanonicalTimes)
    (hq : Query.parse text = .ok q)
    (hp : db.plan login (o.startingAfter none) text = .ok p) (hs : db.SupportsPages p)
    (hdecodes : ∀ r ∈ db.rows .objects, db.Wants login (o.startingAfter none) q r →
      ∃ h, db.hit r = .ok h)
    {os : List ObjectRecord} (hos : db.IsResult login (o.startingAfter none) q os)
    {pivot : ObjectRecord} (hpivot : pivot ∈ db.rows .objects) (hsees : db.Sees login pivot) :
    ∃ a, db.search login (o.startingAfter (some pivot.dhash)) text = .ok a ∧
      a.hits.map .ok = ((os.filter fun r => decide (o.sort.Precedes pivot r)).take
        o.effectiveLimit).map db.hit := by
  obtain ⟨v, hv, hcompile⟩ := plan_eq_ok hp
  obtain ⟨m, hm, _⟩ := hc pivot hpivot
  have haccess := (truth_access_iff_sees hi hv pivot).2 hsees
  have hpos : db.directory.position? pivot.dhash v = .ok (some ⟨pivot.id, m⟩) :=
    (position?_eq_ok hi).2 ⟨pivot, hpivot, rfl, haccess, hm, rfl⟩
  have hp' : db.plan login (o.startingAfter (some pivot.dhash)) text =
      .ok (p.resumed ⟨pivot.id, m⟩) :=
    bind_eq_ok_iff.2 ⟨v, hv, Plan.compile_startingAfter hcompile hpos⟩
  have hs' := hs.resumed ⟨pivot.id, m⟩
  have hfiltered : db.IsResult login (o.startingAfter (some pivot.dhash)) q
      (os.filter fun r => decide (o.sort.Precedes pivot r)) := by
    refine ⟨fun r => ?_, hos.ordered.filter _⟩
    rw [List.mem_filter, hos.mem, decide_eq_true_eq, wants_startingAfter hi hc hpivot hsees,
      and_assoc]
  obtain ⟨a, ha, _, hhits⟩ := search_of_supports hi hq hp' hs' fun r hr hw =>
    hdecodes r hr ((wants_startingAfter hi hc hpivot hsees r).1 hw).1
  refine ⟨a, ha, ?_⟩
  rw [hhits, (isResult_sorted hi hq hp' hs'.untroubled).unique hfiltered]
  rfl

/-- What a page starts behind, if `front` has been read: nothing, or the last object of it. -/
def ReadUpTo (dhash : Option Text) (front : List ObjectRecord) : Prop :=
  dhash = front.getLast?.map ObjectRecord.dhash

section Walking

variable (hi : db.isIntact = true) (hc : db.HasCanonicalTimes)
  (hq : Query.parse text = .ok q) (hp : db.plan login (o.startingAfter none) text = .ok p)
  (hs : db.SupportsPages p)
  (hdecodes : ∀ r ∈ db.rows .objects, db.Wants login (o.startingAfter none) q r →
    ∃ h, db.hit r = .ok h)
  {os : List ObjectRecord} (hos : db.IsResult login (o.startingAfter none) q os)

include hi hc hq hp hs hdecodes hos

theorem page_of_rest {dhash : Option Text} {front rest : List ObjectRecord}
    (hread : ReadUpTo dhash front) (happ : os = front ++ rest) :
    ∃ a, db.search login (o.startingAfter dhash) text = .ok a ∧
      a.hits.map .ok = (rest.take o.effectiveLimit).map db.hit := by
  rcases List.eq_nil_or_concat front with rfl | ⟨before, r, rfl⟩
  · obtain rfl : dhash = none := hread
    obtain ⟨a, ha, _, hhits⟩ := search_of_supports hi hq hp hs.first hdecodes
    refine ⟨a, ha, ?_⟩
    rw [hhits, (isResult_sorted hi hq hp hs.first.untroubled).unique hos, happ]
    rfl
  · obtain rfl : dhash = some r.dhash := by
      rw [hread]
      simp
    have happ' : os = before ++ r :: rest := by
      rw [happ]
      simp
    obtain ⟨hr, hwants⟩ := (hos.mem r).1 (by rw [happ']; simp)
    obtain ⟨a, ha, hhits⟩ :=
      search_startingAfter hi hc hq hp hs hdecodes hos hr hwants.visible
    refine ⟨a, ha, ?_⟩
    have hordered : (before ++ r :: rest).Pairwise o.sort.Precedes := by
      rw [← happ']
      exact hos.ordered
    rw [hhits, happ', SortOrder.filter_isBehind hordered]

theorem walk_of_short_rest {dhash : Option Text} {front rest : List ObjectRecord}
    (hread : ReadUpTo dhash front) (happ : os = front ++ rest)
    (hshort : rest.length < o.effectiveLimit) :
    ∃ pages, db.Walk login o text dhash pages ∧ pages.flatten.map .ok = rest.map db.hit := by
  obtain ⟨a, ha, hhits⟩ := page_of_rest hi hc hq hp hs hdecodes hos hread happ
  rw [List.take_of_length_le (by omega)] at hhits
  have hlength : a.hits.length = rest.length := by simpa using congrArg List.length hhits
  refine ⟨[a.hits], .last ha (by omega), ?_⟩
  rw [List.flatten_cons, List.flatten_nil, List.append_nil]
  exact hhits

theorem full_page_of_rest {dhash : Option Text} {front rest : List ObjectRecord}
    (hread : ReadUpTo dhash front) (happ : os = front ++ rest)
    (hfull : o.effectiveLimit ≤ rest.length) :
    ∃ a h, db.search login (o.startingAfter dhash) text = .ok a ∧
      a.hits.map .ok = (rest.take o.effectiveLimit).map db.hit ∧
      a.hits.length = o.effectiveLimit ∧ a.hits.getLast? = some h ∧
      ReadUpTo (some h.dhash) (front ++ rest.take o.effectiveLimit) := by
  obtain ⟨a, ha, hhits⟩ := page_of_rest hi hc hq hp hs hdecodes hos hread happ
  have hlimit := o.effectiveLimit_bounds.1
  have hlength : a.hits.length = o.effectiveLimit := by
    have h := congrArg List.length hhits
    rw [List.length_map, List.length_map, List.length_take] at h
    omega
  have hlast := congrArg List.getLast? hhits
  rw [List.getLast?_map, List.getLast?_map] at hlast
  cases hh : a.hits.getLast? with
  | none =>
    rw [List.getLast?_eq_none_iff.1 hh, List.length_nil] at hlength
    omega
  | some h =>
    cases hr : (rest.take o.effectiveLimit).getLast? with
    | none => simp [hh, hr] at hlast
    | some r =>
      rw [hh, hr] at hlast
      have hhit : db.hit r = .ok h := (Option.some.inj hlast).symm
      refine ⟨a, h, ha, hhits, hlength, hh, ?_⟩
      rw [ReadUpTo, List.getLast?_append, hr, hit_eq_ok hhit]
      rfl

/-- From any point of the result, a walk reads the rest of it. -/
theorem walk_of_rest (n : Nat) {dhash : Option Text} {front rest : List ObjectRecord}
    (hn : rest.length ≤ n) (hread : ReadUpTo dhash front) (happ : os = front ++ rest) :
    ∃ pages, db.Walk login o text dhash pages ∧ pages.flatten.map .ok = rest.map db.hit := by
  have hlimit := o.effectiveLimit_bounds.1
  induction n generalizing dhash front rest with
  | zero => exact walk_of_short_rest hi hc hq hp hs hdecodes hos hread happ (by omega)
  | succ n ih =>
    by_cases hshort : rest.length < o.effectiveLimit
    · exact walk_of_short_rest hi hc hq hp hs hdecodes hos hread happ hshort
    · obtain ⟨a, h, ha, hhits, hlength, hlast, hread'⟩ :=
        full_page_of_rest hi hc hq hp hs hdecodes hos hread happ (by omega)
      have happ' : os = (front ++ rest.take o.effectiveLimit) ++ rest.drop o.effectiveLimit := by
        rw [List.append_assoc, List.take_append_drop]
        exact happ
      have hn' : (rest.drop o.effectiveLimit).length ≤ n := by
        rw [List.length_drop]
        omega
      obtain ⟨pages, hwalk, hpages⟩ := ih hn' hread' happ'
      refine ⟨a.hits :: pages, .next ha (by omega) hlast hwalk, ?_⟩
      rw [List.flatten_cons, List.map_append, hhits, hpages, ← List.map_append,
        List.take_append_drop]

end Walking

/-- Pages lose and repeat nothing. A search behind any object that the user sees answers with what
comes after it in the result, up to the limit, and the walk that starts without a pivot ends and
reads the whole result. -/
theorem pages_exact (hi : db.isIntact = true) (hc : db.HasCanonicalTimes)
    (hq : Query.parse text = .ok q)
    (hp : db.plan login (o.startingAfter none) text = .ok p) (hs : db.SupportsPages p)
    (hdecodes : ∀ r ∈ db.rows .objects, db.Wants login (o.startingAfter none) q r →
      ∃ h, db.hit r = .ok h) :
    ∃ os, db.IsResult login (o.startingAfter none) q os ∧
      (∀ pivot ∈ db.rows .objects, db.Sees login pivot →
        ∃ a, db.search login (o.startingAfter (some pivot.dhash)) text = .ok a ∧
          a.hits.map .ok = ((os.filter fun r => decide (o.sort.Precedes pivot r)).take
            o.effectiveLimit).map db.hit) ∧
      ∃ pages, db.Walk login o text none pages ∧ pages.flatten.map .ok = os.map db.hit := by
  have hos := isResult_sorted hi hq hp hs.first.untroubled
  refine ⟨_, hos, fun pivot hpivot hsees => ?_, ?_⟩
  · exact search_startingAfter hi hc hq hp hs hdecodes hos hpivot hsees
  · have hread : ReadUpTo none [] := rfl
    exact walk_of_rest hi hc hq hp hs hdecodes hos _ (Nat.le_refl _) hread rfl

/-- Four objects that the user sees, from the newest to the oldest. A document attached to the
second one is malformed. -/
def archive : Database where
  rows
    | .objects =>
      [⟨1, ['p'], "static_config".toList, "2021-01-06 00:00:00".toList⟩,
       ⟨2, ['q'], "static_config".toList, "2021-01-05 00:00:00".toList⟩,
       ⟨3, ['\uFFFD'], "object".toList, "2021-01-03 00:00:00".toList⟩,
       ⟨4, ['\uFFFE'], "object".toList, "2021-01-02 00:00:00".toList⟩]
    | .configs => [⟨1, ['f'], ['t'], ['\x7b', '\x7d']⟩, ⟨2, ['f'], ['w'], ['\x7b', '\x7d']⟩]
    | .attributes => [⟨1, 1, ['k'], "\x7b\"a\":\"x\"\x7d".toList⟩, ⟨2, 2, ['k'], ['\x7b']⟩]
    | .definitions => [⟨some ['k'], [], none, .int 0⟩]
    | .rights => [⟨['k'], .int 1, .int 1, .int 0⟩]
    | .users => [⟨1, ['u']⟩]
    | .groups => [⟨1, ['g'], ['[', ']']⟩]
    | .members => [⟨1, 1⟩]
    | .permissions =>
      [⟨1, 1, "added".toList, .empty⟩, ⟨2, 1, "added".toList, .empty⟩,
       ⟨3, 1, "added".toList, .empty⟩, ⟨4, 1, "added".toList, .empty⟩]
    | _ => []

theorem hasCanonicalTimes_archive : archive.HasCanonicalTimes := by
  have hall : ∀ r ∈ archive.rows .objects,
      (Moment.stored? r.uploadTime).any (fun m => m.text == r.uploadTime) = true := by
    decide +kernel
  intro r hr
  obtain ⟨m, hm, htext⟩ := (Option.any_eq_true _ _).1 (hall r hr)
  exact ⟨m, hm, beq_iff_eq.1 htext⟩

theorem decodes_archive : ∀ r ∈ archive.rows .objects, ∃ h, archive.hit r = .ok h := by
  have hall : ∀ r ∈ archive.rows .objects, (archive.hit r).toOption.isSome = true := by
    decide +kernel
  exact fun r hr => exists_ok_of_isSome (hall r hr)

def oneByOne (dhash : Option Text) : SearchOptions := ⟨none, 1, .newest, dhash⟩

theorem pages_exact_archive : ∃ q os pages, Query.parse "NOT tag:a".toList = .ok q ∧
    archive.IsResult ['u'] (oneByOne none) q os ∧
    archive.Walk ['u'] (oneByOne none) "NOT tag:a".toList none pages ∧
    pages.flatten.map .ok = os.map archive.hit := by
  have hcheck : (archive.plan ['u'] (oneByOne none) "NOT tag:a".toList).toOption.any (fun p =>
      p.isSmall && (p.resumed ⟨0, ⟨⟨2021, 1, 1⟩, 0, 0, 0⟩⟩).isSmall &&
        archive.isUntroubled p.condition && !p.condition.matchesHash) = true := by
    decide +kernel
  obtain ⟨p, hp, hcheck⟩ := exists_ok_of_any hcheck
  simp only [Bool.and_eq_true] at hcheck
  obtain ⟨⟨⟨hsmall, hresumed⟩, huntroubled⟩, hhash⟩ := hcheck
  have hsupports : archive.SupportsPages p := by
    refine ⟨⟨Fragment.searchIsAccepted_of_isSmall hsmall, huntroubled, fun r _ => ?_⟩,
      _, Fragment.searchIsAccepted_of_isSmall hresumed⟩
    rw [isClear, hhash]
    rfl
  have hparse : (Query.parse "NOT tag:a".toList).toOption.isSome = true := by decide +kernel
  obtain ⟨q, hq⟩ := exists_ok_of_isSome hparse
  obtain ⟨os, hos, _, pages, hwalk, hpages⟩ :=
    pages_exact (o := oneByOne none) (by decide +kernel) hasCanonicalTimes_archive hq hp hsupports
      fun r hr _ => decodes_archive r hr
  exact ⟨q, os, pages, hq, hos, hwalk, hpages⟩

/-- Beyond the limits of the database pages may break off or show what no page should, although
every object of the archive can be decoded and every first page is found: the next page may meet
the malformed document, or it may have the object that a pattern was at a loss with before. -/
theorem pages_inexact : archive.isIntact = true ∧ archive.HasCanonicalTimes ∧
    (∀ r ∈ archive.rows .objects, ∃ h, archive.hit r = .ok h) ∧
    (archive.found? ['u'] (oneByOne none) "attribute.k.a:x AND static.type:t".toList =
        some (1, [['p']]) ∧
      archive.found? ['u'] (oneByOne (some ['p'])) "attribute.k.a:x AND static.type:t".toList =
        none) ∧
    (archive.found? ['u'] (oneByOne none)
          "(dhash:\uFFFD* OR dhash:x*) AND upload_time:[2021-01-02 TO *]".toList =
        some (1, [['\uFFFD']]) ∧
      archive.found? ['u'] (oneByOne (some ['\uFFFD']))
          "(dhash:\uFFFD* OR dhash:x*) AND upload_time:[2021-01-02 TO *]".toList =
        some (1, [['\uFFFE']])) := by
  refine ⟨by decide +kernel, hasCanonicalTimes_archive, decodes_archive, ⟨?_, ?_⟩, ?_, ?_⟩
  · exact found?_eq_some (by decide +kernel) (by decide +kernel)
  · exact found?_eq_none (by decide +kernel)
  · exact found?_eq_some (by decide +kernel) (by decide +kernel)
  · exact found?_eq_some (by decide +kernel) (by decide +kernel)

end Database

end SampleSearch
