import SampleSearch.Proofs.KnownTruth
import SampleSearch.Proofs.RoundTrip
import SampleSearch.Proofs.SearchExactness

/-!
# Negation

The negation of a query is compiled whenever the query is, for objects of the same kind. No object
is found by both. An object that a search concerns is found by one of them, unless a field of the
query has nothing to compare for it. This takes the limits of the database for granted: beyond them
it answers neither of the two searches, or passes over an object in both.
-/

namespace SampleSearch

namespace Plan

variable {d : Directory} {v : Viewer} {o : SearchOptions} {q : Query}

theorem ofQuery_negated {c : Condition} {b : Binding} {after : List Condition}
    (hc : q.compile d v o.kind = .ok (c, b))
    (hafter : afterObject d v o.sort o.olderThan = .ok after) :
    ofQuery d v o (.negated q) = .ok ⟨b.getD .object,
      .all (ofKind (b.getD .object) ++ [.negated c, v.access] ++ after), o.sort,
      o.effectiveLimit⟩ := by
  have hnegated : (Query.negated q).compile d v o.kind = .ok (.negated c, b) := by
    simp only [Query.compile] at hc
    simp only [Query.compile, Query.compileIn, hc, bind, Except.bind]
  simp only [ofQuery, hnegated, hafter, bind, Except.bind]

theorem isModest_negated {kind after : List Condition} {c access : Condition}
    (h : (Condition.all (kind ++ [c, access] ++ after)).isModest = true) :
    (Condition.all (kind ++ [.negated c, access] ++ after)).isModest = true := by
  rw [Condition.isModest_all, forall_mem_parts] at h ⊢
  exact h

theorem matchesHash_negated (kind after : List Condition) (c access : Condition) :
    (Condition.all (kind ++ [.negated c, access] ++ after)).matchesHash =
      (Condition.all (kind ++ [c, access] ++ after)).matchesHash := by
  simp only [Condition.matchesHash, Condition.someMatchesHash_append, Condition.someMatchesHash]

end Plan

namespace Database

def Finds (db : Database) (p : Plan) (purpose : Purpose) (r : ObjectRecord) : Prop :=
  Fragment.searchIsAccepted p = true ∧ ∃ os, db.matching p purpose = .ok os ∧ r ∈ os

variable {db : Database} {login : Text} {o : SearchOptions} {q : Query} {r : ObjectRecord}

theorem Finds.truth {p : Plan} (hu : db.isUntroubled p.condition = true) {purpose : Purpose}
    (h : db.Finds p purpose r) : p.condition.truth db (db.scope r) = .yes := by
  obtain ⟨-, os, hos, hr⟩ := h
  rw [matching, matching?_of_isUntroubled hu] at hos
  obtain rfl := Except.ok.inj hos
  have hmatch := (List.mem_filter.1 hr).2
  rw [isMatch, Bool.and_eq_true, beq_iff_eq] at hmatch
  exact hmatch.1

theorem finds_of_truth {p : Plan} (haccepted : Fragment.searchIsAccepted p = true)
    (hu : db.isUntroubled p.condition = true) (hr : r ∈ db.rows .objects)
    (hclear : isClear p.condition r = true) (htruth : p.condition.truth db (db.scope r) = .yes)
    (purpose : Purpose) : db.Finds p purpose r := by
  refine ⟨haccepted, _, by rw [matching, matching?_of_isUntroubled hu], List.mem_filter.2 ⟨hr, ?_⟩⟩
  rw [isMatch, htruth, hclear]
  rfl

/-- The negation of a query is compiled for the same kind. No object is found by the query and by
its negation, and an object that the search concerns is found by one of them if no field of the
query misses it. -/
theorem negation_exact (hi : db.isIntact = true) (hfills : db.FillsColumns)
    (hrecords : db.HasRecords) (hd : db.HoldsDocuments) {v : Viewer}
    (hv : db.viewer login = .ok v) {p : Plan} (hp : Plan.ofQuery db.directory v o q = .ok p) :
    ∃ p', Plan.ofQuery db.directory v o (.negated q) = .ok p' ∧ p'.kind = p.kind ∧
      (p.condition.isModest = true → ∀ r ∈ db.rows .objects,
        (∀ purpose purpose', ¬ (db.Finds p purpose r ∧ db.Finds p' purpose' r)) ∧
        (Fragment.searchIsAccepted p = true → Fragment.searchIsAccepted p' = true →
          isClear p.condition r = true → db.Concerns login o p.kind r →
          (∀ l ∈ q.leaves none o.kind, ¬ l.1.Misses db r) →
          ∀ purpose, db.Finds p purpose r ∨ db.Finds p' purpose r)) := by
  have hregular := Plan.isRegular_of_ofQuery hp
  obtain ⟨c, b, after, hc, hafter, rfl⟩ := Plan.ofQuery_eq_ok hp
  have hp' := Plan.ofQuery_negated hc hafter
  refine ⟨_, hp', rfl, fun hmodest r hr => ?_⟩
  have hu := isUntroubled_of_isModest hd hregular hmodest
  have hu' := isUntroubled_of_isModest hd (Plan.isRegular_of_ofQuery hp')
    (Plan.isModest_negated hmodest)
  have htruth := truth_parts_iff hi hv hafter (k := b.getD .object) (c := c) (r := r)
  have htruth' := truth_parts_iff hi hv hafter (k := b.getD .object) (c := .negated c) (r := r)
  have hflip : (Condition.negated c).truth db (db.scope r) = .yes ↔
      c.truth db (db.scope r) = .no := by rw [Condition.truth, Truth.flip_eq_yes]
  rw [hflip] at htruth'
  constructor
  · rintro purpose purpose' ⟨hfinds, hfinds'⟩
    have hyes := (htruth.1 (hfinds.truth hu)).2
    have hno := (htruth'.1 (hfinds'.truth hu')).2
    rw [hyes] at hno
    cases hno
  · intro haccepted haccepted' hclear hconcerns hmisses purpose
    have hread : c.isReadable db (db.scope r) = true := by
      have hall := List.all_eq_true.1 hu r hr
      rw [Condition.isReadable, Condition.allReadable_iff] at hall
      exact hall c (by simp)
    have hknown : c.truth db (db.scope r) ≠ .unknown :=
      Query.truth_ne_unknown hfills hrecords hr hconcerns.ofKind rfl hc hmisses hread
    cases hholds : c.truth db (db.scope r) with
    | yes =>
      left
      exact finds_of_truth haccepted hu hr hclear (htruth.2 ⟨hconcerns, hholds⟩) purpose
    | no =>
      right
      refine finds_of_truth haccepted' hu' hr ?_ (htruth'.2 ⟨hconcerns, hholds⟩) purpose
      rw [isClear, Plan.matchesHash_negated]
      exact hclear
    | unknown => exact absurd hholds hknown

theorem fillsColumns_shelf : shelf.FillsColumns := by
  intro t
  cases t <;> decide +kernel

theorem hasRecords_shelf : shelf.HasRecords := by
  intro r hr k s
  revert r
  cases k <;> cases s <;> decide +kernel

/-- Every object on the shelf that the user sees has the tag or has it not. -/
theorem negation_exact_shelf : ∃ v p p', shelf.viewer ['u'] = .ok v ∧
    Plan.ofQuery shelf.directory v .default (.field "tag".toList (.word ['a'])) = .ok p ∧
    Plan.ofQuery shelf.directory v .default (.negated (.field "tag".toList (.word ['a']))) =
      .ok p' ∧ p'.kind = p.kind ∧ ∀ r ∈ shelf.rows .objects,
        (∀ purpose purpose', ¬ (shelf.Finds p purpose r ∧ shelf.Finds p' purpose' r)) ∧
        (shelf.Sees ['u'] r → ∀ purpose, shelf.Finds p purpose r ∨ shelf.Finds p' purpose r) := by
  have hviewer : (shelf.viewer ['u']).toOption.any (fun v =>
      (Plan.ofQuery shelf.directory v .default (.field "tag".toList (.word ['a']))).toOption.any
        (fun p => p.isSmall && p.condition.isModest && !p.condition.matchesHash &&
          p.kind == .object) &&
      (Plan.ofQuery shelf.directory v .default
        (.negated (.field "tag".toList (.word ['a'])))).toOption.any Plan.isSmall) = true := by
    decide +kernel
  obtain ⟨v, hv, hcheck⟩ := exists_ok_of_any hviewer
  rw [Bool.and_eq_true] at hcheck
  obtain ⟨p, hp, hchecked⟩ := exists_ok_of_any hcheck.1
  simp only [Bool.and_eq_true, beq_iff_eq] at hchecked
  obtain ⟨⟨⟨hsmall, hmodest⟩, hhash⟩, hkind⟩ := hchecked
  obtain ⟨p', hp', hsame, hexact⟩ := negation_exact (by decide +kernel) fillsColumns_shelf
    hasRecords_shelf holdsDocuments_shelf hv hp
  obtain ⟨p'', hp'', hsmall'⟩ := exists_ok_of_any hcheck.2
  obtain rfl : p' = p'' := Except.ok.inj (hp'.symm.trans hp'')
  refine ⟨v, p, p', hv, hp, hp', hsame, fun r hr => ?_⟩
  obtain ⟨hboth, hone⟩ := hexact hmodest r hr
  refine ⟨hboth, fun hsees => hone (Fragment.searchIsAccepted_of_isSmall hsmall)
    (Fragment.searchIsAccepted_of_isSmall hsmall') ?_ ⟨hsees, ?_, ?_⟩ ?_⟩
  · rw [isClear, hhash]
    rfl
  · rw [hkind]
    intro tag htag
    cases htag
  · intro dhash hdhash
    cases hdhash
  · have hleaves : ∀ l ∈ (Query.field "tag".toList (.word ['a'])).leaves none none,
        l.1.strategy = .related .tags .tagName := by decide +kernel
    rintro l hl (⟨hstrategy, -⟩ | ⟨hstrategy, -⟩)
    · rw [hleaves l hl] at hstrategy
      cases hstrategy
    · rw [hleaves l hl] at hstrategy
      cases hstrategy

/-- Beyond the limits of the database an object that the user sees is found neither by a query nor
by its negation, although no field misses it: an index passes over a hash that the pattern would
match, and the negation of a query that is just accepted is nested too deeply. -/
theorem negation_inexact : shelf.isIntact = true ∧ shelf.FillsColumns ∧ shelf.HasRecords ∧
    shelf.HoldsDocuments ∧
    (⟨2, ['\uFFFE'], "object".toList, "2021-01-05 00:00:00".toList⟩ : ObjectRecord) ∈
      shelf.rows .objects ∧
    shelf.Sees ['u'] ⟨2, ['\uFFFE'], "object".toList, "2021-01-05 00:00:00".toList⟩ ∧
    (Query.parse "dhash:\uFFFD*".toList = .ok (.field "dhash".toList (.word ['\uFFFD', '*'])) ∧
      Query.parse "NOT dhash:\uFFFD*".toList =
        .ok (.negated (.field "dhash".toList (.word ['\uFFFD', '*']))) ∧
      (∀ l ∈ (Query.field "dhash".toList (.word ['\uFFFD', '*'])).leaves none none,
        l.1.strategy = .text .objectDhash) ∧
      shelf.found? ['u'] .default "dhash:\uFFFD*".toList = some (0, []) ∧
      shelf.found? ['u'] .default "NOT dhash:\uFFFD*".toList = some (1, [['p']])) ∧
    (shelf.found? ['u'] .default (List.replicate 38 '!' ++ "tag:a".toList) = some (0, []) ∧
      (∃ p, shelf.plan ['u'] .default
        ("NOT ".toList ++ List.replicate 38 '!' ++ "tag:a".toList) = .ok p) ∧
      shelf.found? ['u'] .default
        ("NOT ".toList ++ List.replicate 38 '!' ++ "tag:a".toList) = none) := by
  refine ⟨by decide +kernel, fillsColumns_shelf, hasRecords_shelf, holdsDocuments_shelf,
    by decide +kernel, ?_, ⟨eq_ok_of_toOption (by decide +kernel),
      eq_ok_of_toOption (by decide +kernel), by decide +kernel, ?_, ?_⟩,
    ?_, exists_ok_of_isSome (by decide +kernel), ?_⟩
  · refine ⟨⟨1, ['u']⟩, by simp [shelf], rfl, ⟨1, ['g'], ['[', ']']⟩, by simp [shelf],
      ⟨⟨1, 1⟩, by simp [shelf], rfl, rfl⟩, .inr ⟨⟨2, 1, "added".toList, .empty⟩, ?_, rfl, rfl⟩⟩
    simp [shelf]
  · exact found?_eq_some (by decide +kernel) (by decide +kernel)
  · exact found?_eq_some (by decide +kernel) (by decide +kernel)
  · exact found?_eq_some (by decide +kernel) (by decide +kernel)
  · exact found?_eq_none (by decide +kernel)

end Database

end SampleSearch
