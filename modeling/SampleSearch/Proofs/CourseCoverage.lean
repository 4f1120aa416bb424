import SampleSearch.Proofs.CourseConditions

/-!
# What a course does not leave out

A term is left out of a course only if rows are found by it or by a term that follows from it. A
part of a condition that does not confine any key, such as the access condition of a viewer, is
therefore tested in every course: there always is a route, and it reaches all sources that the part
needs.
-/

namespace SampleSearch

namespace Conjunction

variable {j : Conjunction} {alternatives : Term → Test} {t : Term}

theorem exists_route (j : Conjunction) (depth : Nat) :
    ∃ r alternatives, (j.course depth).tests = j.testsOn alternatives r ∧
      r.IsOver (j.accesses depth Source.joined) Source.joined.length := by
  have haccess : ∀ s ∈ Source.joined, ∃ a ∈ j.accesses depth Source.joined,
      a.source = s ∧ ∀ x ∈ a.needs, x ∈ s.before := fun s hs => j.exists_access depth hs
  obtain ⟨a, ha, hsa, hna⟩ := haccess .object (by decide)
  obtain ⟨b, hb, hsb, hnb⟩ := haccess .file (by decide)
  obtain ⟨c, hc, hsc, hnc⟩ := haccess .config (by decide)
  obtain ⟨d, hd, hsd, hnd⟩ := haccess .blob (by decide)
  change ∀ x ∈ b.needs, x ∈ [Source.object] at hnb
  change ∀ x ∈ c.needs, x ∈ [Source.object, .file] at hnc
  change ∀ x ∈ d.needs, x ∈ [Source.object, .file, .config] at hnd
  have hchain : Route.IsChain [a, b, c, d] := by
    have hempty : Route.IsChain [] := fun _ _ h => (nomatch h)
    have h₁ := Route.isChain_append_singleton hempty hna (by simp)
    have h₂ := Route.isChain_append_singleton h₁ (a := b)
      (fun s hs => by simpa [hsa] using hnb s hs) (by simp [hsa, hsb])
    have h₃ := Route.isChain_append_singleton h₂ (a := c)
      (fun s hs => by simpa [hsa, hsb] using hnc s hs) (by simp [hsa, hsb, hsc])
    exact Route.isChain_append_singleton h₃ (a := d)
      (fun s hs => by simpa [hsa, hsb, hsc] using hnd s hs) (by simp [hsa, hsb, hsc, hsd])
  have hmem : ∀ x ∈ [a, b, c, d], x ∈ j.accesses depth Source.joined := by
    simp [ha, hb, hc, hd]
  obtain ⟨r, minded, hr⟩ := Route.exists_choose? hchain hmem j.wantsOrder
  refine ⟨r, alternatives (if j.wantsOrder then r.rows - 30 else r.rows) depth j, ?_,
    Route.isOver_of_choose? hr⟩
  have hlength : Source.joined.length = [a, b, c, d].length := rfl
  simp only [course, hlength, hr]

theorem mem_filter_append_filter {p q : Term → Bool} {ts : List Term} (h : t ∈ ts)
    (hq : q t = false) : t ∈ ts.filter p ++ ts.filter fun u => !p u && !q u := by
  cases hp : p t with
  | true => exact List.mem_append_left _ (List.mem_filter.2 ⟨h, hp⟩)
  | false => exact List.mem_append_right _ (List.mem_filter.2 ⟨h, by simp [hp, hq]⟩)

theorem mem_arranged {a : Access} {isOuter : Bool} {ts : List Term} (h : t ∈ ts) :
    t ∈ a.arranged isOuter ts := by
  unfold Access.arranged
  simp only
  split
  · exact h
  · cases hrelated : t.looksAtRelated with
    | true => exact List.mem_append_right _ (List.mem_filter.2 ⟨h, hrelated⟩)
    | false => exact List.mem_append_left _ (mem_filter_append_filter h hrelated)

/-- A term that no access answers is tested once all that it needs is reached. -/
theorem test_mem_testsAlong {as : List Access} {reached : List Source} {left : List Term}
    (ht : t ∈ left) (hanswers : ∀ a ∈ as, a.answers t = false)
    (hneeds : ∀ s ∈ t.needs, s ∈ reached ++ as.map Access.source) (has : as ≠ []) :
    t.test ∈ j.testsAlong alternatives reached left as := by
  induction as generalizing reached left with
  | nil => exact absurd rfl has
  | cons a as ih =>
    have hleft : t ∈ left.filter fun u => !a.answers u := by
      simp [List.mem_filter, ht, hanswers a (by simp)]
    unfold testsAlong
    by_cases hripe : t.needs.all (reached ++ [a.source]).contains = true
    · refine List.mem_append_left _ (List.mem_append_right _ (List.mem_map_of_mem ?_))
      exact mem_arranged (List.mem_filter.2 ⟨hleft, hripe⟩)
    · refine List.mem_append_right _ (ih ?_ ?_ ?_ ?_)
      · exact List.mem_filter.2 ⟨hleft, by simpa using hripe⟩
      · exact fun b hb => hanswers b (List.mem_cons_of_mem a hb)
      · simpa using hneeds
      · rintro rfl
        refine hripe (List.all_eq_true.2 fun s hs => ?_)
        simpa using hneeds s hs

theorem test_mem_testsOn {r : Route} (ht : t ∈ j.terms) (hderived : t.isDerived = false)
    (hanswers : ∀ a ∈ r.accesses, a.answers t = false) (hneeds : ∀ s ∈ t.needs, s ∈ r.sources)
    (hroute : r.accesses ≠ []) : t.test ∈ j.testsOn alternatives r := by
  unfold testsOn
  by_cases hconstant : t.isConstant = true
  · exact List.mem_append_left _ (List.mem_map_of_mem (List.mem_filter.2 ⟨ht, hconstant⟩))
  · refine List.mem_append_right _ (test_mem_testsAlong ?_ hanswers ?_ hroute)
    · simp [List.mem_filter, ht, hderived, hconstant]
    · simpa [Route.sources] using hneeds

/-- A term is tested if nothing that serves it confines a key. -/
theorem test_mem_course (ht : t ∈ j.terms) (hderived : t.isDerived = false)
    (hneeds : ∀ s ∈ t.needs, s ∈ Source.joined)
    (hfree : ∀ u ∈ j.terms, u.serves t = true → u.bound = none) (depth : Nat) :
    t.test ∈ (j.course depth).tests := by
  obtain ⟨r, alternatives, htests, hover⟩ := j.exists_route depth
  have hmade : ∀ a ∈ r.accesses, ∃ s ∈ Source.joined, a.IsMadeOf s j.terms :=
    fun a ha => isMadeOf_of_mem_accesses depth _ a (hover.uses a ha)
  have hanswers : ∀ a ∈ r.accesses, a.answers t = false := by
    intro a ha
    obtain ⟨s, -, hterms⟩ := hmade a ha
    rw [← Bool.not_eq_true, Access.answers, Bool.and_eq_true, List.any_eq_true]
    rintro ⟨hindex, u, hu, hserves⟩
    have hbound := hterms.isBound hindex u hu
    rw [hfree u (hterms.mem u hu) hserves] at hbound
    cases hbound
  have hsources : ∀ a ∈ j.accesses depth Source.joined, a.source ∈ Source.joined := by
    intro a ha
    obtain ⟨s, hs, hterms⟩ := isMadeOf_of_mem_accesses depth _ a ha
    exact hterms.source ▸ hs
  rw [htests]
  refine test_mem_testsOn ht hderived hanswers
    (fun s hs => hover.mem_sources hsources (hneeds s hs)) ?_
  rw [← List.length_pos_iff, hover.length]
  decide

end Conjunction

namespace Outline

variable {o : Outline}

theorem derived_eq_nil {d : Condition} {settles : Bool} (hstarts : d.starts = [])
    (hcommon : d.commonColumn? = none) {t : Term} (ht : t.claim = .holds d settles) :
    o.derived t = [] := by
  simp only [derived, ht, hstarts, hcommon]
  rfl

theorem length_place_of_mem_derived {t u : Term} (h : u ∈ o.derived t) :
    u.place.length = t.place.length + 1 := by
  unfold derived at h
  obtain ⟨p, _, rfl⟩ := List.mem_map.1 h
  rw [List.length_append, List.length_singleton]

theorem origin_of_mem_derived {t u : Term} (h : u ∈ o.derived t) :
    u.origin = none ∨ u.origin = some t.place := by
  unfold derived at h
  obtain ⟨p, _, rfl⟩ := List.mem_map.1 h
  simp only
  split
  · exact .inr rfl
  · exact .inl rfl

theorem needs_subset (settled : List Column) (c : Condition) :
    ∀ s ∈ c.needs settled, s ∈ Source.joined :=
  fun _ hs => (List.mem_filter.1 hs).1

theorem exists_term {claims : List Claim} {d : Condition} (hd : .holds d false ∈ claims)
    (hbound : d.bound? = none) (hstarts : d.starts = []) (hcommon : d.commonColumn? = none) :
    ∃ t ∈ o.terms [] claims, t.test = .holds d false ∧ t.isDerived = false ∧
      (∀ s ∈ t.needs, s ∈ Source.joined) ∧
      ∀ u ∈ o.terms [] claims, u.serves t = true → u.bound = none := by
  obtain ⟨i, hi⟩ := List.mem_iff_getElem?.1 hd
  have hat : ∀ k claim, (claim, k) ∈ claims.zipIdx → [k] = [i] → claim = .holds d false := by
    intro k claim hk hki
    obtain rfl : k = i := by simpa using hki
    rw [List.mem_zipIdx_iff_getElem?, hi] at hk
    exact (Option.some.inj hk).symm
  have hplace : ∀ k claim, (o.term [k] claim).place = [k] := by
    intro k claim
    cases claim <;> rfl
  have horigin : ∀ k claim, (o.term [k] claim).origin = none := by
    intro k claim
    cases claim <;> rfl
  refine ⟨o.term [i] (.holds d false), ?_, rfl, rfl, needs_subset _ d, ?_⟩
  · refine List.mem_append_left _ (List.mem_map.2 ⟨(.holds d false, i), ?_, rfl⟩)
    rw [List.mem_zipIdx_iff_getElem?]
    exact hi
  · -- Only the term and what is derived from it could serve it, and nothing is derived from it.
    intro u hu hserves
    rw [Term.serves, Bool.or_eq_true, Term.isSame, beq_iff_eq, beq_iff_eq, hplace] at hserves
    rcases List.mem_append.1 hu with hu | hu
    · obtain ⟨⟨claim, k⟩, hk, rfl⟩ := List.mem_map.1 hu
      rcases hserves with hsame | hfollows
      · rw [show o.term ([] ++ [k]) claim = o.term [k] claim from rfl, hplace] at hsame
        obtain rfl := hat k claim hk hsame
        exact hbound
      · rw [show o.term ([] ++ [k]) claim = o.term [k] claim from rfl, horigin] at hfollows
        cases hfollows
    · obtain ⟨v, hv, hu⟩ := List.mem_flatMap.1 hu
      obtain ⟨⟨claim, k⟩, hk, rfl⟩ := List.mem_map.1 (List.mem_reverse.1 hv)
      change u ∈ o.derived (o.term [k] claim) at hu
      rcases hserves with hsame | hfollows
      · have hlength := length_place_of_mem_derived hu
        rw [hsame, hplace] at hlength
        cases hlength
      · rcases origin_of_mem_derived hu with hnone | hsome
        · rw [hfollows] at hnone
          cases hnone
        · rw [hfollows, hplace] at hsome
          obtain rfl := hat k claim hk (Option.some.inj hsome).symm
          rw [derived_eq_nil hstarts hcommon rfl] at hu
          cases hu

end Outline

namespace Condition

theorem holds_mem_settle {cs : List Condition} {d : Condition} (hd : d ∈ cs)
    (hbound : d.bound? = none) : .holds d false ∈ (settle cs).1 := by
  induction cs with
  | nil => cases hd
  | cons c cs ih =>
    obtain ⟨settles, hsettle, hcompare⟩ := settle_cons c cs
    rw [hsettle]
    rcases List.mem_cons.1 hd with rfl | hd
    · cases settles with
      | false => simp
      | true =>
        obtain ⟨e, l, rfl⟩ := hcompare rfl
        cases hbound
    · exact List.mem_cons_of_mem _ (ih hd)

/-- A part of a condition that does not confine any key is tested in every course. -/
theorem test_mem_course {c d : Condition} (hd : d ∈ c.conjuncts) (hbound : d.bound? = none)
    (hstarts : d.starts = []) (hcommon : d.commonColumn? = none) (purpose : Purpose) :
    Test.holds d false ∈ (c.course purpose).tests := by
  have hclaim : .holds d false ∈ c.outline.claims :=
    List.mem_append_left _ (holds_mem_settle hd hbound)
  obtain ⟨t, ht, htest, hderived, hneeds, hfree⟩ :=
    Outline.exists_term (o := c.outline) hclaim hbound hstarts hcommon
  rw [← htest]
  unfold course
  exact Conjunction.test_mem_course ht hderived hneeds hfree c.depth

theorem conjuncts_all (cs : List Condition) (h : cs ≠ []) :
    (all cs).conjuncts = cs.flatMap conjuncts := by
  have hall : ∀ ds : List Condition, conjunctsOfAll ds = ds.flatMap conjuncts := by
    intro ds
    induction ds with
    | nil => rfl
    | cons d ds ih => rw [conjunctsOfAll, ih, List.flatMap_cons]
  cases cs with
  | nil => exact absurd rfl h
  | cons c cs => rw [conjuncts, hall, List.flatMap_cons]

end Condition

theorem Viewer.access_mem_course (v : Viewer) {front after : List Condition} (purpose : Purpose) :
    Test.holds v.access false ∈
      ((Condition.all (front ++ v.access :: after)).course purpose).tests := by
  have hparts : front ++ v.access :: after ≠ [] := by simp
  have hplain : v.access.conjuncts = [v.access] ∧ v.access.bound? = none ∧ v.access.starts = [] ∧
      v.access.commonColumn? = none := by
    unfold access accessTo
    split
    · exact ⟨rfl, rfl, rfl, rfl⟩
    · split
      · exact ⟨rfl, rfl, rfl, rfl⟩
      · exact ⟨rfl, rfl, rfl, rfl⟩
  obtain ⟨hconjuncts, hbound, hstarts, hcommon⟩ := hplain
  refine Condition.test_mem_course ?_ hbound hstarts hcommon purpose
  rw [Condition.conjuncts_all _ hparts, List.flatMap_append, List.flatMap_cons, hconjuncts]
  simp

end SampleSearch
