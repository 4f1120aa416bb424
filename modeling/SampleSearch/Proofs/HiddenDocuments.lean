import SampleSearch.Proofs.CourseCoverage
import SampleSearch.Proofs.Noninterference
import SampleSearch.Proofs.RowOrder

/-!
# Documents that a user does not see

The documents of an object that the user sees may keep a condition from being decided, and the
search fails. Which objects are looked at before, and which are not looked at any more, depends on
the course. An object that the user does not see fails the test of the access condition wherever
that stands in the course. As long as the other tests can be decided for it, it is passed over, and
the search gives the same answer or fails with the same error as without it.
-/

namespace SampleSearch

section Selecting

variable {α : Type} {f g : α → Option Bool} {as : List α}

theorem selectWith?_eq (f : α → Option Bool) (as : List α) :
    selectWith? f as =
      if as.all fun a => (f a).isSome then some (as.filter fun a => f a == some true)
      else none := by
  induction as with
  | nil => rfl
  | cons a as ih =>
    rw [selectWith?, ih]
    cases ha : f a with
    | none => simp [ha]
    | some chosen =>
      by_cases has : (as.all fun a => (f a).isSome) = true
      · cases chosen <;> simp [ha, has]
      · simp [ha, has]

theorem firstWith?_congr (h : ∀ a ∈ as, f a = g a) (n : Nat) :
    firstWith? f n as = firstWith? g n as := by
  induction as generalizing n with
  | nil => cases n <;> rfl
  | cons a as ih =>
    have has := ih fun b hb => h b (List.mem_cons_of_mem a hb)
    cases n with
    | zero => rfl
    | succ n => simp only [firstWith?, h a (by simp), has]

/-- What certainly lacks the property is passed over. -/
theorem firstWith?_filter (f : α → Option Bool) (n : Nat) (as : List α) :
    firstWith? f n (as.filter fun a => f a != some false) = firstWith? f n as := by
  induction as generalizing n with
  | nil => rfl
  | cons a as ih =>
    cases n with
    | zero =>
      cases hlist : (a :: as).filter fun a => f a != some false <;> rfl
    | succ n =>
      rw [List.filter_cons]
      cases ha : f a with
      | none => simp [firstWith?, ha]
      | some chosen => cases chosen <;> simp [firstWith?, ha, ih]

theorem mem_of_firstWith? {n : Nat} {bs : List α} (h : firstWith? f n as = some bs) :
    ∀ b ∈ bs, b ∈ as ∧ f b = some true := by
  induction as generalizing n bs with
  | nil => cases n <;> simp_all [firstWith?]
  | cons a as ih =>
    cases n with
    | zero => simp_all [firstWith?]
    | succ n =>
      intro b hb
      rw [firstWith?] at h
      split at h
      · cases h
      · rename_i ha
        obtain ⟨cs, hcs, rfl⟩ := Option.map_eq_some_iff.1 h
        rcases List.mem_cons.1 hb with rfl | hb
        · exact ⟨by simp, ha⟩
        · obtain ⟨hmem, hb⟩ := ih hcs b hb
          exact ⟨List.mem_cons_of_mem a hmem, hb⟩
      · obtain ⟨hmem, hb⟩ := ih h b hb
        exact ⟨List.mem_cons_of_mem a hmem, hb⟩

end Selecting

namespace Test

variable {P : Condition → Prop} {db db₁ db₂ : Database} {settled : List (Column × Literal)}
  {r : ObjectRecord}

mutual

theorem isSome_passes?
    (h : ∀ c settles, P c → ((holds c settles).passes? db settled r).isSome = true) {t : Test}
    (ht : t.Obeys P) : (t.passes? db settled r).isSome = true := by
  cases t with
  | holds c settles => exact h c settles ht
  | joined s => rfl
  | starts octets => rfl
  | someOf courses =>
    rw [passes?]
    exact isSome_passesSome? h (eachObey_iff.1 ht)

theorem isSome_passesAll?
    (h : ∀ c settles, P c → ((holds c settles).passes? db settled r).isSome = true)
    {ts : List Test} (hts : ∀ t ∈ ts, t.Obeys P) :
    (passesAll? db settled r ts).isSome = true := by
  cases ts with
  | nil => rfl
  | cons t ts =>
    have hrest := isSome_passesAll? h fun u hu => hts u (List.mem_cons_of_mem t hu)
    obtain ⟨b, hb⟩ := Option.isSome_iff_exists.1 (isSome_passes? h (hts t (by simp)))
    rw [passesAll?, hb]
    cases b with
    | true => exact hrest
    | false => rfl

theorem isSome_passesSome?
    (h : ∀ c settles, P c → ((holds c settles).passes? db settled r).isSome = true)
    {courses : List (List Test)} (hcs : ∀ ts ∈ courses, AllObey P ts) :
    (passesSome? db settled r courses).isSome = true := by
  cases courses with
  | nil => rfl
  | cons ts rest =>
    have hfirst := isSome_passesAll? h (allObey_iff.1 (hcs ts (by simp)))
    have hrest := isSome_passesSome? h fun us hu => hcs us (List.mem_cons_of_mem ts hu)
    obtain ⟨b, hb⟩ := Option.isSome_iff_exists.1 hfirst
    obtain ⟨d, hd⟩ := Option.isSome_iff_exists.1 hrest
    rw [passesSome?, hb, hd]
    rfl

end

theorem passesAll?_eq_false {ts : List Test}
    (hsome : ∀ t ∈ ts, (t.passes? db settled r).isSome = true) {t : Test} (ht : t ∈ ts)
    (hfails : t.passes? db settled r = some false) :
    passesAll? db settled r ts = some false := by
  induction ts with
  | nil => cases ht
  | cons u ts ih =>
    obtain ⟨b, hb⟩ := Option.isSome_iff_exists.1 (hsome u (by simp))
    rw [passesAll?, hb]
    cases b with
    | false => rfl
    | true =>
      rcases List.mem_cons.1 ht with rfl | ht
      · rw [hb] at hfails
        cases hfails
      · exact ih (fun v hv => hsome v (List.mem_cons_of_mem u hv)) ht

mutual

theorem passes?_congr
    (h : ∀ c settles, P c →
      (holds c settles).passes? db₁ settled r = (holds c settles).passes? db₂ settled r)
    (hrows : ∀ s, db₁.hasRowOf s r.id = db₂.hasRowOf s r.id) {t : Test} (ht : t.Obeys P) :
    t.passes? db₁ settled r = t.passes? db₂ settled r := by
  cases t with
  | holds c settles => exact h c settles ht
  | joined s => rw [passes?, passes?, hrows]
  | starts octets => rfl
  | someOf courses =>
    rw [passes?, passes?]
    exact passesSome?_congr h hrows (eachObey_iff.1 ht)

theorem passesAll?_congr
    (h : ∀ c settles, P c →
      (holds c settles).passes? db₁ settled r = (holds c settles).passes? db₂ settled r)
    (hrows : ∀ s, db₁.hasRowOf s r.id = db₂.hasRowOf s r.id) {ts : List Test}
    (hts : ∀ t ∈ ts, t.Obeys P) :
    passesAll? db₁ settled r ts = passesAll? db₂ settled r ts := by
  cases ts with
  | nil => rfl
  | cons t ts =>
    have hfirst := passes?_congr h hrows (hts t (by simp))
    have hrest := passesAll?_congr h hrows fun u hu => hts u (List.mem_cons_of_mem t hu)
    rw [passesAll?, passesAll?, hfirst, hrest]

theorem passesSome?_congr
    (h : ∀ c settles, P c →
      (holds c settles).passes? db₁ settled r = (holds c settles).passes? db₂ settled r)
    (hrows : ∀ s, db₁.hasRowOf s r.id = db₂.hasRowOf s r.id) {courses : List (List Test)}
    (hcs : ∀ ts ∈ courses, AllObey P ts) :
    passesSome? db₁ settled r courses = passesSome? db₂ settled r courses := by
  cases courses with
  | nil => rfl
  | cons ts rest =>
    have hfirst := passesAll?_congr h hrows (allObey_iff.1 (hcs ts (by simp)))
    have hrest := passesSome?_congr h hrows fun us hu => hcs us (List.mem_cons_of_mem ts hu)
    rw [passesSome?, passesSome?, hfirst, hrest]

end

end Test

namespace Condition

instance {P Q : Condition → Prop} [IsInherited P] [IsInherited Q] :
    IsInherited fun c => P c ∧ Q c where
  all cs h c hc := ⟨IsInherited.all cs h.1 c hc, IsInherited.all cs h.2 c hc⟩
  any cs h c hc := ⟨IsInherited.any cs h.1 c hc, IsInherited.any cs h.2 c hc⟩

instance (db : Database) (s : Scope) : IsInherited fun c => c.isReadable db s = true where
  all _ h := allReadable_iff.1 (by simpa only [isReadable] using h)
  any _ h := allReadable_iff.1 (by simpa only [isReadable] using h)

end Condition

namespace Database

variable {db db₁ db₂ : Database} {login text : Text} {o : SearchOptions} {r : ObjectRecord}

theorem covers_self (db : Database) (id : Int) : db.Covers db id :=
  fun _ row hrow howner => ⟨row, hrow, howner, rfl⟩

def outcome (db : Database) (c : Condition) (purpose : Purpose) (r : ObjectRecord) : Option Bool :=
  Test.passesAll? db c.outline.settled r (c.course purpose).tests

theorem isSome_passes?_of_mem_course {c : Condition} (hc : c.IsRegular) (ho : c.IsOrderly)
    (hread : c.isReadable db (db.scope r) = true) {purpose : Purpose} {t : Test}
    (ht : t ∈ (c.course purpose).tests) :
    (t.passes? db c.outline.settled r).isSome = true := by
  have hboth : c.IsRegular ∧ c.isReadable db (db.scope r) = true := ⟨hc, hread⟩
  refine Test.isSome_passes? (fun d settles hd => ?_) (Condition.obeys_of_mem_course
    (P := fun c => c.IsRegular ∧ c.isReadable db (db.scope r) = true) hboth purpose t ht)
  have hassumed : d.isReadable db ((db.scope r).assuming c.outline.settled) = true := by
    rw [← Condition.isReadable_congr (db.covers_self r.id) (db.covers_self r.id)
      (Condition.agrees_assuming ho _) (db.scope_objectId r) hd.1]
    exact hd.2
  cases settles with
  | true =>
    rw [Test.passes?, Condition.attains?_of_isReadable true hd.2]
    rfl
  | false =>
    rw [Test.passes?, Condition.attains?_of_isReadable true hassumed]
    rfl

theorem passes?_access_of_not_sees (hi : db.isIntact = true) {v : Viewer}
    (hv : db.viewer login = .ok v) (hsees : ¬ db.Sees login r)
    {settled : List (Column × Literal)}
    (hsettled : (db.scope r).Agrees ((db.scope r).assuming settled)) :
    (Test.holds v.access false).passes? db settled r = some false := by
  have hid := db.scope_objectId r
  have htruth : v.access.truth db ((db.scope r).assuming settled) ≠ .yes := by
    rw [Ne, Viewer.truth_access_eq_yes (hsettled.id ▸ hid), ← Viewer.truth_access_eq_yes hid,
      truth_access_iff_sees hi hv]
    exact hsees
  rw [Test.passes?, Condition.attains?_of_isReadable true (v.isReadable_access db _)]
  simpa [Truth.ofBool] using htruth

theorem exists_access_of_plan {p : Plan} (hp : db.plan login o text = .ok p) :
    p.condition.IsRegular ∧ p.condition.IsOrderly ∧ ∃ v front after,
      db.viewer login = .ok v ∧ p.condition = .all (front ++ v.access :: after) := by
  obtain ⟨v, hv, hcompile⟩ := plan_eq_ok hp
  obtain ⟨q, -, hq⟩ := bind_eq_ok_iff.1 hcompile
  refine ⟨Plan.isRegular_of_ofQuery hq, Plan.isOrderly_of_ofQuery hq, v, ?_⟩
  obtain ⟨c, b, after, -, -, rfl⟩ := Plan.ofQuery_eq_ok hq
  exact ⟨Plan.ofKind (b.getD .object) ++ [c], after, hv, by simp⟩

theorem outcome_of_not_sees (hi : db.isIntact = true) {p : Plan}
    (hp : db.plan login o text = .ok p) (hsees : ¬ db.Sees login r)
    (hread : p.condition.isReadable db (db.scope r) = true) (purpose : Purpose) :
    db.outcome p.condition purpose r = some false := by
  obtain ⟨hregular, horderly, v, front, after, hv, hcondition⟩ := exists_access_of_plan hp
  have haccess : Test.holds v.access false ∈ (p.condition.course purpose).tests := by
    rw [hcondition]
    exact v.access_mem_course purpose
  exact Test.passesAll?_eq_false
    (fun t ht => isSome_passes?_of_mem_course hregular horderly hread ht) haccess
    (passes?_access_of_not_sees hi hv hsees (Condition.agrees_assuming horderly _))

/-- An object that is the same in both databases goes through the same courses, or fails them, or
cannot be decided. -/
theorem SameAbout.outcome_eq (hi₁ : db₁.isIntact = true) (hi₂ : db₂.isIntact = true)
    (h : db₁.SameAbout db₂ r.id) (hattributes : db₁.attributesOf r.id = db₂.attributesOf r.id)
    {c : Condition} (hc : c.IsRegular) (ho : c.IsOrderly) (purpose : Purpose) :
    db₁.outcome c purpose r = db₂.outcome c purpose r := by
  have hid := db₁.scope_objectId r
  have hboth : c.IsRegular ∧ c.IsOrderly := ⟨hc, ho⟩
  refine Test.passesAll?_congr (fun d settles hd => ?_) (h.hasRowOf_eq hi₁ hi₂)
    (Condition.obeys_of_mem_course (P := fun c => c.IsRegular ∧ c.IsOrderly) hboth purpose)
  cases settles with
  | true =>
    rw [Test.passes?, Test.passes?, ← h.scope_eq hi₁ hi₂]
    exact Condition.attains?_congr h.covers h.covered hattributes hid true hd.1 hd.2
  | false =>
    have hassumed := (Condition.agrees_assuming ho (db₁.scope r)).id
    rw [Test.passes?, Test.passes?, ← h.scope_eq hi₁ hi₂]
    exact Condition.attains?_congr h.covers h.covered hattributes (hassumed ▸ hid) true hd.1 hd.2

/-- Whether two databases show a user the same, attributes together with their ids. -/
structure ShowsSameRows (login : Text) (db₁ db₂ : Database) : Prop
    extends ShowsSame login db₁ db₂ where
  attributes : ∀ o ∈ db₁.rows .objects, db₁.Sees login o → ∀ a : AttributeRecord,
    a.objectId = o.id → (a ∈ db₁.rows .attributes ↔ a ∈ db₂.rows .attributes)

def ReadsHidden (db : Database) (login : Text) (c : Condition) : Prop :=
  ∀ r ∈ db.rows .objects, ¬ db.Sees login r → c.isReadable db (db.scope r) = true

theorem ShowsSameRows.symm (h : ShowsSameRows login db₁ db₂) : ShowsSameRows login db₂ db₁ where
  toShowsSame := h.toShowsSame.symm
  attributes r hr hs a ha := by
    obtain ⟨hr', hs'⟩ := (h.objects r).2 ⟨hr, hs⟩
    exact (h.attributes r hr' hs' a ha).symm

theorem ShowsSame.isUntroubled (hi₁ : db₁.isIntact = true) (hi₂ : db₂.isIntact = true)
    (h : ShowsSame login db₁ db₂) {c : Condition} (hc : c.IsRegular)
    (hhidden : db₂.ReadsHidden login c) (hu : db₁.isUntroubled c = true) :
    db₂.isUntroubled c = true := by
  refine List.all_eq_true.2 fun r hr => ?_
  by_cases hsees : db₂.Sees login r
  · obtain ⟨hmem, hsees'⟩ := (h.objects r).2 ⟨hr, hsees⟩
    have habout := h.about r hmem hsees'
    rw [← habout.scope_eq hi₁ hi₂, ← Condition.isReadable_congr habout.covers habout.covered
      (.refl _) (db₁.scope_objectId r) hc]
    exact List.all_eq_true.1 hu r hmem
  · exact hhidden r hr hsees

section Searching

variable (hi₁ : db₁.isIntact = true) (hi₂ : db₂.isIntact = true) (ho₁ : db₁.IsOrdered)
  (ho₂ : db₂.IsOrdered) (h : ShowsSameRows login db₁ db₂) {p : Plan}
  (hp : db₁.plan login o text = .ok p) (hr₁ : db₁.ReadsHidden login p.condition)
  (hr₂ : db₂.ReadsHidden login p.condition)

include hi₁ hi₂ ho₁ ho₂ h hp hr₁

/-- What does not certainly fail a course is seen, and it is the same in the other database. -/
theorem outcome_of_ne_false {purpose : Purpose} (hr : r ∈ db₁.rows .objects)
    (houtcome : db₁.outcome p.condition purpose r ≠ some false) :
    db₁.Sees login r ∧ r ∈ db₂.rows .objects ∧
      db₁.outcome p.condition purpose r = db₂.outcome p.condition purpose r := by
  have hsees : db₁.Sees login r := by
    apply Classical.byContradiction
    intro hnot
    exact houtcome (outcome_of_not_sees hi₁ hp hnot (hr₁ r hr hnot) purpose)
  obtain ⟨hregular, horderly, -⟩ := exists_access_of_plan hp
  refine ⟨hsees, ((h.objects r).1 ⟨hr, hsees⟩).1, ?_⟩
  exact (h.about r hr hsees).outcome_eq hi₁ hi₂
    (attributesOf_eq hi₁ hi₂ ho₁ ho₂ (h.attributes r hr hsees)) hregular horderly purpose

include hr₂

theorem outcome_eq_iff (purpose : Purpose) (r : ObjectRecord) {x : Option Bool}
    (hx : x ≠ some false) :
    r ∈ db₁.rows .objects ∧ db₁.outcome p.condition purpose r = x ↔
      r ∈ db₂.rows .objects ∧ db₂.outcome p.condition purpose r = x := by
  have hp' : db₂.plan login o text = .ok p := by
    rw [← plan_eq_of_showsSame hi₁ hi₂ h.toShowsSame, hp]
  constructor
  · rintro ⟨hr, rfl⟩
    obtain ⟨-, hr', heq⟩ := outcome_of_ne_false hi₁ hi₂ ho₁ ho₂ h hp hr₁ hr hx
    exact ⟨hr', heq.symm⟩
  · rintro ⟨hr, rfl⟩
    obtain ⟨-, hr', heq⟩ := outcome_of_ne_false hi₂ hi₁ ho₂ ho₁ h.symm hp' hr₂ hr hx
    exact ⟨hr', heq.symm⟩

/-- Where the objects come in order, the same ones are found first. -/
theorem firstWith?_outcome_eq (purpose : Purpose) :
    firstWith? (db₁.outcome p.condition purpose) p.limit (sorted p (db₁.rows .objects)) =
      firstWith? (db₂.outcome p.condition purpose) p.limit (sorted p (db₂.rows .objects)) := by
  have houtcome := outcome_eq_iff hi₁ hi₂ ho₁ ho₂ h hp hr₁ hr₂ purpose
  have hlists : (sorted p (db₁.rows .objects)).filter
        (db₁.outcome p.condition purpose · != some false) =
      (sorted p (db₂.rows .objects)).filter (db₂.outcome p.condition purpose · != some false) := by
    have hordered₁ := SortOrder.pairwise_precedes_mergeSort p.sort (pairwise_ids hi₁)
    have hordered₂ := SortOrder.pairwise_precedes_mergeSort p.sort (pairwise_ids hi₂)
    refine SortOrder.eq_of_pairwise_precedes (hordered₁.filter _) (hordered₂.filter _) fun r => ?_
    simp only [List.mem_filter, mem_sorted, bne_iff_ne]
    constructor
    · rintro ⟨hr, hx⟩
      obtain ⟨hr', heq⟩ := (houtcome r hx).1 ⟨hr, rfl⟩
      exact ⟨hr', by rwa [heq]⟩
    · rintro ⟨hr, hx⟩
      obtain ⟨hr', heq⟩ := (houtcome r hx).2 ⟨hr, rfl⟩
      exact ⟨hr', by rwa [heq]⟩
  -- What certainly fails is passed over, and the rest comes in the same order.
  rw [← firstWith?_filter, ← firstWith?_filter (db₂.outcome p.condition purpose), hlists]
  apply firstWith?_congr
  intro r hr
  obtain ⟨hr, hx⟩ := List.mem_filter.1 hr
  exact ((houtcome r (by simpa using hx)).2 ⟨mem_sorted.1 hr, rfl⟩).2

/-- Where all objects are looked at, the same ones are found, or one of them cannot be decided. -/
theorem sorted_selectWith?_outcome_eq (purpose : Purpose) :
    (selectWith? (db₁.outcome p.condition purpose) (db₁.rows .objects)).map (sorted p) =
      (selectWith? (db₂.outcome p.condition purpose) (db₂.rows .objects)).map (sorted p) := by
  have houtcome := outcome_eq_iff hi₁ hi₂ ho₁ ho₂ h hp hr₁ hr₂ purpose
  have hdecided : ((db₁.rows .objects).all fun r => (db₁.outcome p.condition purpose r).isSome) =
      (db₂.rows .objects).all fun r => (db₂.outcome p.condition purpose r).isSome := by
    have hnone : ∀ db : Database,
        ((db.rows .objects).all fun r => (db.outcome p.condition purpose r).isSome) = true ↔
          ¬ ∃ r, r ∈ db.rows .objects ∧ db.outcome p.condition purpose r = none := by
      intro db
      simp [List.all_eq_true, Option.isSome_iff_ne_none]
    rw [Bool.eq_iff_iff, hnone, hnone]
    exact not_congr (exists_congr fun r => houtcome r (by simp))
  have hfound : sorted p
        ((db₁.rows .objects).filter (db₁.outcome p.condition purpose · == some true)) =
      sorted p ((db₂.rows .objects).filter (db₂.outcome p.condition purpose · == some true)) := by
    refine sorted_eq_of_mem_iff p ((pairwise_ids hi₁).filter _) ((pairwise_ids hi₂).filter _)
      fun r => ?_
    simp only [List.mem_filter, beq_iff_eq]
    exact houtcome r (by simp)
  rw [selectWith?_eq, selectWith?_eq, hdecided]
  split
  · simp only [Option.map_some, hfound]
  · rfl

/-- The same objects match in both databases, or neither can tell. -/
theorem sorted_matching?_eq (purpose : Purpose) :
    (db₁.matching? p.condition purpose (sorted p) p.limit).map (sorted p) =
      (db₂.matching? p.condition purpose (sorted p) p.limit).map (sorted p) := by
  obtain ⟨hregular, -⟩ := exists_access_of_plan hp
  have huntroubled : db₁.isUntroubled p.condition = db₂.isUntroubled p.condition :=
    Bool.eq_iff_iff.2 ⟨h.toShowsSame.isUntroubled hi₁ hi₂ hregular hr₂,
      h.toShowsSame.symm.isUntroubled hi₂ hi₁ hregular hr₁⟩
  cases hu : db₁.isUntroubled p.condition with
  | true =>
    rw [matching?_of_isUntroubled hu, matching?_of_isUntroubled (huntroubled ▸ hu)]
    have hmatches := sorted_eq_of_mem_iff p ((pairwise_ids hi₁).filter _)
      ((pairwise_ids hi₂).filter _) (mem_matches_iff hi₁ hi₂ h.toShowsSame hp purpose)
    simp only [Option.map_some, hmatches]
  | false =>
    have hfirst := firstWith?_outcome_eq hi₁ hi₂ ho₁ ho₂ h hp hr₁ hr₂ purpose
    have hselect := sorted_selectWith?_outcome_eq hi₁ hi₂ ho₁ ho₂ h hp hr₁ hr₂ purpose
    rw [matching?, matching?, ← huntroubled, hu]
    simp only [Bool.false_eq_true, if_false, following?]
    split
    · exact congrArg (Option.map (sorted p)) hfirst
    · exact hselect

omit hr₂ in
theorem sees_of_mem_matching? {purpose : Purpose} {os : List ObjectRecord}
    (hos : db₁.matching? p.condition purpose (sorted p) p.limit = some os) :
    ∀ r ∈ os, r ∈ db₁.rows .objects ∧ db₁.Sees login r := by
  have hseen : ∀ r, r ∈ db₁.rows .objects ∧ db₁.outcome p.condition purpose r = some true →
      r ∈ db₁.rows .objects ∧ db₁.Sees login r := by
    rintro r ⟨hr, htrue⟩
    have hdecided : db₁.outcome p.condition purpose r ≠ some false := by simp [htrue]
    exact ⟨hr, (outcome_of_ne_false hi₁ hi₂ ho₁ ho₂ h hp hr₁ hr hdecided).1⟩
  intro r hr
  unfold matching? at hos
  split at hos
  · obtain rfl := Option.some.inj hos
    obtain ⟨hmem, hmatch⟩ := List.mem_filter.1 hr
    exact ⟨hmem, (isMatch_of_showsSame hi₁ hi₂ h.toShowsSame hp hmem hmatch).1⟩
  · simp only [following?] at hos
    split at hos
    · obtain ⟨hmem, htrue⟩ := mem_of_firstWith? hos r hr
      exact hseen r ⟨mem_sorted.1 hmem, htrue⟩
    · change selectWith? (db₁.outcome p.condition purpose) _ = _ at hos
      rw [selectWith?_eq] at hos
      split at hos
      · obtain rfl := Option.some.inj hos
        obtain ⟨hmem, htrue⟩ := List.mem_filter.1 hr
        exact hseen r ⟨hmem, by simpa using htrue⟩
      · cases hos

theorem sorted_matching_eq (purpose : Purpose) :
    (db₁.matching p purpose).map (sorted p) = (db₂.matching p purpose).map (sorted p) := by
  have hmatching := sorted_matching?_eq hi₁ hi₂ ho₁ ho₂ h hp hr₁ hr₂ purpose
  unfold matching
  generalize db₁.matching? p.condition purpose (sorted p) p.limit = found₁ at hmatching
  generalize db₂.matching? p.condition purpose (sorted p) p.limit = found₂ at hmatching
  cases found₁ <;> cases found₂ <;> simp_all [Except.map, storageFailure]

theorem count_eq : db₁.count p = db₂.count p := by
  have hmatching := sorted_matching_eq hi₁ hi₂ ho₁ ho₂ h hp hr₁ hr₂ .counting
  have hcount : ∀ db : Database,
      db.count p = ((db.matching p .counting).map (sorted p)).map List.length := by
    intro db
    unfold count
    cases db.matching p .counting with
    | error e => rfl
    | ok os => simp [bind, Except.bind, Except.map, sorted]
  rw [hcount, hcount, hmatching]

theorem hits_eq : db₁.hits p = db₂.hits p := by
  have hmatching := sorted_matching_eq hi₁ hi₂ ho₁ ho₂ h hp hr₁ hr₂ .selecting
  have hhits : ∀ db : Database, db.hits p = ((db.matching p .selecting).map (sorted p)).bind
      fun os => (os.take p.limit).mapM db.hit := by
    intro db
    unfold Database.hits
    cases db.matching p .selecting <;> rfl
  rw [hhits, hhits, ← hmatching]
  cases hfound : db₁.matching p .selecting with
  | error e => rfl
  | ok os =>
    apply mapM_congr
    intro r hr
    have hos : db₁.matching? p.condition .selecting (sorted p) p.limit = some os := by
      unfold matching at hfound
      split at hfound
      · rename_i found hsome
        rw [hsome, Except.ok.inj hfound]
      · cases hfound
    obtain ⟨hmem, hsees⟩ := sees_of_mem_matching? hi₁ hi₂ ho₁ ho₂ h hp hr₁ hos r
      (mem_sorted.1 (List.mem_of_mem_take hr))
    exact (h.about r hmem hsees).hit_eq hi₁ hi₂

end Searching

/-- Objects that the user does not see cannot make a search fail as long as its condition can be
decided for them: whatever the documents of the others, a database with other objects that are not
seen, or without them, gives the same counts and answers or the same errors. -/
theorem failures_eq_of_showsSameRows (hi₁ : db₁.isIntact = true) (hi₂ : db₂.isIntact = true)
    (ho₁ : db₁.IsOrdered) (ho₂ : db₂.IsOrdered) (h : ShowsSameRows login db₁ db₂)
    (hread : ∀ p, db₁.plan login o text = .ok p →
      db₁.ReadsHidden login p.condition ∧ db₂.ReadsHidden login p.condition) :
    (db₁.plan login o text).bind db₁.count = (db₂.plan login o text).bind db₂.count ∧
      db₁.search login o text = db₂.search login o text := by
  unfold search
  rw [← plan_eq_of_showsSame hi₁ hi₂ h.toShowsSame]
  cases hp : db₁.plan login o text with
  | error e =>
    refine ⟨rfl, ?_⟩
    simp only [bind, Except.bind]
  | ok p =>
    obtain ⟨hr₁, hr₂⟩ := hread p hp
    have hcount := count_eq hi₁ hi₂ ho₁ ho₂ h hp hr₁ hr₂
    have hhits := hits_eq hi₁ hi₂ ho₁ ho₂ h hp hr₁ hr₂
    refine ⟨hcount, ?_⟩
    simp only [bind, Except.bind]
    rw [hcount, hhits]

theorem ShowsSameRows.of_rows
    (hrows : ∀ t, t ≠ .objects → t ≠ .attributes → db₁.rows t = db₂.rows t)
    (hobjects : ∀ r, db₁.Sees login r → (r ∈ db₁.rows .objects ↔ r ∈ db₂.rows .objects))
    (hattributes : ∀ r a, db₁.Sees login r → a.objectId = r.id →
      (a ∈ db₁.rows .attributes ↔ a ∈ db₂.rows .attributes)) :
    ShowsSameRows login db₁ db₂ where
  toShowsSame := .of_rows hrows hobjects hattributes
  attributes r _ hsees a howner := hattributes r a hsees howner

def wornDesk : Database where
  rows
    | .attributes => [⟨1, 1, ['k'], ['x']⟩]
    | t => desk.rows t

def wornDrawer : Database where
  rows
    | .attributes => [⟨1, 1, ['k'], ['x']⟩, ⟨2, 2, ['k'], ['\x7b', '\x7d']⟩]
    | t => drawer.rows t

def tornDrawer : Database where
  rows
    | .attributes => [⟨1, 2, ['k'], ['x']⟩]
    | t => drawer.rows t

theorem sees_one_iff {r : ObjectRecord} : desk.Sees ['u'] r ↔ r.id = 1 := by
  refine ⟨id_eq_of_sees_desk, fun hid => ?_⟩
  refine ⟨⟨1, ['u']⟩, by decide, rfl, ⟨1, ['g'], ['[', ']']⟩, by decide, ?_, .inr ?_⟩
  · exact ⟨⟨1, 1⟩, by decide, rfl, rfl⟩
  · exact ⟨⟨1, 1, "added".toList, .empty⟩, by decide, hid.symm, rfl⟩

theorem showsSameRows_wornDesk_wornDrawer : ShowsSameRows ['u'] wornDesk wornDrawer := by
  have hpair : ∀ {α : Type} {a b c : α}, c ≠ b → (c ∈ [a] ↔ c ∈ [a, b]) := by
    intro α a b c hne
    simp [hne]
  refine .of_rows (fun t ho ha => ?_) (fun r hsees => ?_) fun r a hsees howner => ?_
  · cases t with
    | objects => exact absurd rfl ho
    | attributes => exact absurd rfl ha
    | _ => rfl
  · have hid : r.id = 1 := id_eq_of_sees_desk hsees
    refine hpair fun heq => ?_
    rw [heq] at hid
    cases hid
  · have hid : a.objectId = 1 := howner.trans (id_eq_of_sees_desk hsees)
    refine hpair fun heq => ?_
    rw [heq] at hid
    cases hid

/-- A torn document that is seen makes a search fail, with another document behind it or not. -/
theorem failures_eq_wornDesk_wornDrawer :
    (wornDesk.plan ['u'] .default "attribute.k.a:x".toList).bind wornDesk.count =
        (wornDrawer.plan ['u'] .default "attribute.k.a:x".toList).bind wornDrawer.count ∧
      wornDesk.search ['u'] .default "attribute.k.a:x".toList =
        wornDrawer.search ['u'] .default "attribute.k.a:x".toList := by
  refine failures_eq_of_showsSameRows (by decide +kernel) (by decide +kernel) ?_ ?_
    showsSameRows_wornDesk_wornDrawer fun p hp => ?_
  · intro t
    cases t <;> decide
  · intro t
    cases t <;> decide
  · have hreadable : (wornDesk.plan ['u'] .default "attribute.k.a:x".toList).toOption.all
        (fun p => (wornDrawer.rows .objects).all fun r =>
          r.id == 1 || p.condition.isReadable wornDrawer (wornDrawer.scope r)) = true := by
      decide +kernel
    rw [hp] at hreadable
    have hreadable := List.all_eq_true.1 hreadable
    refine ⟨fun r hr hsees => ?_, fun r hr hsees => ?_⟩
    · rw [List.mem_singleton.1 hr] at hsees
      exact absurd (sees_one_iff.2 rfl) hsees
    · have hread := hreadable r hr
      rw [Bool.or_eq_true, beq_iff_eq] at hread
      exact hread.resolve_left fun hid => hsees (sees_one_iff.2 hid)

/-- A torn document that the user does not see makes a search fail. -/
theorem failures_ne_drawer_tornDrawer :
    drawer.isIntact = true ∧ tornDrawer.isIntact = true ∧ drawer.IsOrdered ∧
      tornDrawer.IsOrdered ∧ ShowsSameRows ['u'] drawer tornDrawer ∧
      drawer.found? ['u'] .default "attribute.k.a:x".toList = some (0, []) ∧
      tornDrawer.found? ['u'] .default "attribute.k.a:x".toList = none := by
  refine ⟨by decide +kernel, by decide +kernel, ?_, ?_, ?_, ?_, ?_⟩
  · intro t
    cases t <;> decide
  · intro t
    cases t <;> decide
  · refine .of_rows (fun t _ ha => ?_) (fun r _ => Iff.rfl) fun r a hsees howner => ?_
    · cases t with
      | attributes => exact absurd rfl ha
      | _ => rfl
    · have hid : a.objectId = 1 := howner.trans (id_eq_of_sees_desk hsees)
      constructor <;> intro ha <;> rw [List.mem_singleton.1 ha] at hid <;> cases hid
  · exact found?_eq_some (by decide +kernel) (by decide +kernel)
  · exact found?_eq_none (by decide +kernel)

end Database

end SampleSearch
