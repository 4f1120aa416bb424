import SampleSearch.Proofs.LeafMeaning
import SampleSearch.Search.Answer

/-!
# The order of upload

An object precedes another one if that one stands strictly behind its time of upload and its id.
This is a strict order in which any two objects with different ids are comparable, so a list of
objects in this order is determined by its members. Sorting puts objects into this order, and the
condition of a pivot is true of what stands strictly behind it.
-/

namespace SampleSearch

namespace SortOrder

/-- Whether an object stands strictly behind a time and an id. -/
def IsBehind (sort : SortOrder) (time : Text) (id : Int) (o : ObjectRecord) : Prop :=
  match sort with
  | .newest => o.uploadTime < time ∨ (o.uploadTime = time ∧ o.id < id)
  | .oldest => time < o.uploadTime ∨ (o.uploadTime = time ∧ id < o.id)

instance (sort : SortOrder) (time : Text) (id : Int) (o : ObjectRecord) :
    Decidable (sort.IsBehind time id o) := by
  cases sort <;> exact inferInstanceAs (Decidable (_ ∨ _))

/-- Whether an object comes strictly before another one. -/
def Precedes (sort : SortOrder) (a b : ObjectRecord) : Prop := sort.IsBehind a.uploadTime a.id b

instance (sort : SortOrder) (a b : ObjectRecord) : Decidable (sort.Precedes a b) :=
  inferInstanceAs (Decidable (sort.IsBehind a.uploadTime a.id b))

variable {sort : SortOrder} {a b c : ObjectRecord}

theorem not_precedes_self (sort : SortOrder) (a : ObjectRecord) : ¬ sort.Precedes a a := by
  intro h
  have htime := List.lt_irrefl a.uploadTime
  cases sort with
  | newest =>
    rcases h with h | ⟨_, h⟩
    · exact htime h
    · omega
  | oldest =>
    rcases h with h | ⟨_, h⟩
    · exact htime h
    · omega

theorem Precedes.trans (hab : sort.Precedes a b) (hbc : sort.Precedes b c) :
    sort.Precedes a c := by
  cases sort with
  | newest =>
    rcases hab with hab | ⟨hab, hid⟩
    · rcases hbc with hbc | ⟨hbc, _⟩
      · exact .inl (List.lt_trans hbc hab)
      · exact .inl (by rw [hbc]; exact hab)
    · rcases hbc with hbc | ⟨hbc, hid'⟩
      · exact .inl (by rw [← hab]; exact hbc)
      · exact .inr ⟨hbc.trans hab, by omega⟩
  | oldest =>
    rcases hab with hab | ⟨hab, hid⟩
    · rcases hbc with hbc | ⟨hbc, _⟩
      · exact .inl (List.lt_trans hab hbc)
      · exact .inl (by rw [hbc]; exact hab)
    · rcases hbc with hbc | ⟨hbc, hid'⟩
      · exact .inl (by rw [← hab]; exact hbc)
      · exact .inr ⟨hbc.trans hab, by omega⟩

theorem Precedes.asymm (hab : sort.Precedes a b) : ¬ sort.Precedes b a :=
  fun hba => not_precedes_self sort a (hab.trans hba)

theorem time_trichotomy (s t : Text) : s < t ∨ s = t ∨ t < s := by
  by_cases hst : s < t
  · exact .inl hst
  · by_cases hts : t < s
    · exact .inr (.inr hts)
    · exact .inr (.inl (List.le_antisymm hts hst))

/-- Objects with different ids are comparable. -/
theorem precedes_or_precedes (sort : SortOrder) (h : a.id ≠ b.id) :
    sort.Precedes a b ∨ sort.Precedes b a := by
  have hid : a.id < b.id ∨ b.id < a.id := by omega
  cases sort with
  | newest =>
    rcases time_trichotomy a.uploadTime b.uploadTime with ht | ht | ht
    · exact .inr (.inl ht)
    · rcases hid with hid | hid
      · exact .inr (.inr ⟨ht, hid⟩)
      · exact .inl (.inr ⟨ht.symm, hid⟩)
    · exact .inl (.inl ht)
  | oldest =>
    rcases time_trichotomy a.uploadTime b.uploadTime with ht | ht | ht
    · exact .inl (.inl ht)
    · rcases hid with hid | hid
      · exact .inl (.inr ⟨ht.symm, hid⟩)
      · exact .inr (.inr ⟨ht, hid⟩)
    · exact .inr (.inl ht)

theorem beforeOrSame_iff : sort.beforeOrSame a b = true ↔
    sort.Precedes a b ∨ (a.uploadTime = b.uploadTime ∧ a.id = b.id) := by
  cases sort with
  | newest =>
    simp only [beforeOrSame, Bool.or_eq_true, Bool.and_eq_true, decide_eq_true_eq, beq_iff_eq,
      Precedes, IsBehind]
    constructor
    · rintro (h | ⟨ht, hid⟩)
      · exact .inl (.inl h)
      · by_cases h : a.id = b.id
        · exact .inr ⟨ht, h⟩
        · exact .inl (.inr ⟨ht.symm, by omega⟩)
    · rintro ((h | ⟨ht, hid⟩) | ⟨ht, hid⟩)
      · exact .inl h
      · exact .inr ⟨ht.symm, by omega⟩
      · exact .inr ⟨ht, by omega⟩
  | oldest =>
    simp only [beforeOrSame, Bool.or_eq_true, Bool.and_eq_true, decide_eq_true_eq, beq_iff_eq,
      Precedes, IsBehind]
    constructor
    · rintro (h | ⟨ht, hid⟩)
      · exact .inl (.inl h)
      · by_cases h : a.id = b.id
        · exact .inr ⟨ht, h⟩
        · exact .inl (.inr ⟨ht.symm, by omega⟩)
    · rintro ((h | ⟨ht, hid⟩) | ⟨ht, hid⟩)
      · exact .inl h
      · exact .inr ⟨ht.symm, by omega⟩
      · exact .inr ⟨ht, by omega⟩

theorem precedes_congr (ht : a.uploadTime = b.uploadTime) (hid : a.id = b.id) :
    (sort.Precedes a c ↔ sort.Precedes b c) ∧ (sort.Precedes c a ↔ sort.Precedes c b) := by
  cases sort <;> simp [Precedes, IsBehind, ht, hid]

theorem beforeOrSame_trans (sort : SortOrder) (a b c : ObjectRecord)
    (hab : sort.beforeOrSame a b = true) (hbc : sort.beforeOrSame b c = true) :
    sort.beforeOrSame a c = true := by
  rw [beforeOrSame_iff] at *
  rcases hab with hab | ⟨ht, hid⟩
  · rcases hbc with hbc | ⟨ht, hid⟩
    · exact .inl (hab.trans hbc)
    · exact .inl ((precedes_congr ht hid).2.1 hab)
  · rcases hbc with hbc | ⟨ht', hid'⟩
    · exact .inl ((precedes_congr ht hid).1.2 hbc)
    · exact .inr ⟨ht.trans ht', hid.trans hid'⟩

theorem beforeOrSame_total (sort : SortOrder) (a b : ObjectRecord) :
    (sort.beforeOrSame a b || sort.beforeOrSame b a) = true := by
  rw [Bool.or_eq_true, beforeOrSame_iff, beforeOrSame_iff]
  by_cases hid : a.id = b.id
  · have hids : ¬ a.id < b.id ∧ ¬ b.id < a.id := by omega
    rcases time_trichotomy a.uploadTime b.uploadTime with ht | ht | ht
    · cases sort with
      | newest => exact .inr (.inl (.inl ht))
      | oldest => exact .inl (.inl (.inl ht))
    · exact .inl (.inr ⟨ht, hid⟩)
    · cases sort with
      | newest => exact .inl (.inl (.inl ht))
      | oldest => exact .inr (.inl (.inl ht))
  · rcases precedes_or_precedes sort hid with h | h
    · exact .inl (.inl h)
    · exact .inr (.inl h)

/-- Objects with different ids are sorted into the strict order. -/
theorem pairwise_precedes_mergeSort (sort : SortOrder) {os : List ObjectRecord}
    (h : os.Pairwise fun a b => a.id ≠ b.id) :
    (os.mergeSort sort.beforeOrSame).Pairwise sort.Precedes := by
  have hsorted := List.pairwise_mergeSort (beforeOrSame_trans sort) (beforeOrSame_total sort) os
  have hids : (os.mergeSort sort.beforeOrSame).Pairwise fun a b => a.id ≠ b.id :=
    h.perm (List.mergeSort_perm os _).symm fun hne heq => hne heq.symm
  refine (hsorted.and hids).imp fun {a b} hab => ?_
  rcases beforeOrSame_iff.1 hab.1 with hpre | ⟨_, hid⟩
  · exact hpre
  · exact absurd hid hab.2

/-- A list in the strict order is determined by its members. -/
theorem eq_of_pairwise_precedes {os ps : List ObjectRecord} (ho : os.Pairwise sort.Precedes)
    (hp : ps.Pairwise sort.Precedes) (h : ∀ o, o ∈ os ↔ o ∈ ps) : os = ps := by
  have hnodup : ∀ {qs : List ObjectRecord}, qs.Pairwise sort.Precedes → qs.Nodup := by
    intro qs hq
    refine hq.imp fun {a b} hab heq => ?_
    rw [heq] at hab
    exact not_precedes_self sort b hab
  have hperm : os.Perm ps := (List.perm_ext_iff_of_nodup (hnodup ho) (hnodup hp)).2 fun o => h o
  exact hperm.eq_of_pairwise (fun a b _ _ hab hba => absurd hba hab.asymm) ho hp

/-- What stands behind a member of an ordered list is the rest of the list. -/
theorem filter_isBehind {front rest : List ObjectRecord} {a : ObjectRecord}
    (h : (front ++ a :: rest).Pairwise sort.Precedes) :
    (front ++ a :: rest).filter (fun o => decide (sort.Precedes a o)) = rest := by
  obtain ⟨_, hrest, hfront⟩ := List.pairwise_append.1 h
  obtain ⟨ha, _⟩ := List.pairwise_cons.1 hrest
  have hnone : front.filter (fun o => decide (sort.Precedes a o)) = [] := by
    rw [List.filter_eq_nil_iff]
    intro o ho
    rw [decide_eq_true_eq]
    exact (hfront o ho a (by simp)).asymm
  have hall : rest.filter (fun o => decide (sort.Precedes a o)) = rest := by
    rw [List.filter_eq_self]
    intro o ho
    rw [decide_eq_true_eq]
    exact ha o ho
  rw [List.filter_append, hnone, List.nil_append,
    List.filter_cons_of_neg (by simp [not_precedes_self]), hall]

end SortOrder

namespace Cell

theorem stands_text_eq_yes {comparison : Comparison} {s t : Text} :
    (text s).stands comparison (text t) = .yes ↔ comparison.holds (compareTexts s t) = true := by
  rw [stands, compare?_text, Truth.ofOrdering, Truth.ofBool_eq_yes]

theorem stands_lt_int {m n : Int} : (int m).stands .lt (int n) = .yes ↔ m < n := by
  rw [stands, compare?_int, Truth.ofOrdering, Truth.ofBool_eq_yes]
  exact beq_iff_eq.trans compareOfLessAndEq_eq_lt

theorem stands_gt_int {m n : Int} : (int m).stands .gt (int n) = .yes ↔ n < m := by
  rw [stands, compare?_int, Truth.ofOrdering, Truth.ofBool_eq_yes]
  exact beq_iff_eq.trans
    (compareOfLessAndEq_eq_gt Int.le_antisymm Int.le_total Int.not_le m n)

theorem compareTexts_eq_lt {s t : Text} : compareTexts s t = .lt ↔ s < t :=
  compareOfLessAndEq_eq_lt

theorem compareTexts_eq_gt {s t : Text} : compareTexts s t = .gt ↔ t < s := by
  have hasymm : ∀ {a b : Text}, a < b → ¬ b < a := fun hab hba =>
    List.lt_irrefl _ (List.lt_trans hab hba)
  rw [compareTexts, compareOfLessAndEq]
  rcases SortOrder.time_trichotomy s t with hlt | heq | hgt
  · simp only [hlt, hasymm hlt, if_true, reduceCtorEq]
  · simp only [heq, List.lt_irrefl, if_true, if_false, reduceCtorEq]
  · have hne : s ≠ t := by
      rintro rfl
      exact List.lt_irrefl s hgt
    simp only [hgt, hasymm hgt, hne, if_false]

end Cell

namespace Plan

open Condition

/-- The condition of a pivot is true of the objects strictly behind it. -/
theorem truth_afterPosition {db : Database} {o : ObjectRecord} (sort : SortOrder) (p : Position) :
    (afterPosition sort p).truth db (db.scope o) = .yes ↔
      sort.IsBehind p.uploadTime.text p.id o := by
  have htime : ∀ comparison : Comparison,
      (compare (.column .objectUploadTime) comparison (.moment p.uploadTime)).truth db
        (db.scope o) = (Cell.text o.uploadTime).stands comparison (.text p.uploadTime.text) := by
    intro comparison
    rw [truth_compare]
    rfl
  have hid : ∀ comparison : Comparison,
      (compare (.column .objectId) comparison (.int p.id)).truth db (db.scope o) =
        (Cell.int o.id).stands comparison (.int p.id) := by
    intro comparison
    rw [truth_compare]
    rfl
  rw [afterPosition, truth, truthOfAny_eq_yes]
  simp only [List.mem_cons, List.not_mem_nil, or_false, exists_eq_or_imp, exists_eq_left]
  rw [truth_all, truthOfAll_eq_yes]
  simp only [List.mem_cons, List.not_mem_nil, or_false, forall_eq_or_imp, forall_eq, equals,
    htime, hid, Cell.stands_text_eq_yes]
  cases sort with
  | newest =>
    simp only [SortOrder.beyond, Comparison.holds, beq_iff_eq, Cell.compareTexts_eq_lt,
      Cell.compareTexts_eq_iff, Cell.stands_lt_int]
    rfl
  | oldest =>
    simp only [SortOrder.beyond, Comparison.holds, beq_iff_eq, Cell.compareTexts_eq_gt,
      Cell.compareTexts_eq_iff, Cell.stands_gt_int]
    rfl

end Plan

end SampleSearch
