import SampleSearch.Proofs.CompiledConditions
import SampleSearch.Condition.Readable

/-!
# Rows related to one object

Every related row has an owner, and a condition on the rows related to an object only depends on
the rows that the object owns. Two databases agree on an object if it owns the same rows in both,
as far as columns tell. They then agree on the truth of every regular condition on the object.
-/

namespace SampleSearch

namespace Cell

@[simp] theorem compare?_int_eq_iff (m n : Int) :
    compare? (int m) (int n) = some .eq ↔ m = n := by
  rw [compare?_int, Option.some.injEq]
  exact compareOfLessAndEq_eq_eq Int.le_refl Int.not_le

end Cell

namespace RelatedRow

def owner : RelatedRow → Int
  | tag ot _ => ot.objectId
  | comment r => r.objectId
  | altName r => r.fileId
  | attributeRow r => r.objectId
  | permission r => r.objectId

@[simp] theorem enter_objectId (row : RelatedRow) (s : Scope) :
    row.enter s .objectId = s .objectId := by cases row <;> rfl

theorem enter_eq_of_cell?_eq {row other : RelatedRow} (h : row.cell? = other.cell?) (s : Scope) :
    row.enter s = other.enter s := by
  funext c
  simp only [enter, h]

end RelatedRow

namespace Database

variable {db : Database} {r : Relation} {row : RelatedRow}

theorem cell?_link (h : row ∈ db.relatedRows r) : row.cell? r.link = some (.int row.owner) := by
  cases r with
  | tags =>
    obtain ⟨ot, _, htag⟩ := List.mem_flatMap.1 (show row ∈ db.taggedRows from h)
    obtain ⟨t, _, rfl⟩ := List.mem_map.1 htag
    rfl
  | comments =>
    obtain ⟨c, _, rfl⟩ := List.mem_map.1 h
    rfl
  | altNames =>
    obtain ⟨n, _, rfl⟩ := List.mem_map.1 h
    rfl
  | attributes =>
    obtain ⟨a, _, rfl⟩ := List.mem_map.1 h
    rfl
  | permissions =>
    obtain ⟨p, _, rfl⟩ := List.mem_map.1 h
    rfl

theorem belongs_iff (h : row ∈ db.relatedRows r) {s : Scope} {id : Int}
    (hs : s .objectId = .int id) :
    Condition.belongs r .objectId (row.enter s) = true ↔ row.owner = id := by
  rw [Condition.belongs, RelatedRow.enter_objectId, hs, RelatedRow.enter, cell?_link h]
  simp

/-- A condition on related rows asks for a row of the object of which the inner one is true. -/
theorem truth_related_eq_yes {s : Scope} {id : Int} (hs : s .objectId = .int id)
    {inner : Condition} :
    (Condition.related r .objectId inner).truth db s = .yes ↔
      ∃ row ∈ db.relatedRows r, row.owner = id ∧ inner.truth db (row.enter s) = .yes := by
  have hbool : ∀ b : Bool, Truth.ofBool b = .yes ↔ b = true := by
    intro b
    cases b <;> simp [Truth.ofBool]
  rw [Condition.truth, hbool, List.any_eq_true]
  constructor
  · rintro ⟨row, hrow, h⟩
    simp only [Bool.and_eq_true, beq_iff_eq] at h
    exact ⟨row, hrow, (belongs_iff hrow hs).1 h.1, h.2⟩
  · rintro ⟨row, hrow, howner, h⟩
    refine ⟨row, hrow, ?_⟩
    simp only [Bool.and_eq_true, beq_iff_eq]
    exact ⟨(belongs_iff hrow hs).2 howner, h⟩

/-- A condition on related rows is readable if the inner one is, for every row of the object. -/
theorem isReadable_related_iff {s : Scope} {id : Int} (hs : s .objectId = .int id)
    {inner : Condition} :
    (Condition.related r .objectId inner).isReadable db s = true ↔
      ∀ row ∈ db.relatedRows r, row.owner = id → inner.isReadable db (row.enter s) = true := by
  simp only [Condition.isReadable, List.all_eq_true, Bool.or_eq_true, Bool.not_eq_true']
  refine forall_congr' fun row => forall_congr' fun hrow => ?_
  rw [← belongs_iff hrow hs]
  cases Condition.belongs r .objectId (row.enter s) <;> simp

theorem truth_related_ne_unknown (db : Database) (r : Relation) (s : Scope) (outer : Column)
    (inner : Condition) : (Condition.related r outer inner).truth db s ≠ .unknown := by
  rw [Condition.truth]
  generalize List.any (db.relatedRows r) _ = b
  cases b <;> simp [Truth.ofBool]

end Database

/-- Every row of an object in the first database is one in the second, as far as columns tell. -/
def Database.Covers (db₁ db₂ : Database) (id : Int) : Prop :=
  ∀ r, ∀ row ∈ db₁.relatedRows r, row.owner = id →
    ∃ other ∈ db₂.relatedRows r, other.owner = id ∧ row.cell? = other.cell?

namespace Condition

variable {db₁ db₂ : Database} {id : Int}

theorem truth_related_yes_of_covers (h : db₁.Covers db₂ id) {s : Scope} (hs : s .objectId = .int id)
    {r : Relation} {c : Condition}
    (ih : ∀ {t : Scope}, t .objectId = .int id → c.truth db₁ t = c.truth db₂ t)
    (hyes : (related r .objectId c).truth db₁ s = .yes) :
    (related r .objectId c).truth db₂ s = .yes := by
  obtain ⟨row, hrow, howner, hc⟩ := (Database.truth_related_eq_yes hs).1 hyes
  obtain ⟨other, hother, howner', hcell⟩ := h r row hrow howner
  refine (Database.truth_related_eq_yes hs).2 ⟨other, hother, howner', ?_⟩
  rw [← RelatedRow.enter_eq_of_cell?_eq hcell, ← ih (by rw [RelatedRow.enter_objectId, hs])]
  exact hc

mutual

theorem truth_congr (h : db₁.Covers db₂ id) (h' : db₂.Covers db₁ id) {s : Scope}
    (hs : s .objectId = .int id) {c : Condition} (hc : c.IsRegular) :
    c.truth db₁ s = c.truth db₂ s := by
  cases c with
  | const b => simp only [truth]
  | compare o comparison l => simp only [truth]
  | like o pattern => simp only [truth]
  | among o ls => simp only [truth]
  | all cs => simpa only [truth] using truthOfAll_congr h h' hs hc
  | any cs => simpa only [truth] using truthOfAny_congr h h' hs hc
  | negated c =>
    have ih := truth_congr h h' hs (show c.IsRegular from hc)
    simp only [truth, ih]
  | related r outer c =>
    obtain ⟨rfl, hc⟩ := hc
    have ih : ∀ {t : Scope}, t .objectId = .int id → c.truth db₁ t = c.truth db₂ t :=
      fun ht => truth_congr h h' ht hc
    have hto := truth_related_yes_of_covers h hs (r := r) ih
    have hfrom := truth_related_yes_of_covers h' hs (r := r) fun ht => (ih ht).symm
    have h₁ := Database.truth_related_ne_unknown db₁ r s .objectId c
    have h₂ := Database.truth_related_ne_unknown db₂ r s .objectId c
    cases ht₁ : (related r .objectId c).truth db₁ s <;>
      cases ht₂ : (related r .objectId c).truth db₂ s <;> simp_all

theorem truthOfAll_congr (h : db₁.Covers db₂ id) (h' : db₂.Covers db₁ id) {s : Scope}
    (hs : s .objectId = .int id) {cs : List Condition} (hcs : AllRegular cs) :
    truthOfAll db₁ s cs = truthOfAll db₂ s cs := by
  cases cs with
  | nil => rfl
  | cons c cs =>
    simp only [truthOfAll, truth_congr h h' hs hcs.1, truthOfAll_congr h h' hs hcs.2]

theorem truthOfAny_congr (h : db₁.Covers db₂ id) (h' : db₂.Covers db₁ id) {s : Scope}
    (hs : s .objectId = .int id) {cs : List Condition} (hcs : AllRegular cs) :
    truthOfAny db₁ s cs = truthOfAny db₂ s cs := by
  cases cs with
  | nil => rfl
  | cons c cs =>
    simp only [truthOfAny, truth_congr h h' hs hcs.1, truthOfAny_congr h h' hs hcs.2]

end

end Condition

end SampleSearch
