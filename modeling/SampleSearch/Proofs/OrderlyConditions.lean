import SampleSearch.Proofs.CourseConditions
import SampleSearch.Proofs.RelatedRows
import SampleSearch.Scan.Matching

/-!
# Deciding conditions in any database

Related rows are looked at one after the other, and the first one that cannot be decided makes the
whole condition undecided. In the condition of a plan that depends on the row for attributes only:
any other condition on related rows is decided for every row or for none. Two databases that hold
the same of an object, and its attributes in the same order, therefore decide the condition alike,
also if neither can decide it.
-/

namespace SampleSearch

namespace Condition

/-- Whether a condition is readable everywhere, or nowhere decided. -/
def IsSteady (c : Condition) : Prop :=
  (∀ db s, c.isReadable db s = true) ∨ ∀ db s, c.attains? db true s = none

mutual

/-- Whether conditions on related rows are steady unless the rows are attributes, and the id of the
object is not compared for equality. -/
def IsOrderly : Condition → Prop
  | compare o comparison _ => o = .column .objectId → comparison ≠ .eq
  | all parts => AllOrderly parts
  | any parts => AllOrderly parts
  | negated c => IsOrderly c
  | related r _ c => r = .attributes ∧ IsOrderly c ∨ c.IsSteady
  | _ => True

def AllOrderly : List Condition → Prop
  | [] => True
  | c :: cs => IsOrderly c ∧ AllOrderly cs

end

theorem allOrderly_iff {cs : List Condition} : AllOrderly cs ↔ ∀ c ∈ cs, c.IsOrderly := by
  induction cs with
  | nil => simp [AllOrderly]
  | cons c cs ih => simp [AllOrderly, ih]

instance : IsInherited IsOrderly where
  all _ h := allOrderly_iff.1 h
  any _ h := allOrderly_iff.1 h

mutual

theorem isOrderly_of_isTestOf {o : Operand} (ho : o ≠ .column .objectId) {c : Condition}
    (h : c.IsTestOf o) : c.IsOrderly := by
  cases c with
  | compare p comparison l =>
    obtain rfl : p = o := h
    exact fun hid => absurd hid ho
  | like p pattern => trivial
  | all cs => exact allOrderly_of_allTestsOf ho h
  | any cs => exact allOrderly_of_allTestsOf ho h
  | const b => exact h.elim
  | among p ls => exact h.elim
  | negated c => exact h.elim
  | related r outer c => exact h.elim

theorem allOrderly_of_allTestsOf {o : Operand} (ho : o ≠ .column .objectId) {cs : List Condition}
    (h : AllTestsOf o cs) : AllOrderly cs := by
  cases cs with
  | nil => trivial
  | cons c cs => exact ⟨isOrderly_of_isTestOf ho h.1, allOrderly_of_allTestsOf ho h.2⟩

end

theorem isOrderly_of_document {c : Column} {path : Text} {e : Condition}
    (h : e.IsTestOf (.document c path)) : e.IsOrderly :=
  isOrderly_of_isTestOf (by simp) h

end Condition

namespace Leaf

open Condition

/-- A pattern for a column is too long for every row or for none. -/
theorem isSteady_textCondition (c : Column) (value : Text) :
    (textCondition (.column c) value).IsSteady := by
  unfold textCondition
  split
  · by_cases hsize : value.likePattern.octets.length ≤ maxPatternSize
    · exact .inl fun db s => by simp [isReadable, hsize, Operand.value?]
    · refine .inr fun db s => ?_
      rw [attains?, likeTruth?, if_pos (Nat.lt_of_not_le hsize)]
      rfl
  · exact .inl fun _ _ => rfl

theorem ne_objectId_of_mem_strategies {c : Column}
    (h : .text c ∈ FieldEntry.strategies ∨ .integer c ∈ FieldEntry.strategies ∨
      .moment c ∈ FieldEntry.strategies) : Operand.column c ≠ .column .objectId := by
  rintro hc
  cases hc
  revert h
  decide

theorem isOrderly_of_condition {d : Directory} {v : Viewer} {f : ResolvedField}
    (hf : f.strategy ∈ FieldEntry.strategies) {leaf : Leaf} {e : Condition}
    (h : leaf.condition d v f = .ok e) : e.IsOrderly := by
  obtain ⟨path, kind, strategy, residual⟩ := f
  cases strategy with
  | text c =>
    have hc := ne_objectId_of_mem_strategies (.inl hf)
    cases leaf with
    | term value =>
      cases h
      exact isOrderly_of_isTestOf hc (isTestOf_textCondition _ value)
    | range r => cases h
  | integer c =>
    have hc := ne_objectId_of_mem_strategies (.inr (.inl hf))
    cases leaf with
    | term value =>
      obtain ⟨n, _, h⟩ := bind_eq_ok_iff.1 h
      cases h
      exact fun hid => absurd hid hc
    | range r => exact isOrderly_of_isTestOf hc (isTestOf_of_integerRange h)
  | moment c =>
    have hc := ne_objectId_of_mem_strategies (.inr (.inr hf))
    cases leaf with
    | term value => exact isOrderly_of_isTestOf hc (isTestOf_of_momentTerm h)
    | range r => exact isOrderly_of_isTestOf hc (isTestOf_of_momentRange h)
  | related r c =>
    cases leaf with
    | term value =>
      cases h
      exact .inr (isSteady_textCondition c value)
    | range r => cases h
  | document c =>
    cases leaf with
    | term value =>
      obtain ⟨o, ho, h⟩ := bind_eq_ok_iff.1 h
      cases h
      obtain ⟨rfl, -⟩ := documentOperand_eq_ok ho
      exact isOrderly_of_document (isTestOf_textCondition _ value)
    | range r =>
      obtain ⟨o, ho, h⟩ := bind_eq_ok_iff.1 h
      cases h
      obtain ⟨rfl, -⟩ := documentOperand_eq_ok ho
      exact isOrderly_of_document (isTestOf_documentRange _ r)
  | keyed =>
    obtain ⟨value, segment, rest, a, rfl, rfl, -, -, -, -, rfl⟩ := keyedCondition_eq_ok h
    refine .inl ⟨rfl, fun hc => (nomatch hc), ?_, trivial⟩
    exact isOrderly_of_document (isTestOf_textCondition _ value)
  | sharedWith =>
    obtain ⟨value, g, rfl, -, -, rfl⟩ := sharedWithCondition_eq_ok h
    exact .inr (.inl fun _ _ => rfl)
  | uploadedBy =>
    obtain ⟨value, u, rfl, -, -, rfl⟩ := uploadedByCondition_eq_ok h
    exact .inr (.inl fun _ _ => rfl)

end Leaf

theorem Query.isInvariant_isOrderly {d : Directory} {v : Viewer} :
    IsInvariant d v Condition.IsOrderly where
  leaf _ hf _ _ h := Leaf.isOrderly_of_condition hf h
  all _ h := Condition.allOrderly_iff.2 h
  any _ h := Condition.allOrderly_iff.2 h
  negated c h := by simpa only [Condition.IsOrderly] using h

theorem Viewer.isReadable_access (v : Viewer) (db : Database) (s : Scope) :
    v.access.isReadable db s = true := by
  unfold access accessTo
  split
  · rfl
  · split
    · rfl
    · simp [Condition.isReadable, Operand.value?]

theorem Viewer.isOrderly_access (v : Viewer) : v.access.IsOrderly := by
  unfold access accessTo
  split
  · trivial
  · split
    · trivial
    · exact .inr (.inl fun _ _ => rfl)

namespace Plan

theorem isOrderly_ofKind (k : Kind) : ∀ c ∈ ofKind k, c.IsOrderly := by
  intro c hc
  unfold ofKind at hc
  split at hc
  · simp at hc
  · cases List.mem_singleton.1 hc
    exact fun hid => (nomatch hid)

theorem isOrderly_afterPosition (sort : SortOrder) (p : Position) :
    (afterPosition sort p).IsOrderly := by
  refine ⟨fun hid => (nomatch hid), ⟨fun hid => (nomatch hid), fun _ => ?_, trivial⟩, trivial⟩
  cases sort <;> simp [SortOrder.beyond]

theorem isOrderly_of_ofQuery {d : Directory} {v : Viewer} {o : SearchOptions} {q : Query}
    {p : Plan} (h : ofQuery d v o q = .ok p) : p.condition.IsOrderly :=
  holds_of_ofQuery h Query.isInvariant_isOrderly isOrderly_ofKind v.isOrderly_access
    isOrderly_afterPosition

end Plan

namespace Scope

/-- Whether two scopes are of one object and hold the same documents. -/
structure Agrees (s t : Scope) : Prop where
  id : s .objectId = t .objectId
  documents : ∀ c, c.holdsDocument = true → s c = t c

theorem Agrees.refl (s : Scope) : s.Agrees s := ⟨rfl, fun _ _ => rfl⟩

theorem Agrees.symm {s t : Scope} (h : s.Agrees t) : t.Agrees s :=
  ⟨h.id.symm, fun c hc => (h.documents c hc).symm⟩

theorem Agrees.enter {s t : Scope} (h : s.Agrees t) {row other : RelatedRow}
    (hcell : row.cell? = other.cell?) : (row.enter s).Agrees (other.enter t) where
  id := by rw [RelatedRow.enter_objectId, RelatedRow.enter_objectId, h.id]
  documents c hc := by simp only [RelatedRow.enter, hcell, h.documents c hc]

end Scope

namespace Condition

/-- A column is only settled by a part that compares it, and never if it holds documents. -/
theorem compare_mem_of_mem_settle {cs : List Condition} {p : Column × Literal}
    (h : p ∈ (settle cs).2) :
    p.1.holdsDocument = false ∧ .compare (.column p.1) .eq p.2 ∈ cs := by
  induction cs with
  | nil => cases h
  | cons c cs ih =>
    have hlater : p ∈ (settle cs).2 →
        p.1.holdsDocument = false ∧ .compare (.column p.1) .eq p.2 ∈ c :: cs :=
      fun h => (ih h).imp_right (List.mem_cons_of_mem c)
    rw [settle] at h
    obtain ⟨claims, settled⟩ := settle cs
    simp only at h
    split at h
    · rename_i d l
      split at h
      · exact hlater h
      · rename_i hnew
        rcases List.mem_cons.1 h with rfl | h
        · exact ⟨by simpa using (Bool.or_eq_false_iff.1 (Bool.eq_false_iff.2 hnew)).1, by simp⟩
        · exact hlater h
    · exact hlater h

/-- What an orderly condition settles is neither the id of the object nor a document. -/
theorem agrees_assuming {c : Condition} (hc : c.IsOrderly) (s : Scope) :
    s.Agrees (s.assuming c.outline.settled) := by
  have hkeep : ∀ k, (∀ p ∈ c.outline.settled, p.1 ≠ k) → s k = s.assuming c.outline.settled k := by
    intro k hk
    have hnone : c.outline.settled.find? (fun p => p.1 == k) = none := by
      simpa [List.find?_eq_none] using fun d l hp => hk (d, l) hp
    rw [Scope.assuming, hnone]
  constructor
  · refine hkeep _ fun p hp hid => ?_
    have hpart := (compare_mem_of_mem_settle hp).2
    rw [hid] at hpart
    have horderly : (compare (.column .objectId) .eq p.2).IsOrderly :=
      holds_of_mem_conjuncts hc hpart
    exact horderly rfl rfl
  · refine fun k hk => hkeep k fun p hp heq => ?_
    have hdocument := (compare_mem_of_mem_settle hp).1
    rw [heq, hk] at hdocument
    cases hdocument

end Condition

theorem Operand.isSome_value?_congr {o : Operand} (ho : o.IsRegular) {s t : Scope}
    (h : s.Agrees t) : (o.value? s).isSome = (o.value? t).isSome := by
  cases o with
  | column c => rfl
  | document c path =>
    simp only [value?, h.documents c ho.1]

namespace Condition

variable {db₁ db₂ : Database} {id : Int}

theorem isReadable_related_of_covers (h : db₂.Covers db₁ id) {s t : Scope} (hst : s.Agrees t)
    (hs : s .objectId = .int id) {r : Relation} {c : Condition}
    (ih : ∀ {s t : Scope}, s.Agrees t → s .objectId = .int id →
      c.isReadable db₁ s = c.isReadable db₂ t)
    (hread : (related r .objectId c).isReadable db₁ s = true) :
    (related r .objectId c).isReadable db₂ t = true := by
  rw [Database.isReadable_related_iff (hst.id ▸ hs)]
  intro row hrow howner
  obtain ⟨other, hother, howner', hcell⟩ := h r row hrow howner
  rw [← ih (hst.enter hcell.symm) (by rw [RelatedRow.enter_objectId, hs])]
  exact (Database.isReadable_related_iff hs).1 hread other hother howner'

mutual

/-- Databases that agree on the rows of an object can read the same regular conditions on it. -/
theorem isReadable_congr (h : db₁.Covers db₂ id) (h' : db₂.Covers db₁ id) {s t : Scope}
    (hst : s.Agrees t) (hs : s .objectId = .int id) {c : Condition} (hc : c.IsRegular) :
    c.isReadable db₁ s = c.isReadable db₂ t := by
  cases c with
  | const b => rfl
  | compare o comparison l => exact Operand.isSome_value?_congr hc hst
  | like o pattern => simp only [isReadable, Operand.isSome_value?_congr hc hst]
  | among o ls => exact Operand.isSome_value?_congr hc hst
  | all cs => simpa only [isReadable] using allReadable_congr h h' hst hs hc
  | any cs => simpa only [isReadable] using allReadable_congr h h' hst hs hc
  | negated c =>
    have ih := isReadable_congr h h' hst hs (show c.IsRegular from hc)
    simpa only [isReadable] using ih
  | related r outer c =>
    obtain ⟨rfl, hc⟩ := hc
    have hto := isReadable_related_of_covers h' hst hs (r := r) fun hst hs =>
      isReadable_congr h h' hst hs hc
    have hfrom := isReadable_related_of_covers h hst.symm (hst.id ▸ hs) (r := r) fun hst hs =>
      (isReadable_congr h h' hst.symm (hst.id ▸ hs) hc).symm
    exact Bool.eq_iff_iff.2 ⟨hto, hfrom⟩

theorem allReadable_congr (h : db₁.Covers db₂ id) (h' : db₂.Covers db₁ id) {s t : Scope}
    (hst : s.Agrees t) (hs : s .objectId = .int id) {cs : List Condition} (hcs : AllRegular cs) :
    allReadable db₁ s cs = allReadable db₂ t cs := by
  cases cs with
  | nil => rfl
  | cons c cs =>
    simp only [allReadable, isReadable_congr h h' hst hs hcs.1, allReadable_congr h h' hst hs hcs.2]

end

end Condition

/-- Only members with a property can be found among those that are considered for it. -/
theorem someHolds?_filter {α : Type} (f : α → Option Bool) (p : α → Bool) (as : List α) :
    someHolds? (fun a => if p a then f a else some false) as = someHolds? f (as.filter p) := by
  induction as with
  | nil => rfl
  | cons a as ih =>
    cases hp : p a with
    | true => simp only [someHolds?, hp, if_true, List.filter_cons_of_pos, ih]
    | false => simp [someHolds?, hp, ih]

theorem someHolds?_congr {α : Type} {f g : α → Option Bool} (h : ∀ a, f a = g a) (as : List α) :
    someHolds? f as = someHolds? g as := by
  rw [funext h]

theorem someHolds?_undecided {α : Type} (as : List α) :
    someHolds? (fun _ => none) as = if as.isEmpty then some false else none := by
  cases as <;> rfl

namespace Database

/-- The attributes of the object with an id, in the order of the database. -/
def attributesOf (db : Database) (id : Int) : List AttributeRecord :=
  (db.rows .attributes).filter fun a => a.objectId == id

end Database

namespace Condition

open Database

variable {db₁ db₂ : Database} {id : Int}

theorem filter_belongs {db : Database} {r : Relation} {s : Scope} (hs : s .objectId = .int id) :
    (db.relatedRows r).filter (fun row => belongs r .objectId (row.enter s)) =
      (db.relatedRows r).filter fun row => row.owner == id := by
  apply List.filter_congr
  intro row hrow
  rw [Bool.eq_iff_iff, belongs_iff hrow hs, beq_iff_eq]

/-- A condition on related rows asks for the first row of the object that decides it. -/
theorem attains?_related {db : Database} {r : Relation} {s : Scope} (hs : s .objectId = .int id)
    (wanted : Bool) (c : Condition) :
    (related r .objectId c).attains? db wanted s =
      (someHolds? (fun row => c.attains? db true (row.enter s))
        ((db.relatedRows r).filter fun row => row.owner == id)).map
          fun found => found == wanted := by
  rw [attains?, someHolds?_filter, filter_belongs hs]

theorem filter_owner_attributes (db : Database) :
    ((db.relatedRows .attributes).filter fun row => row.owner == id) =
      (db.attributesOf id).map .attributeRow := by
  rw [relatedRows, List.filter_map, attributesOf]
  rfl

theorem isEmpty_owner_congr (h : db₁.Covers db₂ id) (h' : db₂.Covers db₁ id) (r : Relation) :
    ((db₁.relatedRows r).filter fun row => row.owner == id).isEmpty =
      ((db₂.relatedRows r).filter fun row => row.owner == id).isEmpty := by
  have hto : ∀ {db db' : Database}, db.Covers db' id →
      ((db'.relatedRows r).filter fun row => row.owner == id) = [] →
      ((db.relatedRows r).filter fun row => row.owner == id) = [] := by
    intro db db' hcovers hempty
    rw [List.filter_eq_nil_iff] at hempty ⊢
    intro row hrow howner
    obtain ⟨other, hother, howner', -⟩ := hcovers r row hrow (by simpa using howner)
    exact hempty other hother (by simpa using howner')
  rw [Bool.eq_iff_iff, List.isEmpty_iff, List.isEmpty_iff]
  exact ⟨hto h', hto h⟩

theorem attains?_related_of_isSteady (h : db₁.Covers db₂ id) (h' : db₂.Covers db₁ id) {s : Scope}
    (hs : s .objectId = .int id) (wanted : Bool) {r : Relation} {c : Condition}
    (hc : c.IsRegular) (hsteady : c.IsSteady) :
    (related r .objectId c).attains? db₁ wanted s =
      (related r .objectId c).attains? db₂ wanted s := by
  rcases hsteady with hread | hnone
  · have hread₁ := (isReadable_related_iff (r := r) hs).2 fun row _ _ => hread db₁ (row.enter s)
    have hread₂ := (isReadable_related_iff (r := r) hs).2 fun row _ _ => hread db₂ (row.enter s)
    have hregular : (related r .objectId c).IsRegular := ⟨rfl, hc⟩
    rw [attains?_of_isReadable wanted hread₁, attains?_of_isReadable wanted hread₂,
      truth_congr h h' hs hregular]
  · rw [attains?_related hs, attains?_related hs]
    simp only [hnone, someHolds?_undecided, isEmpty_owner_congr h h' r]

mutual

/-- Databases that agree on the rows of an object and on the order of its attributes decide orderly
conditions on it alike. -/
theorem attains?_congr (h : db₁.Covers db₂ id) (h' : db₂.Covers db₁ id)
    (hattributes : db₁.attributesOf id = db₂.attributesOf id) {s : Scope}
    (hs : s .objectId = .int id) (wanted : Bool) {c : Condition} (hc : c.IsRegular)
    (ho : c.IsOrderly) : c.attains? db₁ wanted s = c.attains? db₂ wanted s := by
  cases c with
  | const b => rfl
  | compare o comparison l => rfl
  | like o pattern => rfl
  | among o ls => rfl
  | all cs =>
    simp only [attains?, allAttain?_congr h h' hattributes hs wanted hc ho,
      anyAttains?_congr h h' hattributes hs wanted hc ho]
  | any cs =>
    simp only [attains?, allAttain?_congr h h' hattributes hs wanted hc ho,
      anyAttains?_congr h h' hattributes hs wanted hc ho]
  | negated c =>
    have ih := attains?_congr h h' hattributes hs (!wanted) (show c.IsRegular from hc) ho
    simpa only [attains?] using ih
  | related r outer c =>
    obtain ⟨rfl, hc⟩ := hc
    -- Which attribute cannot be decided matters, so they must come in the same order.
    rcases ho with ⟨rfl, ho⟩ | hsteady
    · have ih : ∀ row : RelatedRow,
          c.attains? db₁ true (row.enter s) = c.attains? db₂ true (row.enter s) := fun row =>
        attains?_congr h h' hattributes (by rw [RelatedRow.enter_objectId, hs]) true hc ho
      rw [attains?_related hs, attains?_related hs, filter_owner_attributes,
        filter_owner_attributes, hattributes, someHolds?_congr ih]
    · exact attains?_related_of_isSteady h h' hs wanted hc hsteady

theorem allAttain?_congr (h : db₁.Covers db₂ id) (h' : db₂.Covers db₁ id)
    (hattributes : db₁.attributesOf id = db₂.attributesOf id) {s : Scope}
    (hs : s .objectId = .int id) (wanted : Bool) {cs : List Condition} (hcs : AllRegular cs)
    (ho : AllOrderly cs) : allAttain? db₁ wanted s cs = allAttain? db₂ wanted s cs := by
  cases cs with
  | nil => rfl
  | cons c cs =>
    simp only [allAttain?, attains?_congr h h' hattributes hs wanted hcs.1 ho.1,
      allAttain?_congr h h' hattributes hs wanted hcs.2 ho.2]

theorem anyAttains?_congr (h : db₁.Covers db₂ id) (h' : db₂.Covers db₁ id)
    (hattributes : db₁.attributesOf id = db₂.attributesOf id) {s : Scope}
    (hs : s .objectId = .int id) (wanted : Bool) {cs : List Condition} (hcs : AllRegular cs)
    (ho : AllOrderly cs) : anyAttains? db₁ wanted s cs = anyAttains? db₂ wanted s cs := by
  cases cs with
  | nil => rfl
  | cons c cs =>
    simp only [anyAttains?, attains?_congr h h' hattributes hs wanted hcs.1 ho.1,
      anyAttains?_congr h h' hattributes hs wanted hcs.2 ho.2]

end

end Condition

end SampleSearch
