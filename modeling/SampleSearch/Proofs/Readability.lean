import SampleSearch.Proofs.CompiledConditions
import SampleSearch.Proofs.StoredDocuments
import SampleSearch.Scan.Matching

/-!
# Conditions that can always be decided

A condition is modest if its patterns are no larger than the database takes and its paths are
without zero characters. A regular and modest condition is readable for every object of a
database whose documents are sound, so nothing keeps it from being decided.
-/

namespace SampleSearch

namespace Operand

def isModest : Operand → Bool
  | column _ => true
  | document _ path => !path.contains (Char.ofNat 0)

end Operand

namespace Condition

mutual

/-- Whether the patterns and paths of a condition are within the limits of the database. -/
def isModest : Condition → Bool
  | const _ => true
  | compare o _ _ => o.isModest
  | like o pattern => pattern.octets.length ≤ maxPatternSize && o.isModest
  | among o _ => o.isModest
  | all parts => allModest parts
  | any parts => allModest parts
  | negated c => isModest c
  | related _ _ c => isModest c

def allModest : List Condition → Bool
  | [] => true
  | c :: cs => isModest c && allModest cs

end

theorem isModest_all {cs : List Condition} :
    (all cs).isModest = true ↔ ∀ c ∈ cs, c.isModest = true := by
  rw [isModest]
  induction cs with
  | nil => simp [allModest]
  | cons c cs ih => simp [allModest, ih]

theorem someMatchesHash_append (cs ds : List Condition) :
    someMatchesHash (cs ++ ds) = (someMatchesHash cs || someMatchesHash ds) := by
  induction cs with
  | nil => rfl
  | cons c cs ih => rw [List.cons_append, someMatchesHash, someMatchesHash, ih, Bool.or_assoc]

end Condition

namespace Scope

def HoldsDocuments (s : Scope) : Prop :=
  ∀ c, c.holdsDocument = true → ∀ t, (s c).text? = some t → t.isDocument = true

end Scope

namespace Database

variable {db : Database}

theorem HoldsDocuments.scope (h : db.HoldsDocuments) (o : ObjectRecord) :
    (db.scope o).HoldsDocuments := by
  intro c hc t ht
  cases c with
  | configDocument =>
    change (cellOf ConfigRecord.cell (db.config? o.id) .configDocument).text? = some t at ht
    cases hr : db.config? o.id with
    | none => simp [hr, cellOf, Cell.text?] at ht
    | some r =>
      have hmem : r ∈ db.rows .configs := List.mem_of_find?_eq_some hr
      simp only [hr, cellOf, ConfigRecord.cell, Cell.text?, Option.some.injEq] at ht
      rw [← ht]
      exact h.configs r hmem
  | attributeValue =>
    change Cell.empty.text? = some t at ht
    cases ht
  | _ => cases hc

theorem HoldsDocuments.enter (h : db.HoldsDocuments) {s : Scope} (hs : s.HoldsDocuments)
    {r : Relation} {row : RelatedRow} (hr : row ∈ db.relatedRows r) :
    (row.enter s).HoldsDocuments := by
  intro c hc t ht
  have keep : row.cell? c = none → t.isDocument = true := by
    intro hnone
    simp only [RelatedRow.enter, hnone, Option.getD_none] at ht
    exact hs c hc t ht
  cases c with
  | configDocument => exact keep (by cases row <;> rfl)
  | attributeValue =>
    cases row with
    | attributeRow a =>
      have hmem : a ∈ db.rows .attributes := by
        cases r with
        | attributes => simpa [relatedRows] using hr
        | tags => simp [relatedRows, taggedRows] at hr
        | comments => simp [relatedRows] at hr
        | altNames => simp [relatedRows] at hr
        | permissions => simp [relatedRows] at hr
      have ha : a.value = t := by
        simpa [RelatedRow.enter, RelatedRow.cell?, Cell.text?] using ht
      rw [← ha]
      exact h.attributes a hmem
    | tag _ _ => exact keep rfl
    | comment _ => exact keep rfl
    | altName _ => exact keep rfl
    | permission _ => exact keep rfl
  | _ => cases hc

end Database

namespace Operand

theorem value?_isSome {o : Operand} {s : Scope} (hs : s.HoldsDocuments) (hr : o.IsRegular)
    (hm : o.isModest = true) : (o.value? s).isSome = true := by
  cases o with
  | column c => rfl
  | document c path =>
    obtain ⟨hc, labels, hquote, rfl⟩ := hr
    have hzero : Char.ofNat 0 ∉ Document.pathText labels := by simpa [isModest] using hm
    simp only [value?]
    cases ht : (s c).text? with
    | none => rfl
    | some t =>
      obtain ⟨cell, hcell⟩ := lookUp?_pathText (hs c hc t ht) hquote hzero
      simp only [hcell, Option.isSome_some]

end Operand

namespace Condition

variable {db : Database}

mutual

/-- Nothing keeps a regular and modest condition from being decided. -/
theorem isReadable_of_isRegular (hdb : db.HoldsDocuments) {s : Scope} (hs : s.HoldsDocuments)
    {c : Condition} (hr : c.IsRegular) (hm : c.isModest = true) : c.isReadable db s = true := by
  cases c with
  | const b => rfl
  | compare o comparison l => exact o.value?_isSome hs hr hm
  | like o pattern =>
    obtain ⟨hp, ho⟩ : pattern.octets.length ≤ maxPatternSize ∧ o.isModest = true := by
      simpa [isModest] using hm
    simp [isReadable, hp, o.value?_isSome hs hr ho]
  | among o ls => exact o.value?_isSome hs hr hm
  | all cs =>
    have h := allReadable_of_allRegular hdb hs hr (show allModest cs = true from hm)
    simpa only [isReadable] using h
  | any cs =>
    have h := allReadable_of_allRegular hdb hs hr (show allModest cs = true from hm)
    simpa only [isReadable] using h
  | negated c =>
    have h := isReadable_of_isRegular hdb hs (show c.IsRegular from hr)
      (show c.isModest = true from hm)
    simpa only [isReadable] using h
  | related r outer c =>
    simp only [isReadable, List.all_eq_true, Bool.or_eq_true]
    intro row hrow
    right
    exact isReadable_of_isRegular hdb (hdb.enter hs hrow) hr.2 (show c.isModest = true from hm)

theorem allReadable_of_allRegular (hdb : db.HoldsDocuments) {s : Scope} (hs : s.HoldsDocuments)
    {cs : List Condition} (hr : AllRegular cs) (hm : allModest cs = true) :
    allReadable db s cs = true := by
  cases cs with
  | nil => rfl
  | cons c cs =>
    obtain ⟨hc, hcs⟩ : c.isModest = true ∧ allModest cs = true := by
      simpa [allModest] using hm
    simp only [allReadable, Bool.and_eq_true]
    exact ⟨isReadable_of_isRegular hdb hs hr.1 hc, allReadable_of_allRegular hdb hs hr.2 hcs⟩

end

end Condition

namespace Database

variable {db : Database}

theorem isUntroubled_of_isModest (hdb : db.HoldsDocuments) {c : Condition} (hr : c.IsRegular)
    (hm : c.isModest = true) : db.isUntroubled c = true := by
  rw [isUntroubled, List.all_eq_true]
  intro o _
  exact Condition.isReadable_of_isRegular hdb (hdb.scope o) hr hm

/-- The plan of a modest query is decided for every object of a database with sound documents,
also if the plan was made for another one. -/
theorem isUntroubled_of_compile (hdb : db.HoldsDocuments) {d : Directory} {v : Viewer}
    {o : SearchOptions} {text : Text} {p : Plan} (hp : Plan.compile d v o text = .ok p)
    (hm : p.condition.isModest = true) : db.isUntroubled p.condition = true :=
  isUntroubled_of_isModest hdb (Plan.isRegular_of_compile hp) hm

end Database

end SampleSearch
