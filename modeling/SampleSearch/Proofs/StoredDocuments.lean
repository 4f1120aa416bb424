import SampleSearch.Condition.Truth

/-!
# Looking into stored documents

A stored text is a sound document if it can be read and every number that a path may lead to has a
plain form. Looking into a sound document never fails, whatever the path, as long as no label of
the path is torn. The written form of a path is read back as its labels.
-/

namespace SampleSearch

namespace Document

mutual

/-- Whether every number that a path may lead to has a plain form. -/
def isSound : Document → Bool
  | number _ plain => plain.isSome
  | object members => membersSound members
  | _ => true

def membersSound : List (Quotation × Document) → Bool
  | [] => true
  | (_, d) :: ms => isSound d && membersSound ms

end

theorem membersSound_iff {ms : List (Quotation × Document)} :
    membersSound ms = true ↔ ∀ m ∈ ms, isSound m.2 = true := by
  induction ms with
  | nil => simp [membersSound]
  | cons m ms ih => simp [membersSound, ih]

theorem codes?_isSome {d : Document} (h : isSound d = true) : ∃ codes, codes? d = some codes := by
  cases d with
  | number written plain =>
    obtain ⟨t, rfl⟩ := Option.isSome_iff_exists.1 (show plain.isSome = true from h)
    exact ⟨_, rfl⟩
  | null => exact ⟨_, rfl⟩
  | bool b => exact ⟨_, rfl⟩
  | string q => exact ⟨_, rfl⟩
  | array items => exact ⟨_, rfl⟩
  | object members => exact ⟨_, rfl⟩

theorem find?_isSound {labels : List Text} {d : Document} (hl : ∀ l ∈ labels, isTorn l = false)
    (h : isSound d = true) :
    find? labels d = some none ∨ ∃ e, find? labels d = some (some e) ∧ isSound e = true := by
  induction labels generalizing d with
  | nil =>
    right
    exact ⟨d, rfl, h⟩
  | cons label rest ih =>
    have htorn : isTorn label = false := hl label (by simp)
    have hrest : ∀ l ∈ rest, isTorn l = false := fun l hm => hl l (List.mem_cons_of_mem label hm)
    cases d with
    | object members =>
      simp only [find?, htorn, Bool.false_eq_true, if_false]
      cases hm : members.find? fun m => m.1.names label with
      | none => simp
      | some m =>
        have hsound := membersSound_iff.1 (show membersSound members = true from h)
        exact ih hrest (hsound m (List.mem_of_find?_eq_some hm))
    | null => simp [find?, htorn]
    | bool b => simp [find?, htorn]
    | number written plain => simp [find?, htorn]
    | string q => simp [find?, htorn]
    | array items => simp [find?, htorn]

theorem lookUp?_of_isSound {t : Text} {d : Document} {labels : List Text}
    (hr : read? t = some d) (hd : isSound d = true) (hl : ∀ l ∈ labels, isTorn l = false) :
    ∃ found, lookUp? t labels = some found := by
  unfold lookUp?
  rcases find?_isSound hl hd with hf | ⟨e, hf, he⟩
  · exact ⟨none, by simp [hr, hf]⟩
  · obtain ⟨codes, hc⟩ := codes?_isSome he
    exact ⟨codes, by simp [hr, hf, hc]⟩

theorem labelRest?_append {l : Text} (h : '"' ∉ l) (s : Text) :
    labelRest? (l ++ '"' :: s) = some (l, s) := by
  induction l with
  | nil => rfl
  | cons c l ih =>
    have hc : c ≠ '"' := fun hc => h (by simp [hc])
    have hl : '"' ∉ l := fun hl => h (List.mem_cons_of_mem c hl)
    rw [List.cons_append, labelRest?.eq_def]
    split
    · rename_i heq
      cases heq
    · rename_i heq
      cases heq
      exact absurd rfl hc
    · rename_i heq
      cases heq
      rw [ih hl]
      rfl

def pathTail (labels : List Text) : Text := labels.flatMap fun l => '.' :: '"' :: l ++ ['"']

theorem length_le_length_pathTail (labels : List Text) :
    labels.length ≤ (pathTail labels).length := by
  induction labels with
  | nil => simp
  | cons l ls ih =>
    simp only [pathTail, List.flatMap_cons, List.length_append, List.length_cons] at ih ⊢
    omega

theorem labels?_pathTail {labels : List Text} (h : ∀ l ∈ labels, '"' ∉ l) {n : Nat}
    (hn : labels.length ≤ n) : labels? n (pathTail labels) = some labels := by
  induction labels generalizing n with
  | nil => cases n <;> rfl
  | cons l ls ih =>
    cases n with
    | zero => simp at hn
    | succ n =>
      have hls : labels? n (pathTail ls) = some ls := by
        apply ih (fun m hm => h m (List.mem_cons_of_mem l hm))
        simpa using hn
      have hl : labelRest? (l ++ '"' :: pathTail ls) = some (l, pathTail ls) :=
        labelRest?_append (h l (by simp)) (pathTail ls)
      have happ : pathTail (l :: ls) = '.' :: '"' :: (l ++ '"' :: pathTail ls) := by
        simp [pathTail]
      rw [happ, labels?]
      simp [hl, hls]

/-- The written form of a path is read back as its labels. -/
theorem pathLabels?_pathText {labels : List Text} (h : ∀ l ∈ labels, '"' ∉ l) :
    pathLabels? (pathText labels) = some labels :=
  labels?_pathTail h (length_le_length_pathTail labels)

theorem isTorn_eq_false_of_pathText {labels : List Text} (h : Char.ofNat 0 ∉ pathText labels) :
    ∀ l ∈ labels, isTorn l = false := by
  intro l hl
  rw [isTorn, List.contains_eq_mem, decide_eq_false_iff_not]
  intro hmem
  apply h
  rw [pathText, List.mem_cons]
  right
  exact List.mem_flatMap.2 ⟨l, hl, by simp [hmem]⟩

end Document

namespace Text

def isDocument (t : Text) : Bool := (Document.read? t).any Document.isSound

theorem exists_of_isDocument {t : Text} (h : t.isDocument = true) :
    ∃ d, Document.read? t = some d ∧ d.isSound = true := by
  unfold isDocument at h
  cases hd : Document.read? t with
  | none => simp [hd] at h
  | some d => exact ⟨d, rfl, by simpa [hd] using h⟩

end Text

namespace Operand

/-- Looking into a sound document along written labels finds a cell, which may be empty. -/
theorem lookUp?_pathText {t : Text} (ht : t.isDocument = true) {labels : List Text}
    (hq : ∀ l ∈ labels, '"' ∉ l) (hz : Char.ofNat 0 ∉ Document.pathText labels) :
    ∃ cell, lookUp? t (Document.pathText labels) = some cell := by
  obtain ⟨d, hr, hd⟩ := Text.exists_of_isDocument ht
  obtain ⟨found, hf⟩ :=
    Document.lookUp?_of_isSound hr hd (Document.isTorn_eq_false_of_pathText hz)
  refine ⟨(found.map Cell.ofCodes).getD .empty, ?_⟩
  simp [lookUp?, Document.pathLabels?_pathText hq, hf]

end Operand

namespace Database

/-- Whether everything that a path may look into is a sound document. -/
structure HoldsDocuments (db : Database) : Prop where
  configs : ∀ r ∈ db.rows .configs, r.document.isDocument = true
  attributes : ∀ r ∈ db.rows .attributes, r.value.isDocument = true

end Database

end SampleSearch
