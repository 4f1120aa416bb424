import SampleSearch.Proofs.CompiledConditions
import SampleSearch.Proofs.StoredDocuments

/-!
# Paths into documents

The segments behind a field become the labels of a path into a document. A path spells its labels:
behind the dollar sign each of them stands in quotes behind a point, and none has a quote itself.
So a path that could be made is read back as the labels it was made of and in no other way, and a
label cannot break out of its quotes, whatever else it holds.
-/

namespace SampleSearch

namespace Document

/-- The labels that a text spells: each stands in quotes behind a point and has no quote. -/
inductive SpellsLabels : Text → List Text → Prop
  | nil : SpellsLabels [] []
  | cons {l s : Text} {ls : List Text} : '"' ∉ l → SpellsLabels s ls →
      SpellsLabels ('.' :: '"' :: (l ++ '"' :: s)) (l :: ls)

def SpellsPath (path : Text) (labels : List Text) : Prop :=
  ∃ s, path = '$' :: s ∧ SpellsLabels s labels

theorem pathTail_cons (l : Text) (ls : List Text) :
    pathTail (l :: ls) = '.' :: '"' :: (l ++ '"' :: pathTail ls) := by
  simp [pathTail]

theorem spellsLabels_iff {s : Text} {labels : List Text} :
    SpellsLabels s labels ↔ s = pathTail labels ∧ ∀ l ∈ labels, '"' ∉ l := by
  constructor
  · intro h
    induction h with
    | nil => simp [pathTail]
    | cons hl _ ih =>
      obtain ⟨rfl, hls⟩ := ih
      exact ⟨(pathTail_cons _ _).symm, List.forall_mem_cons.2 ⟨hl, hls⟩⟩
  · rintro ⟨rfl, h⟩
    induction labels with
    | nil => exact .nil
    | cons l ls ih =>
      obtain ⟨hl, hls⟩ := List.forall_mem_cons.1 h
      rw [pathTail_cons]
      exact .cons hl (ih hls)

theorem spellsPath_iff {path : Text} {labels : List Text} :
    SpellsPath path labels ↔ path = pathText labels ∧ ∀ l ∈ labels, '"' ∉ l := by
  constructor
  · rintro ⟨s, rfl, hs⟩
    obtain ⟨rfl, h⟩ := spellsLabels_iff.1 hs
    exact ⟨rfl, h⟩
  · rintro ⟨rfl, h⟩
    exact ⟨pathTail labels, rfl, spellsLabels_iff.2 ⟨rfl, h⟩⟩

/-- A path spells its labels in one way, which is how it is read. -/
theorem SpellsPath.pathLabels? {path : Text} {labels : List Text} (h : SpellsPath path labels) :
    pathLabels? path = some labels := by
  obtain ⟨rfl, hfree⟩ := spellsPath_iff.1 h
  exact pathLabels?_pathText hfree

end Document

namespace Leaf

theorem labels?_of_free {segments : List Text} (h : ∀ s ∈ segments, '"' ∉ Text.unescape s) :
    labels? segments = .ok (segments.map Text.unescape) := by
  induction segments with
  | nil => rfl
  | cons s segments ih =>
    obtain ⟨hs, hsegments⟩ := List.forall_mem_cons.1 h
    have hquote : (Text.unescape s).contains '"' = false := by simpa using hs
    rw [labels?, hquote, if_neg Bool.false_ne_true, ih hsegments]
    rfl

theorem labels?_of_quoted {before : List Text} {s : Text} (after : List Text)
    (hbefore : ∀ p ∈ before, '"' ∉ Text.unescape p) (hs : '"' ∈ Text.unescape s) :
    labels? (before ++ s :: after) = .error (.badLabel s) := by
  induction before with
  | nil =>
    have hquote : (Text.unescape s).contains '"' = true := by simpa using hs
    rw [List.nil_append, labels?, hquote, if_pos rfl]
  | cons p before ih =>
    obtain ⟨hp, hrest⟩ := List.forall_mem_cons.1 hbefore
    have hquote : (Text.unescape p).contains '"' = false := by simpa using hp
    rw [List.cons_append, labels?, hquote, if_neg Bool.false_ne_true, ih hrest]
    rfl

theorem exists_first_quoted {segments : List Text}
    (h : ∃ s ∈ segments, '"' ∈ Text.unescape s) :
    ∃ before s after, segments = before ++ s :: after ∧
      (∀ p ∈ before, '"' ∉ Text.unescape p) ∧ '"' ∈ Text.unescape s := by
  induction segments with
  | nil => simp at h
  | cons s segments ih =>
    by_cases hs : '"' ∈ Text.unescape s
    · exact ⟨[], s, segments, rfl, by simp, hs⟩
    · have hrest : ∃ p ∈ segments, '"' ∈ Text.unescape p := by simpa [hs] using h
      obtain ⟨before, p, after, rfl, hbefore, hp⟩ := ih hrest
      exact ⟨s :: before, p, after, rfl, List.forall_mem_cons.2 ⟨hs, hbefore⟩, hp⟩

theorem documentOperand_of_free (c : Column) {segments : List Text}
    (h : ∀ s ∈ segments, '"' ∉ Text.unescape s) :
    documentOperand c segments =
      .ok (.document c (Document.pathText (segments.map Text.unescape))) := by
  rw [documentOperand, labels?_of_free h]
  rfl

theorem documentOperand_of_quoted (c : Column) {segments : List Text}
    (h : ∃ s ∈ segments, '"' ∈ Text.unescape s) :
    ∃ s ∈ segments, documentOperand c segments = .error (.badLabel s) := by
  obtain ⟨before, s, after, rfl, hbefore, hs⟩ := exists_first_quoted h
  refine ⟨s, by simp, ?_⟩
  rw [documentOperand, labels?_of_quoted after hbefore hs]
  rfl

/-- A path into a document cannot be made exactly if some segment stands for a text with a quote.
Otherwise the path spells the texts that the segments stand for, one label for each of them, and
nothing else; so two lists of segments make the same path exactly if they stand for the same
texts. -/
theorem document_paths_spell_labels (c : Column) (segments : List Text) :
    ((∃ e, documentOperand c segments = .error e) ↔
        ∃ s ∈ segments, '"' ∈ Text.unescape s) ∧
      (∀ e, documentOperand c segments = .error e → e.kind = .fieldNotQueryable) ∧
      ∀ o, documentOperand c segments = .ok o →
        (∃ path, o = .document c path ∧
          ∀ labels, Document.SpellsPath path labels ↔ labels = segments.map Text.unescape) ∧
        ∀ segments', documentOperand c segments' = .ok o ↔
          segments'.map Text.unescape = segments.map Text.unescape := by
  by_cases h : ∃ s ∈ segments, '"' ∈ Text.unescape s
  · obtain ⟨s, -, herror⟩ := documentOperand_of_quoted c h
    simp only [herror]
    refine ⟨⟨fun _ => h, fun _ => ⟨_, rfl⟩⟩, ?_, by simp⟩
    rintro _ ⟨⟩
    rfl
  · have hfree : ∀ s ∈ segments, '"' ∉ Text.unescape s := by simpa using h
    have hlabels : ∀ l ∈ segments.map Text.unescape, '"' ∉ l := by simpa using hfree
    have hspells : Document.SpellsPath (Document.pathText (segments.map Text.unescape))
        (segments.map Text.unescape) := Document.spellsPath_iff.2 ⟨rfl, hlabels⟩
    refine ⟨⟨?_, fun hs => absurd hs h⟩, ?_, ?_⟩
    · rintro ⟨e, he⟩
      rw [documentOperand_of_free c hfree] at he
      cases he
    · intro e he
      rw [documentOperand_of_free c hfree] at he
      cases he
    · intro o ho
      rw [documentOperand_of_free c hfree] at ho
      cases ho
      refine ⟨⟨_, rfl, fun labels => ⟨fun hl => ?_, ?_⟩⟩, fun segments' => ⟨fun ho' => ?_, ?_⟩⟩
      · have hread := hspells.pathLabels?
        rw [hl.pathLabels?] at hread
        exact Option.some.inj hread
      · rintro rfl
        exact hspells
      · -- the other segments make a path as well, which is read back as what they stand for
        obtain ⟨he, hfree'⟩ := documentOperand_eq_ok ho'
        injection he with _ hpath
        have hread := hspells.pathLabels?
        rw [hpath, Document.pathLabels?_pathText hfree'] at hread
        exact Option.some.inj hread
      · intro hsame
        have hfree' : ∀ s ∈ segments', '"' ∉ Text.unescape s := by
          rw [← hsame] at hlabels
          simpa using hlabels
        rw [documentOperand_of_free c hfree', hsame]

/-- Segments for labels that look like parts of paths, or end with a backslash. -/
def signedSegments : List Text := ["\\$.\\x".toList, "[0]".toList, "é\\".toList]

def plainSegments : List Text := ["$.x".toList, "\\[0\\]".toList, "\\é\\\\".toList]

theorem document_paths_spell_labels_signs :
    documentOperand .configDocument signedSegments =
        .ok (.document .configDocument "$.\"$.x\".\"[0]\".\"é\\\"".toList) ∧
      Document.SpellsPath "$.\"$.x\".\"[0]\".\"é\\\"".toList
        ["$.x".toList, "[0]".toList, "é\\".toList] ∧
      documentOperand .configDocument plainSegments =
        .ok (.document .configDocument "$.\"$.x\".\"[0]\".\"é\\\"".toList) ∧
      ∃ e, documentOperand .configDocument ["a".toList, "b\\\"".toList] = .error e ∧
        e.kind = .fieldNotQueryable := by
  obtain ⟨-, -, hmade⟩ := document_paths_spell_labels .configDocument signedSegments
  obtain ⟨⟨path, hpath, hspells⟩, hsame⟩ := hmade _ rfl
  obtain ⟨hfails, hkind, -⟩ :=
    document_paths_spell_labels .configDocument ["a".toList, "b\\\"".toList]
  obtain ⟨e, he⟩ := hfails.2 ⟨"b\\\"".toList, by decide, by decide⟩
  cases hpath
  exact ⟨rfl, (hspells _).2 rfl, (hsame plainSegments).2 rfl, e, he, hkind e he⟩

end Leaf

end SampleSearch
