import SampleSearch.Proofs.PrintedLeaves

/-!
# Printed conjunctions and disjunctions

Parts that are printed with separators between them are read back as the same parts, if every part
is read back in front of a separator and of what may follow the last one. A disjunction of
conjunctions follows from its operands.
-/

namespace SampleSearch

namespace Query

/-- The printed forms of parts, each behind a separator. -/
def tailText (separator : Text) (qs : List Query) : Text :=
  qs.flatMap fun q => separator ++ q.text

theorem joined_partTexts (separator : Text) (q : Query) (qs : List Query) :
    Text.joined separator (partTexts (q :: qs)) = q.text ++ tailText separator qs := by
  induction qs generalizing q with
  | nil => simp [partTexts, Text.joined, tailText]
  | cons q' qs ih =>
    have hq' := ih q'
    simp only [Text.joined, partTexts, tailText] at hq' ⊢
    rw [List.intercalate_cons_cons, hq', List.flatMap_cons]
    simp

/-- A consumer and what it yields: printed forms are read back in front of what may follow. -/
structure Prints (p : Consumer Query) (P : Query → Prop) (F : Text → Prop) : Prop where
  yields : p.Yields P
  skips : ∀ s, p.run (' ' :: s) = p.run s
  opens : ∀ q, P q → q.OpensText
  rereads : ∀ q r, P q → F r → Rereads p.run q r

/-- How the parts of a tree are printed and where a further part is looked for. -/
structure Separates (separator : Text) (next : Text → Option Text)
    (combine : List Query → Query) (F : Text → Prop) : Prop where
  next_append : ∀ s, next (separator ++ s) = some (' ' :: s)
  follows : ∀ s, F (separator ++ s)
  text_combine : ∀ qs, (combine qs).text = Text.joined separator (partTexts qs)
  rangeEnds_combine : ∀ qs, (combine qs).rangeEnds = rangeEndsOfAll qs
  injective : Function.Injective combine

section

variable {p : Consumer Query} {P : Query → Prop} {F : Text → Prop} {separator : Text}
  {next : Text → Option Text} {next_le : ∀ {s t}, next s = some t → t.length ≤ s.length}
  {combine : List Query → Query}

theorem repeated_of_none {s : Text} (h : next s = none) :
    p.repeated next next_le s = .done [] s := by
  rw [Consumer.repeated]
  split
  · rfl
  · simp_all

theorem repeated_of_some {s t : Text} (h : next s = some t) :
    p.repeated next next_le s =
      (p.run t).andThen fun a r => (p.repeated next next_le r).map (a :: ·) := by
  rw [Consumer.repeated]
  split
  · simp_all
  · rename_i t' ht'
    cases h.symm.trans ht'
    split
    · rename_i hrun
      simp [hrun]
    · rename_i hrun
      simp [hrun]

theorem Separates.hasBareEnds_combine (hs : Separates separator next combine F) (qs : List Query) :
    (combine qs).HasBareEnds ↔ ∀ q ∈ qs, q.HasBareEnds := by
  simp only [HasBareEnds, hs.rangeEnds_combine, mem_rangeEndsOfAll]
  constructor
  · rintro h q hq e he
    exact h e ⟨q, hq, he⟩
  · rintro h e ⟨q, hq, he⟩
    exact h q hq e he

theorem Separates.follows_tailText (hs : Separates separator next combine F) {r : Text} (hr : F r)
    (qs : List Query) : F (tailText separator qs ++ r) := by
  cases qs with
  | nil => exact hr
  | cons q qs =>
    rw [tailText, List.flatMap_cons, List.append_assoc, List.append_assoc]
    exact hs.follows _

variable (next_le) in
theorem Prints.repeated_tailText (h : Prints p P F) (hs : Separates separator next combine F)
    {qs : List Query} (hqs : ∀ q ∈ qs, P q) {r : Text} (hr : F r) (hnext : next r = none) :
    ((∀ q ∈ qs, q.HasBareEnds) →
      p.repeated next next_le (tailText separator qs ++ r) = .done qs r) ∧
    ∀ r', p.repeated next next_le (tailText separator qs ++ r) = .done qs r' →
      ∀ q ∈ qs, q.HasBareEnds := by
  induction qs with
  | nil => exact ⟨fun _ => repeated_of_none hnext, by simp⟩
  | cons q qs ih =>
    obtain ⟨ihread, ihbare⟩ := ih fun q hq => hqs q (List.mem_cons_of_mem _ hq)
    have hq := h.rereads q (tailText separator qs ++ r) (hqs q List.mem_cons_self)
      (hs.follows_tailText hr qs)
    have hstep : p.repeated next next_le (tailText separator (q :: qs) ++ r) =
        (p.run (q.text ++ (tailText separator qs ++ r))).andThen fun a r =>
          (p.repeated next next_le r).map (a :: ·) := by
      rw [tailText, List.flatMap_cons, List.append_assoc, List.append_assoc,
        repeated_of_some (hs.next_append _), h.skips]
      rfl
    constructor
    · intro hbare
      rw [hstep, hq.read (hbare q List.mem_cons_self), Outcome.andThen_done,
        ihread fun q hq => hbare q (List.mem_cons_of_mem _ hq), Outcome.map_done]
    · intro r' hr'
      rw [hstep] at hr'
      obtain ⟨a, t, ha, hrest⟩ := Outcome.andThen_eq_done.1 hr'
      obtain ⟨as, has, he⟩ := Outcome.map_eq_done.1 hrest
      obtain ⟨rfl, rfl⟩ := List.cons_eq_cons.1 he
      have hbare := hq.bare t ha
      rw [hq.read hbare] at ha
      cases ha
      intro q' hq'
      rcases List.mem_cons.1 hq' with rfl | hq'
      · exact hbare
      · exact ihbare r' has q' hq'

theorem IsSeparated.exists_parts {q : Query} (hs : Separates separator next combine F)
    (h : IsSeparated P combine q) :
    ∃ a as, P a ∧ (∀ b ∈ as, P b) ∧ q.text = a.text ++ tailText separator as ∧
      (q.HasBareEnds ↔ a.HasBareEnds ∧ ∀ b ∈ as, b.HasBareEnds) ∧
      (if as.isEmpty then a else combine (a :: as)) = q := by
  rcases h with hq | ⟨parts, hlen, hparts, rfl⟩
  · exact ⟨q, [], hq, by simp, by simp [tailText], by simp, rfl⟩
  · match parts with
    | a :: b :: as =>
      refine ⟨a, b :: as, hparts a (by simp), fun c hc => hparts c (List.mem_cons_of_mem _ hc),
        ?_, ?_, rfl⟩
      · rw [hs.text_combine, joined_partTexts]
      · rw [hs.hasBareEnds_combine, List.forall_mem_cons]

/-- Parts with separators between them are read back if each part is. -/
theorem Prints.separated (h : Prints p P F) (hs : Separates separator next combine F)
    (hP : ∀ q parts, P q → q ≠ combine parts) {G : Text → Prop}
    (hG : ∀ r, G r → F r ∧ next r = none) :
    Prints (p.separated next next_le combine) (IsSeparated P combine) G := by
  refine ⟨yields_separated h.yields, fun s => ?_, fun q hq => ?_, fun q r hq hr => ?_⟩
  · simp only [Consumer.separated, h.skips]
  · obtain ⟨a, as, ha, -, htext, -⟩ := hq.exists_parts hs
    obtain ⟨c, s, hc, hblank, hclose⟩ := h.opens a ha
    exact ⟨c, s ++ tailText separator as, by rw [htext, hc]; rfl, hblank, hclose⟩
  · obtain ⟨a, as, ha, has, htext, hends, hcombine⟩ := hq.exists_parts hs
    obtain ⟨hF, hnext⟩ := hG r hr
    have hread := h.rereads a (tailText separator as ++ r) ha (hs.follows_tailText hF as)
    obtain ⟨htail, htail'⟩ := h.repeated_tailText next_le hs has hF hnext
    have htext' : q.text ++ r = a.text ++ (tailText separator as ++ r) := by
      rw [htext, List.append_assoc]
    constructor
    · intro hbare
      obtain ⟨hbarea, hbareas⟩ := hends.1 hbare
      simp only [Consumer.separated, htext', hread.read hbarea, Outcome.andThen_done,
        htail hbareas, Outcome.map_done, hcombine]
    · intro r' hr'
      obtain ⟨a', t, ha', hrest⟩ := Outcome.andThen_eq_done.1 hr'
      obtain ⟨as', has', he⟩ := Outcome.map_eq_done.1 hrest
      -- a part alone is no combination, so the parts that are read are those that were printed
      have hparts : a' = a ∧ as' = as := by
        rw [← hcombine] at he
        cases as' with
        | nil =>
          cases as with
          | nil => exact ⟨he, rfl⟩
          | cons b bs => exact absurd he (hP a' _ (h.yields ha'))
        | cons b' bs' =>
          cases as with
          | nil => exact absurd he.symm (hP a _ ha)
          | cons b bs => simpa using hs.injective he
      obtain ⟨rfl, rfl⟩ := hparts
      rw [htext'] at ha'
      have hbare := hread.bare t ha'
      rw [hread.read hbare] at ha'
      cases ha'
      exact hends.2 ⟨hbare, htail' r' has'⟩

end

/-- What may follow a conjunction in a printed form. -/
def EndsConjunction (r : Text) : Prop :=
  r = [] ∨ (∃ s, r = ')' :: s) ∨ ∃ s, r = " OR ".toList ++ s

/-- What may follow a disjunction in a printed form. -/
def EndsDisjunction (r : Text) : Prop := r = [] ∨ ∃ s, r = ')' :: s

theorem separates_all : Separates " AND ".toList nextConjunct .all EndsOperand where
  next_append _ := rfl
  follows _ := by simp [EndsOperand]
  text_combine _ := rfl
  rangeEnds_combine _ := rfl
  injective _ _ h := by simpa using h

theorem separates_any : Separates " OR ".toList nextAlternative .any EndsConjunction where
  next_append _ := rfl
  follows s := .inr (.inr ⟨s, rfl⟩)
  text_combine _ := rfl
  rangeEnds_combine _ := rfl
  injective _ _ h := by simpa using h

theorem endsOperand_of_endsConjunction {r : Text} (h : EndsConjunction r) :
    EndsOperand r ∧ nextConjunct r = none := by
  rcases h with rfl | ⟨s, rfl⟩ | ⟨s, rfl⟩
  · exact ⟨by simp [EndsOperand], rfl⟩
  · exact ⟨by simp [EndsOperand], rfl⟩
  · exact ⟨by simp [EndsOperand], rfl⟩

theorem endsConjunction_of_endsDisjunction {r : Text} (h : EndsDisjunction r) :
    EndsConjunction r ∧ nextAlternative r = none := by
  rcases h with rfl | ⟨s, rfl⟩
  · exact ⟨.inl rfl, rfl⟩
  · exact ⟨.inr (.inl ⟨s, rfl⟩), rfl⟩

theorem Prints.disjunction {p : Consumer Query} {P : Query → Prop} (h : Prints p P EndsOperand)
    (hall : ∀ q parts, P q → q ≠ .all parts) (hany : ∀ q parts, P q → q ≠ .any parts) :
    Prints (disjunction p) (IsDisjunction P) EndsDisjunction := by
  have hconj : Prints (conjunction p) (IsConjunction P) EndsConjunction :=
    h.separated separates_all hall fun _ => endsOperand_of_endsConjunction
  refine hconj.separated separates_any ?_ fun _ => endsConjunction_of_endsDisjunction
  rintro q parts (hq | ⟨_, _, _, rfl⟩)
  · exact hany q parts hq
  · simp

end Query

end SampleSearch
