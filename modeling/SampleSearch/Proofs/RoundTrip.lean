import SampleSearch.Proofs.PrintedQueries

/-!
# Round trip of queries

What is accepted where ends of ranges must be words is accepted where they may also stand in
quotes, as the same tree. So a query without quoted ends of ranges is read back from its printed
form, and among all queries exactly those are whose ends of ranges are bare words.
-/

namespace SampleSearch

theorem eq_ok_of_toOption {ε α : Type} {x : Except ε α} {a : α} (h : x.toOption = some a) :
    x = .ok a := by
  cases x with
  | error e => cases h
  | ok b =>
    cases h
    rfl

/-- Whether whatever one consumer is done with, another is done with in the same way. -/
def Consumer.IsWithin {α : Type} (p p' : Consumer α) : Prop :=
  ∀ ⦃s a r⦄, p.run s = .done a r → p'.run s = .done a r

namespace Query

open Lexeme

theorem isWithin_separated {p p' : Consumer Query} (h : p.IsWithin p') {next : Text → Option Text}
    (next_le : ∀ {s t}, next s = some t → t.length ≤ s.length) (combine : List Query → Query) :
    (p.separated next next_le combine).IsWithin (p'.separated next next_le combine) := by
  have hrepeated : ∀ {s qs r}, p.repeated next next_le s = .done qs r →
      p'.repeated next next_le s = .done qs r := by
    intro s qs r hs
    fun_induction Consumer.repeated p next next_le s generalizing qs with
    | case1 s hn =>
      cases hs
      exact repeated_of_none hn
    | case2 => cases hs
    | case3 s t hn a r' hrun hlt ih =>
      obtain ⟨as, has, rfl⟩ := Outcome.map_eq_done.1 hs
      rw [repeated_of_some hn, h hrun, Outcome.andThen_done, ih has, Outcome.map_done]
  intro s q r hs
  obtain ⟨a, t, ha, hrest⟩ := Outcome.andThen_eq_done.1 hs
  obtain ⟨as, has, he⟩ := Outcome.map_eq_done.1 hrest
  simp only [Consumer.separated, h ha, Outcome.andThen_done, hrepeated has, Outcome.map_done, he]

theorem isWithin_disjunction {p p' : Consumer Query} (h : p.IsWithin p') :
    (disjunction p).IsWithin (disjunction p') :=
  isWithin_separated (isWithin_separated h nextConjunct_le _) nextAlternative_le _

section

variable {ends ends' : Consumer Text} (hends : ends.IsWithin ends')

include hends

theorem rangeRest_of_isWithin {b : Bool} {s : Text} {q : Query} {r : Text}
    (h : rangeRest ends b s = .done q r) : rangeRest ends' b s = .done q r := by
  obtain ⟨low, t, hlow, h⟩ := Outcome.andThen_eq_done.1 h
  simp only [rangeRest, hends hlow, Outcome.andThen_done]
  simp only at h
  split at h
  · rename_i hto
    obtain ⟨high, u, hhigh, h⟩ := Outcome.andThen_eq_done.1 h
    rw [if_pos hto, hends hhigh, Outcome.andThen_done]
    exact h
  · simp at h

theorem leaf_of_isWithin {s : Text} {q : Query} {r : Text} (h : leaf ends s = .done q r) :
    leaf ends' s = .done q r := by
  unfold leaf at h ⊢
  split at h
  · exact h
  · exact h
  · exact rangeRest_of_isWithin hends h
  · exact rangeRest_of_isWithin hends h
  · exact h

variable {inner inner' : Option (Consumer Query)}
  (hinner : ∀ p, inner = some p → ∃ p', inner' = some p' ∧ p.IsWithin p')

omit hends in
include hinner in
theorem groupRest_of_isWithin {opening s : Text} {q : Query} {r : Text}
    (h : groupRest inner opening s = .done q r) : groupRest inner' opening s = .done q r := by
  unfold groupRest at h
  split at h
  · simp at h
  · rename_i p
    obtain ⟨p', rfl, hp⟩ := hinner p rfl
    simp only [groupRest]
    split at h
    · simp at h
    · obtain ⟨q', t, hq, h⟩ := Outcome.andThen_eq_done.1 h
      rw [isWithin_disjunction hp hq, Outcome.andThen_done]
      exact h

include hinner

theorem fieldBase_of_isWithin {s : Text} {q : Query} {r : Text}
    (h : fieldBase ends inner s = .done q r) : fieldBase ends' inner' s = .done q r := by
  unfold fieldBase at h ⊢
  split at h
  · simp at h
  · obtain ⟨g, hg, rfl⟩ := Outcome.map_eq_done.1 h
    simp only [groupRest_of_isWithin hinner hg, Outcome.map_done]
  · split at h
    · simp at h
    · rename_i hc
      rw [if_neg hc]
      exact leaf_of_isWithin hends h

theorem fieldRest_of_isWithin {name s : Text} {q : Query} {r : Text}
    (h : fieldRest ends inner name s = .done q r) : fieldRest ends' inner' name s = .done q r := by
  unfold fieldRest
  obtain ⟨v, hv, rfl⟩ := Outcome.map_eq_done.1 h
  obtain ⟨b, t, hb, hm⟩ := Outcome.andThen_eq_done.1 hv
  rw [fieldBase_of_isWithin hends hinner hb, Outcome.andThen_done, hm, Outcome.map_done]

theorem primary_of_isWithin {s : Text} {q : Query} {r : Text}
    (h : primary ends inner s = .done q r) : primary ends' inner' s = .done q r := by
  unfold primary at h ⊢
  split at h
  · simp at h
  · obtain ⟨g, hg, rfl⟩ := Outcome.map_eq_done.1 h
    simp only [groupRest_of_isWithin hinner hg, Outcome.map_done]
  · split at h
    · rename_i hc
      rw [if_pos hc]
      exact leaf_of_isWithin hends h
    · rename_i hc
      rw [if_neg hc]
      split at h
      · simp at h
      · rename_i hbreak
        rw [if_neg hbreak]
        obtain ⟨w, t, hw, h⟩ := Outcome.andThen_eq_done.1 h
        rw [hw, Outcome.andThen_done]
        split at h
        · exact fieldRest_of_isWithin hends hinner h
        · exact h

theorem isWithin_operandWith : (operandWith ends inner).IsWithin (operandWith ends' inner') := by
  intro s q r h
  simp only [operandWith, operandRun] at h ⊢
  split at h
  · rename_i wrap t hwrap
    split at h
    · simp at h
    · rename_i p
      obtain ⟨p', rfl, hp⟩ := hinner p rfl
      obtain ⟨q', hq, rfl⟩ := Outcome.map_eq_done.1 h
      simp only [hp hq, Outcome.map_done]
  · rename_i hsign
    obtain ⟨q', t, hq, hm⟩ := Outcome.andThen_eq_done.1 h
    simp only [primary_of_isWithin hends hinner hq, Outcome.andThen_done, hm]

omit hinner

theorem isWithin_operand (depth : Nat) :
    (operand ends depth).IsWithin (operand ends' depth) := by
  induction depth with
  | zero => exact isWithin_operandWith hends (by simp)
  | succ depth ih =>
    apply isWithin_operandWith hends
    rintro p ⟨⟩
    exact ⟨_, rfl, ih⟩

/-- More ways to write the ends of ranges only add queries. -/
theorem parseWith_of_isWithin {s : Text} {q : Query} (h : parseWith ends s = .ok q) :
    parseWith ends' s = .ok q := by
  unfold parseWith at h ⊢
  split at h
  · rename_i q' r ho
    cases h
    simp only [outcome] at ho ⊢
    split at ho
    · simp at ho
    · rename_i hempty
      obtain ⟨q', t, hq, ho⟩ := Outcome.andThen_eq_done.1 ho
      rw [if_neg hempty, isWithin_disjunction (isWithin_operand hends _) hq,
        Outcome.andThen_done, ho]
  · cases h

end

theorem isWithin_wordEnd : wordEnd.IsWithin anyEnd := by
  intro s w r h
  obtain ⟨rfl, hw, hr⟩ := isWord_of_readWord h
  exact endpoint_append hw hr

theorem hasBareEnds_of_parseWith_wordEnd {s : Text} {q : Query}
    (h : parseWith wordEnd s = .ok q) : q.HasBareEnds := by
  have hyields : wordEnd.Yields IsBareWord := fun _ _ _ hw => (isWord_of_readWord hw).2.1.bare
  have hshape := isDisjunction_of_parseWith hyields h
  exact hshape.rangeEnds fun _ hq => IsOperand.rangeEnds hq

/-- A parsed query is read back from its printed form exactly if the ends of its ranges are bare
words. So it is if no end of a range is written in quotes. -/
theorem parse_text {s : Text} {q : Query} (h : parse s = .ok q) :
    (parse q.text = .ok q ↔ ∀ e ∈ q.rangeEnds, IsBareWord e) ∧
      ((∃ p, parseWith wordEnd s = .ok p) → parse q.text = .ok q) := by
  have hiff : parse q.text = .ok q ↔ q.HasBareEnds :=
    parse_text_iff_of_isDisjunction (isDisjunction_of_parseWith yields_anyEnd h)
  refine ⟨hiff, fun ⟨p, hp⟩ => hiff.2 ?_⟩
  have hsame : parse s = .ok p := parseWith_of_isWithin isWithin_wordEnd hp
  rw [h] at hsame
  cases hsame
  exact hasBareEnds_of_parseWith_wordEnd hp

/-- Of the quoted ends of ranges in this tree, `c` is also a bare word and `g h` is not. -/
def quotedEnds : Query :=
  .all [.negated (.word "a".toList),
    .group (.any
      [.field "b".toList (.boost (.range ⟨"c".toList, "d\\ e".toList, true, false⟩) "2".toList),
       .field "f".toList (.range ⟨"g h".toList, "*".toList, true, true⟩)])]

theorem parse_text_quotedEnds :
    parse "!a (b:[\"c\" TO d\\ e\x7d^2 || f:[\"g h\" TO *])".toList = .ok quotedEnds ∧
      (parse quotedEnds.text = .ok quotedEnds ↔ ∀ e ∈ quotedEnds.rangeEnds, IsBareWord e) ∧
      IsBareWord "c".toList ∧ ¬ IsBareWord "g h".toList ∧
      parse quotedEnds.text ≠ .ok quotedEnds := by
  have hparse : parse "!a (b:[\"c\" TO d\\ e\x7d^2 || f:[\"g h\" TO *])".toList =
      .ok quotedEnds := eq_ok_of_toOption (by decide +kernel)
  have hiff := (parse_text hparse).1
  have hquoted : ¬ IsBareWord "g h".toList := by decide
  exact ⟨hparse, hiff, by decide, hquoted, fun h => hquoted (hiff.1 h _ (by decide))⟩

end Query

end SampleSearch
