import SampleSearch.Proofs.DigitOrder
import SampleSearch.Proofs.PrintedQueries

/-!
# Queries in front of what closes them

A query that is read up to the end of a text is read in the same way in front of blanks and a
closing parenthesis. Words and numbers end there as they do at the end, and no operator or operand
follows. Only a keyword at the very end is no longer one in front of a parenthesis, but a query
never ends with one.
-/

namespace SampleSearch

namespace Query

open Lexeme

/-- Blanks, and then nothing or a closing parenthesis. -/
def ClosesQuery (e : Text) : Prop := ∀ c ∈ (skipBlank e).head?, c = ')'

theorem closesQuery_cons (e : Text) : ClosesQuery (')' :: e) := by
  intro c hc
  cases hc
  rfl

theorem closesQuery_of_blank {e : Text} (h : skipBlank e = []) : ClosesQuery e := by
  intro c hc
  rw [h] at hc
  cases hc

theorem skipBlank_append_of_ne_nil {s : Text} (h : skipBlank s ≠ []) (e : Text) :
    skipBlank (s ++ e) = skipBlank s ++ e := by
  rw [skipBlank, List.dropWhile_append, if_neg (by simpa [skipBlank] using h)]
  rfl

theorem skipBlank_append_of_eq_nil {s : Text} (h : skipBlank s = []) (e : Text) :
    skipBlank (s ++ e) = skipBlank e := by
  rw [skipBlank, List.dropWhile_append, if_pos (by simpa [skipBlank] using h)]
  rfl

theorem atKeyword_append_self (k t : Text) : atKeyword k (k ++ t) = endsKeyword t := by
  simp [atKeyword]

theorem drop_append_of_isPrefixOf {k s : Text} (h : k.isPrefixOf s = true) (e : Text) :
    (s ++ e).drop k.length = s.drop k.length ++ e :=
  List.drop_append_of_le_length (List.isPrefixOf_iff_prefix.1 h).length_le

theorem isPrefixOf_of_atKeyword {k s : Text} (h : atKeyword k s = true) :
    k.isPrefixOf s = true := by
  rw [atKeyword, Bool.and_eq_true] at h
  exact h.1

theorem readDelimited_append_more {d c : Char} (hd : d ≠ '\\') {fault : SyntaxFault}
    {s t r : Text} (h : readDelimited d fault (c :: s) = .done t r) (e : Text) :
    readDelimited d fault (c :: (s ++ e)) = .done t (r ++ e) := by
  obtain ⟨rfl, hfree⟩ := isEnclosed_of_readDelimited h
  have hread := readDelimited_append hd hfree c fault (r ++ e)
  simpa using hread

theorem closeRange_append {low high r r' : Text} {b : Bool} {q : Query}
    (h : closeRange low b high r = .done q r') (e : Text) :
    closeRange low b high (r ++ e) = .done q (r' ++ e) := by
  have hne : skipBlank r ≠ [] := by
    intro hnil
    simp [closeRange, hnil] at h
  rw [closeRange, skipBlank_append_of_ne_nil hne]
  unfold closeRange at h
  split at h
  · rename_i heq
    cases h
    rw [heq]
    rfl
  · rename_i heq
    cases h
    rw [heq]
    rfl
  · simp at h

theorem ne_nil_of_done {p : Consumer Query} {s : Text} {q : Query} {r : Text}
    (h : p.run s = .done q r) : s ≠ [] := by
  rintro rfl
  exact absurd (p.shorter h) (Nat.not_lt_zero _)

theorem splitNumber_eq (t : Text) :
    t = (splitNumber t).1 ++ (splitNumber t).2 ∧ EndsNumeral (splitNumber t).2 := by
  refine ⟨List.takeWhile_append_dropWhile.symm, fun c hc => ?_⟩
  have hhead := List.head?_dropWhile_not (fun c => c.isDigit || c == '.') t
  rw [Option.mem_def] at hc
  simp only [splitNumber] at hc
  rw [hc] at hhead
  simpa using hhead

section

variable {e : Text} (he : ClosesQuery e)

include he

theorem ClosesQuery.head {c : Char} (hc : c ∈ e.head?) : isBlank c = true ∨ c = ')' := by
  obtain ⟨s, rfl⟩ := List.head?_eq_some_iff.1 hc
  by_cases hb : isBlank c = true
  · exact .inl hb
  · right
    apply he
    rw [skipBlank_cons, if_neg hb]
    rfl

theorem ClosesQuery.head_ne {d : Char} (hb : isBlank d = false) (hd : d ≠ ')') :
    d ∉ e.head? := by
  intro hmem
  rcases he.head hmem with h | h
  · rw [hb] at h
    cases h
  · exact hd h

theorem ClosesQuery.skipBlank_cases : skipBlank e = [] ∨ ∃ s, skipBlank e = ')' :: s := by
  cases h : skipBlank e with
  | nil => exact .inl rfl
  | cons c s =>
    have hc := he c (by rw [h]; rfl)
    exact .inr ⟨s, by rw [hc]⟩

theorem ClosesQuery.nextConjunct : nextConjunct e = none := by
  rcases he.skipBlank_cases with h | ⟨s, h⟩ <;> simp only [Query.nextConjunct, h] <;> rfl

theorem ClosesQuery.nextAlternative : nextAlternative e = none := by
  rcases he.skipBlank_cases with h | ⟨s, h⟩ <;> simp only [Query.nextAlternative, h] <;> rfl

theorem ClosesQuery.endsWord : EndsWord e := by
  intro c hc
  rcases he.head hc with h | rfl
  · simp [breaksWord, h]
  · decide

theorem ClosesQuery.stopsModifiers : StopsModifiers e := by
  intro c hc
  constructor
  · rintro rfl
    exact he.head_ne (by decide) (by decide) hc
  · rintro rfl
    exact he.head_ne (by decide) (by decide) hc

theorem ClosesQuery.endsNumeral : EndsNumeral e := by
  intro c hc
  cases hdigit : c.isDigit with
  | true =>
    have hcode := Text.toNat_of_isDigit hdigit
    rcases he.head hc with hb | rfl
    · simp [isBlank, blankRanges] at hb
      omega
    · cases hdigit
  | false =>
    by_cases hpoint : c = '.'
    · subst hpoint
      exact absurd hc (he.head_ne (by decide) (by decide))
    · simpa using hpoint

/-- Signs of operators and keywords. -/
def IsSign (k : Text) : Prop := ∀ c ∈ k, isBlank c = false ∧ c ≠ ')'

theorem isPrefixOf_append {k : Text} (hk : IsSign k) (s : Text) :
    k.isPrefixOf (s ++ e) = k.isPrefixOf s := by
  induction k generalizing s with
  | nil => simp
  | cons a k ih =>
    obtain ⟨⟨hblank, hclose⟩, hk⟩ := List.forall_mem_cons.1 hk
    cases s with
    | nil =>
      have hne := he.head_ne hblank hclose
      cases e with
      | nil => rfl
      | cons c e =>
        rw [List.head?_cons, Option.mem_some_iff] at hne
        simp [List.isPrefixOf, Ne.symm hne]
    | cons b s =>
      rw [List.cons_append, List.isPrefixOf, List.isPrefixOf, ih hk]

/-- A keyword is told apart by the character behind it, if there is one. -/
theorem atKeyword_append {k : Text} (hk : IsSign k) {s : Text} (hne : s ≠ k) :
    atKeyword k (s ++ e) = atKeyword k s := by
  cases hsign : k.isPrefixOf s with
  | false => rw [atKeyword, atKeyword, isPrefixOf_append he hk, hsign, Bool.false_and]; rfl
  | true =>
    obtain ⟨t, rfl⟩ := List.isPrefixOf_iff_prefix.1 hsign
    cases t with
    | nil => simp at hne
    | cons c t =>
      rw [List.append_assoc, atKeyword_append_self, atKeyword_append_self]
      rfl

/-- A further alternative is found at the same place, unless nothing stands behind its keyword. -/
theorem nextAlternative_append {s : Text} (hne : Query.nextAlternative s ≠ some []) :
    Query.nextAlternative (s ++ e) = (Query.nextAlternative s).map (· ++ e) := by
  have hbar : IsSign "||".toList := by simp [IsSign]; decide
  have hor : IsSign "OR".toList := by simp [IsSign]; decide
  by_cases hb : skipBlank s = []
  · have hnone : Query.nextAlternative s = none := by simp only [Query.nextAlternative, hb]; rfl
    have hclosed := he.nextAlternative
    rw [Query.nextAlternative] at hclosed
    rw [hnone, Query.nextAlternative, skipBlank_append_of_eq_nil hb, hclosed]
    rfl
  · have hword : skipBlank s ≠ "OR".toList := by
      intro h
      apply hne
      simp only [Query.nextAlternative, h]
      rfl
    simp only [Query.nextAlternative, skipBlank_append_of_ne_nil hb, isPrefixOf_append he hbar,
      atKeyword_append he hor hword]
    split
    · rename_i hsign
      exact congrArg some (drop_append_of_isPrefixOf hsign e)
    · split
      · rename_i hkeyword
        exact congrArg some (drop_append_of_isPrefixOf (isPrefixOf_of_atKeyword hkeyword) e)
      · rfl

theorem startsOperand_append {s : Text} (hne : s ≠ []) (hword : s ≠ "OR".toList) :
    startsOperand (s ++ e) = startsOperand s := by
  have hbar : IsSign "||".toList := by simp [IsSign]; decide
  have hor : IsSign "OR".toList := by simp [IsSign]; decide
  have hsign := isPrefixOf_append he hbar s
  have hkeyword := atKeyword_append he hor hword
  cases s with
  | nil => exact absurd rfl hne
  | cons c s =>
    rw [List.cons_append] at hsign hkeyword ⊢
    rw [startsOperand, startsOperand, hsign, hkeyword]

/-- A further operand is found at the same place, unless nothing stands behind a keyword. -/
theorem nextConjunct_append {s : Text} (hne : Query.nextConjunct s ≠ some [])
    (hor : skipBlank s ≠ "OR".toList) :
    Query.nextConjunct (s ++ e) = (Query.nextConjunct s).map (· ++ e) := by
  have hboth : IsSign "&&".toList := by simp [IsSign]; decide
  have hand : IsSign "AND".toList := by simp [IsSign]; decide
  by_cases hb : skipBlank s = []
  · have hnone : Query.nextConjunct s = none := by simp only [Query.nextConjunct, hb]; rfl
    have hclosed := he.nextConjunct
    rw [Query.nextConjunct] at hclosed
    rw [hnone, Query.nextConjunct, skipBlank_append_of_eq_nil hb, hclosed]
    rfl
  · have hword : skipBlank s ≠ "AND".toList := by
      intro h
      apply hne
      simp only [Query.nextConjunct, h]
      rfl
    simp only [Query.nextConjunct, skipBlank_append_of_ne_nil hb, isPrefixOf_append he hboth,
      atKeyword_append he hand hword, startsOperand_append he hb hor]
    split
    · rename_i hsign
      exact congrArg some (drop_append_of_isPrefixOf hsign e)
    · split
      · rename_i hkeyword
        exact congrArg some (drop_append_of_isPrefixOf (isPrefixOf_of_atKeyword hkeyword) e)
      · split <;> rfl

/-- A prefix operator is found at the same place, unless nothing stands behind its keyword. -/
theorem prefixOperator?_append_closing {s : Text} (hne : s ≠ []) (hword : s ≠ "NOT".toList) :
    prefixOperator? (s ++ e) = (prefixOperator? s).map fun p => (p.1, p.2 ++ e) := by
  have hnot : IsSign "NOT".toList := by simp [IsSign]; decide
  have hsame := atKeyword_append he hnot hword
  cases s with
  | nil => exact absurd rfl hne
  | cons c s =>
    rw [List.cons_append] at hsame ⊢
    unfold prefixOperator?
    rw [hsame]
    cases hkeyword : atKeyword "NOT".toList (c :: s) with
    | true =>
      have hdrop := drop_append_of_isPrefixOf (isPrefixOf_of_atKeyword hkeyword) e
      exact congrArg (fun t => some (Query.negated, t)) hdrop
    | false =>
      simp only [Bool.false_eq_true, if_false]
      split <;> simp_all

theorem endsWord_append_closing {r : Text} (h : EndsWord r) : EndsWord (r ++ e) := by
  cases r with
  | nil => exact he.endsWord
  | cons c r => exact h

theorem endpoint_append_closing {s t r : Text} (h : endpoint s = .done t r) :
    endpoint (s ++ e) = .done t (r ++ e) := by
  unfold endpoint at h
  split at h
  · exact readDelimited_append_more (by decide) h e
  · obtain ⟨rfl, hword, hr⟩ := isWord_of_readWord h
    rw [List.append_assoc]
    exact endpoint_append hword (endsWord_append_closing he hr)

theorem rangeRest_append_closing {b : Bool} {s : Text} {q : Query} {r : Text}
    (h : rangeRest anyEnd b s = .done q r) : rangeRest anyEnd b (s ++ e) = .done q (r ++ e) := by
  have hblank : ∀ {s t r : Text}, endpoint (skipBlank s) = .done t r →
      endpoint (skipBlank (s ++ e)) = .done t (r ++ e) := by
    intro s t r h
    have hne : skipBlank s ≠ [] := by
      intro hnil
      rw [hnil] at h
      exact absurd (length_of_endpoint h) (Nat.not_lt_zero _)
    rw [skipBlank_append_of_ne_nil hne]
    exact endpoint_append_closing he h
  obtain ⟨low, t, hlow, h⟩ := Outcome.andThen_eq_done.1 h
  simp only [rangeRest, anyEnd, hblank hlow, Outcome.andThen_done]
  simp only at h
  split at h
  · rename_i hto
    obtain ⟨high, u, hhigh, h⟩ := Outcome.andThen_eq_done.1 h
    have hsign := isPrefixOf_of_atKeyword hto
    have hne : skipBlank t ≠ [] := by
      intro hnil
      rw [hnil] at hto
      cases hto
    have hword : skipBlank t ≠ "TO".toList := by
      intro hword
      rw [hword] at hhigh
      exact absurd (anyEnd.shorter hhigh) (Nat.not_lt_zero _)
    have hkeyword : IsSign "TO".toList := by simp [IsSign]; decide
    have hdrop : (skipBlank t ++ e).drop 2 = (skipBlank t).drop 2 ++ e :=
      drop_append_of_isPrefixOf hsign e
    rw [skipBlank_append_of_ne_nil hne, atKeyword_append he hkeyword hword, if_pos hto, hdrop,
      hblank hhigh, Outcome.andThen_done]
    exact closeRange_append h e
  · simp at h

theorem leaf_append_closing {s : Text} {q : Query} {r : Text}
    (h : leaf anyEnd s = .done q r) : leaf anyEnd (s ++ e) = .done q (r ++ e) := by
  unfold leaf at h
  split at h
  · obtain ⟨c, hc, rfl⟩ := Outcome.map_eq_done.1 h
    rw [List.cons_append, leaf, readDelimited_append_more (by decide) hc e, Outcome.map_done]
  · obtain ⟨c, hc, rfl⟩ := Outcome.map_eq_done.1 h
    rw [List.cons_append, leaf, readDelimited_append_more (by decide) hc e, Outcome.map_done]
  · exact rangeRest_append_closing he h
  · exact rangeRest_append_closing he h
  · rename_i hslash _ _
    obtain ⟨w, t, hw, h⟩ := Outcome.andThen_eq_done.1 h
    obtain ⟨rfl, hword, hr⟩ := isWord_of_readWord hw
    have hhead : w.head? ≠ some '/' := by
      intro hhead
      obtain ⟨v, rfl⟩ := List.head?_eq_some_iff.1 hhead
      exact hslash _ rfl
    split at h
    · simp at h
    · rename_i hkeyword
      cases h
      rw [List.append_assoc]
      exact leaf_word hword (by simpa using hkeyword) hhead (endsWord_append_closing he hr)

theorem endsNumeral_append_closing {r : Text} (h : EndsNumeral r) : EndsNumeral (r ++ e) := by
  cases r with
  | nil => exact he.endsNumeral
  | cons c r => exact h

theorem modifiers_append_closing {n : Nat} {p : Query} {s : Text} {q : Query} {r : Text}
    (h : modifiers n p s = .done q r) : modifiers n p (s ++ e) = .done q (r ++ e) := by
  have hstops := stops_of_modifiers h
  fun_induction modifiers n p s with
  | case1 n p t number q' hq ih =>
    obtain ⟨ht, hends⟩ := splitNumber_eq t
    rw [List.cons_append, ht, List.append_assoc,
      modifiers_tilde (isNumeral_splitNumber t) (endsNumeral_append_closing he hends) hq]
    exact ih h
  | case2 => simp at h
  | case3 => simp at h
  | case4 => simp at h
  | case5 n p t number hne hn ih =>
    obtain ⟨ht, hends⟩ := splitNumber_eq t
    rw [List.cons_append, ht, List.append_assoc,
      modifiers_boost (isNumeral_splitNumber t) (by simpa using hne) (by omega)
        (endsNumeral_append_closing he hends)]
    exact ih h
  | case6 n p s _ _ =>
    cases h
    apply modifiers_of_stops
    cases r with
    | nil => exact he.stopsModifiers
    | cons c r => exact hstops

end

end Query

end SampleSearch
