import SampleSearch.Proofs.NestingLimits

/-!
# Queries in parentheses

A query in parentheses is parsed to the group of its tree, and two of them with an operator between
them to the two groups. Blanks around a query change nothing. The parentheses count as one more
level: a query that uses up all levels is refused as too deep once it stands in them.
-/

namespace SampleSearch.Query

open Lexeme Outcome

def inParentheses (s : Text) : Text := '(' :: (s ++ [')'])

section

variable {p : Consumer Query} {next : Text → Option Text}
  {next_le : ∀ {s t}, next s = some t → t.length ≤ s.length} {combine : List Query → Query}
  {s : Text} {q : Query} {r : Text}

theorem separated_of_none (h : p.run s = .done q r) (hr : next r = none) :
    (p.separated next next_le combine).run s = .done q r := by
  simp only [Consumer.separated, h, repeated_of_none hr, Outcome.andThen_done, Outcome.map_done]
  rfl

theorem separated_of_some {t u : Text} {q' : Query} (h : p.run s = .done q t)
    (ht : next t = some u) (h' : p.run u = .done q' r) (hr : next r = none) :
    (p.separated next next_le combine).run s = .done (combine [q, q']) r := by
  simp only [Consumer.separated, h, repeated_of_some ht, h', repeated_of_none hr,
    Outcome.andThen_done, Outcome.map_done]
  rfl

theorem separated_of_stopped {fault : SyntaxFault} {left : Nat}
    (h : p.run s = .stopped fault left) :
    (p.separated next next_le combine).run s = .stopped fault left := by
  simp only [Consumer.separated, h, Outcome.andThen_stopped]

theorem disjunction_of_stopped {fault : SyntaxFault} {left : Nat}
    (h : p.run s = .stopped fault left) : (disjunction p).run s = .stopped fault left :=
  separated_of_stopped (separated_of_stopped h)

end

theorem closeQuery_eq_done {q' q : Query} {t r : Text} :
    closeQuery q' t = .done q r ↔ q' = q ∧ skipBlank t = [] ∧ r = [] := by
  unfold closeQuery
  split
  · rename_i hnil
    simp [hnil, eq_comm]
  · rename_i hcons
    simp [hcons]

theorem parse_eq_ok_iff_outcome {s : Text} {q : Query} :
    parse s = .ok q ↔ ∃ r, outcome anyEnd s = .done q r := by
  unfold parse parseWith
  cases outcome anyEnd s <;> simp

theorem parse_eq_ok_iff {s : Text} {q : Query} :
    parse s = .ok q ↔ ∃ r, (disjunction (operand anyEnd maxNesting)).run (skipBlank s) = .done q r ∧
      skipBlank r = [] := by
  rw [parse_eq_ok_iff_outcome]
  constructor
  · rintro ⟨r, h⟩
    simp only [outcome] at h
    split at h
    · simp at h
    · obtain ⟨q', t, hrun, h⟩ := Outcome.andThen_eq_done.1 h
      obtain ⟨rfl, ht, -⟩ := closeQuery_eq_done.1 h
      exact ⟨t, hrun, ht⟩
  · rintro ⟨r, hrun, hr⟩
    have hempty : (skipBlank s).isEmpty = false := by simpa using ne_nil_of_done hrun
    have hclose : closeQuery q r = .done q [] := closeQuery_eq_done.2 ⟨rfl, hr, rfl⟩
    exact ⟨[], by simp [outcome, hempty, hrun, hclose]⟩

theorem parse_of_stopped {s : Text} (hs : skipBlank s ≠ []) {fault : SyntaxFault} {left : Nat}
    (h : (disjunction (operand anyEnd maxNesting)).run (skipBlank s) = .stopped fault left) :
    parse s = .error (.badSyntax fault (s.length - left)) := by
  have hempty : (skipBlank s).isEmpty = false := by simpa using hs
  simp [parse, parseWith, outcome, hempty, h]

theorem skipBlank_of_blank {w : Text} (hw : ∀ c ∈ w, isBlank c = true) : skipBlank w = [] := by
  have hall : skipBlank (w ++ []) = skipBlank [] := List.dropWhile_append_of_pos hw
  rwa [List.append_nil] at hall

theorem skipBlank_append_of_blank {w : Text} (hw : ∀ c ∈ w, isBlank c = true) (s : Text) :
    skipBlank (w ++ s) = skipBlank s := List.dropWhile_append_of_pos hw

/-- A query in parentheses is an operand unless it uses up all levels of nesting. -/
theorem operand_inParentheses {s : Text} {q : Query} (h : parse s = .ok q) {w e : Text}
    (hw : ∀ c ∈ w, isBlank c = true) (he : StopsModifiers e) :
    ((operand anyEnd maxNesting).run (w ++ (inParentheses s ++ e))).IsLimited (q.nesting ≤ 63)
      (group q) e := by
  obtain ⟨r, hrun, hr⟩ := parse_eq_ok_iff.1 h
  have hclosing := closesQuery_cons e
  have hinside := disjunction_append hclosing (operand_append hclosing maxNesting 63) hrun
  have hclose (opening : Text) : closeGroup opening q (r ++ ')' :: e) = .done q e := by
    rw [closeGroup_eq_done, skipBlank_append_of_eq_nil hr]
    exact ⟨rfl, rfl⟩
  have hne := ne_nil_of_done hrun
  have hhead : (skipBlank (s ++ ')' :: e)).head? ≠ some ')' := by
    rw [skipBlank_append_of_ne_nil hne]
    cases hs : skipBlank s with
    | nil => exact absurd hs hne
    | cons c t =>
      rintro ⟨⟩
      rw [hs] at hrun
      cases hrun
  have hgroup (opening : Text) : (groupRest (some (operand anyEnd 63)) opening
      (s ++ ')' :: e)).IsLimited (q.nesting ≤ 63) q e := by
    rw [groupRest_some hhead, skipBlank_append_of_ne_nil hne]
    exact hinside.andThen_done (hclose opening)
  have hsplit : inParentheses s ++ e = '(' :: (s ++ ')' :: e) := by simp [inParentheses]
  have hoperand := ((hgroup ('(' :: (s ++ ')' :: e))).map Query.group).andThen_done
    (modifiers_of_stops he 0 (group q))
  rw [hsplit]
  show (operandRun anyEnd (some (operand anyEnd 63)) _).IsLimited _ _ _
  simp only [operandRun, skipBlank_append_of_blank hw]
  exact hoperand

/-- Blanks around a query change nothing. -/
theorem parse_append_of_blank {s : Text} {q : Query} (h : parse s = .ok q) {before after : Text}
    (hbefore : ∀ c ∈ before, isBlank c = true) (hafter : ∀ c ∈ after, isBlank c = true) :
    parse (before ++ (s ++ after)) = .ok q := by
  have hnesting : q.nesting ≤ maxNesting :=
    ((isDisjunction_of_parseWith yields_anyEnd h).isBounded fun _ hp =>
      IsOperand.isBounded hp).nesting_le
  have hclosing := closesQuery_of_blank (skipBlank_of_blank hafter)
  obtain ⟨r, hrun, hr⟩ := parse_eq_ok_iff.1 h
  have hlimited := disjunction_append hclosing (operand_append hclosing maxNesting maxNesting) hrun
  refine parse_eq_ok_iff.2 ⟨r ++ after, ?_, ?_⟩
  · rw [skipBlank_append_of_blank hbefore, skipBlank_append_of_ne_nil (ne_nil_of_done hrun)]
    exact hlimited.done hnesting
  · rw [skipBlank_append_of_eq_nil hr, skipBlank_of_blank hafter]

section

variable {w : Text} (hw : ∀ c ∈ w, isBlank c = true)

include hw

theorem StopsModifiers.append_of_blank {e : Text} (he : StopsModifiers e) :
    StopsModifiers (w ++ e) := by
  cases w with
  | nil => exact he
  | cons c w =>
    have hc := hw c List.mem_cons_self
    rintro _ ⟨⟩
    constructor
    · rintro rfl
      cases hc
    · rintro rfl
      cases hc

theorem endsKeyword_inParentheses (s : Text) : endsKeyword (w ++ inParentheses s) = true := by
  cases w with
  | nil => rfl
  | cons c w =>
    have hc := hw c List.mem_cons_self
    simp [endsKeyword, hc]

theorem nextConjunct_and {t : Text} (ht : endsKeyword t = true) :
    nextConjunct (w ++ ("AND".toList ++ t)) = some t := by
  have hs : skipBlank ("AND".toList ++ t) = "AND".toList ++ t := rfl
  simp only [nextConjunct, skipBlank_append_of_blank hw, hs, atKeyword_append_self, ht]
  rfl

theorem next_or {t : Text} (ht : endsKeyword t = true) :
    nextConjunct (w ++ ("OR".toList ++ t)) = none ∧
      nextAlternative (w ++ ("OR".toList ++ t)) = some t := by
  have hs : skipBlank ("OR".toList ++ t) = "OR".toList ++ t := rfl
  have hkeyword : atKeyword "OR".toList ("OR".toList ++ t) = true := by
    rw [atKeyword_append_self, ht]
  have hstarts : startsOperand ("OR".toList ++ t) = false := by
    have hsame : startsOperand ("OR".toList ++ t) =
        (true && !atKeyword "OR".toList ("OR".toList ++ t)) := rfl
    rw [hsame, hkeyword]
    rfl
  constructor
  · simp only [nextConjunct, skipBlank_append_of_blank hw, hs, hstarts]
    rfl
  · simp only [nextAlternative, skipBlank_append_of_blank hw, hs, hkeyword]
    rfl

end

theorem stopsModifiers_nil : StopsModifiers [] := by simp [StopsModifiers]

section

variable {s₁ s₂ : Text} {q₁ q₂ : Query} (h₁ : parse s₁ = .ok q₁) (h₂ : parse s₂ = .ok q₂)
  (hq₁ : q₁.nesting ≤ 63) (hq₂ : q₂.nesting ≤ 63)

include h₁ hq₁

theorem run_inParentheses (e : Text) (he : StopsModifiers e) :
    (operand anyEnd maxNesting).run (inParentheses s₁ ++ e) = .done (group q₁) e :=
  (operand_inParentheses h₁ (w := []) (by simp) he).done hq₁

theorem parse_inParentheses : parse (inParentheses s₁) = .ok (group q₁) := by
  have hrun := run_inParentheses h₁ hq₁ [] stopsModifiers_nil
  rw [List.append_nil] at hrun
  exact parse_eq_ok_iff.2 ⟨[], separated_of_none (separated_of_none hrun rfl) rfl, rfl⟩

variable {left right : Text} (hleft : ∀ c ∈ left, isBlank c = true)
  (hright : ∀ c ∈ right, isBlank c = true)

include h₂ hq₂ hleft hright

theorem parse_and_inParentheses :
    parse (inParentheses s₁ ++ (left ++ ("AND".toList ++ (right ++ inParentheses s₂)))) =
      .ok (all [group q₁, group q₂]) := by
  have hstops : StopsModifiers ("AND".toList ++ (right ++ inParentheses s₂)) := by
    simp [StopsModifiers]
  have hrun₁ := run_inParentheses h₁ hq₁ _ (hstops.append_of_blank hleft)
  have hrun₂ := (operand_inParentheses h₂ hright stopsModifiers_nil).done hq₂
  rw [List.append_nil] at hrun₂
  have hnext := nextConjunct_and hleft (endsKeyword_inParentheses hright s₂)
  exact parse_eq_ok_iff.2
    ⟨[], separated_of_none (separated_of_some hrun₁ hnext hrun₂ rfl) rfl, rfl⟩

theorem parse_or_inParentheses :
    parse (inParentheses s₁ ++ (left ++ ("OR".toList ++ (right ++ inParentheses s₂)))) =
      .ok (any [group q₁, group q₂]) := by
  have hstops : StopsModifiers ("OR".toList ++ (right ++ inParentheses s₂)) := by
    simp [StopsModifiers]
  have hrun₁ := run_inParentheses h₁ hq₁ _ (hstops.append_of_blank hleft)
  have hrun₂ := (operand_inParentheses h₂ hright stopsModifiers_nil).done hq₂
  rw [List.append_nil] at hrun₂
  obtain ⟨hnone, hnext⟩ := next_or hleft (endsKeyword_inParentheses hright s₂)
  exact parse_eq_ok_iff.2 ⟨[], separated_of_some (separated_of_none hrun₁ hnone) hnext
    (separated_of_none hrun₂ rfl) rfl, rfl⟩

end

/-- Queries of at most 63 levels are parsed in parentheses to groups of their trees, and a query of
64 levels is too deep there. Blanks around the parentheses change nothing. -/
theorem parse_parentheses {s₁ : Text} {q₁ : Query} (h₁ : parse s₁ = .ok q₁)
    {before after : Text} (hblank : ∀ w ∈ [before, after], ∀ c ∈ w, isBlank c = true) :
    ((∀ path, q₁.IsPath path → path.countP nests ≤ 63) →
      parse (before ++ (inParentheses s₁ ++ after)) = .ok (group q₁) ∧
      ∀ s₂ q₂ left right, parse s₂ = .ok q₂ →
        (∀ path, q₂.IsPath path → path.countP nests ≤ 63) →
        (∀ w ∈ [left, right], ∀ c ∈ w, isBlank c = true) →
        parse (before ++ (inParentheses s₁ ++
            (left ++ ("AND".toList ++ (right ++ inParentheses s₂))) ++ after)) =
          .ok (all [group q₁, group q₂]) ∧
        parse (before ++ (inParentheses s₁ ++
            (left ++ ("OR".toList ++ (right ++ inParentheses s₂))) ++ after)) =
          .ok (any [group q₁, group q₂])) ∧
    ((∃ path, q₁.IsPath path ∧ path.countP nests = 64) →
      ∃ place, parse (before ++ (inParentheses s₁ ++ after)) =
        .error (.badSyntax .tooDeep place)) := by
  obtain ⟨hbefore, hafter, -⟩ := List.forall_mem_cons.1 hblank |>.imp_right List.forall_mem_cons.1
  constructor
  · intro hpaths₁
    have hq₁ := nesting_le_of_paths hpaths₁
    refine ⟨parse_append_of_blank (parse_inParentheses h₁ hq₁) hbefore hafter, ?_⟩
    intro s₂ q₂ left right h₂ hpaths₂ hbetween
    have hq₂ := nesting_le_of_paths hpaths₂
    obtain ⟨hleft, hright, -⟩ :=
      List.forall_mem_cons.1 hbetween |>.imp_right List.forall_mem_cons.1
    constructor
    · have hand := parse_and_inParentheses h₁ h₂ hq₁ hq₂ hleft hright
      exact parse_append_of_blank hand hbefore hafter
    · have hor := parse_or_inParentheses h₁ h₂ hq₁ hq₂ hleft hright
      exact parse_append_of_blank hor hbefore hafter
  · rintro ⟨path, hpath, hcount⟩
    have hdeep : ¬ q₁.nesting ≤ 63 := by
      have hle := hpath.countP_nests_le
      omega
    have hclosing := closesQuery_of_blank (skipBlank_of_blank hafter)
    have hlimited := operand_inParentheses h₁ (w := []) (by simp) hclosing.stopsModifiers
    obtain ⟨left, hstopped⟩ := hlimited.deep hdeep
    have hskip : skipBlank (before ++ (inParentheses s₁ ++ after)) = inParentheses s₁ ++ after :=
      skipBlank_append_of_blank hbefore _
    have hne : skipBlank (before ++ (inParentheses s₁ ++ after)) ≠ [] := by
      rw [hskip]
      simp [inParentheses]
    have hrun := disjunction_of_stopped hstopped
    rw [List.nil_append, ← hskip] at hrun
    exact ⟨_, parse_of_stopped hne hrun⟩

def negatedWord : Query := .any [.word "a".toList, .negated (.word "b".toList)]

def groupedWord : Query := .field "c".toList (.fieldGroup (.word "d".toList))

def prohibitedWord : Nat → Query
  | 0 => .word "a".toList
  | n + 1 => .prohibited (prohibitedWord n)

/-- A word with signs in front of it uses up all levels of nesting. -/
theorem parse_parentheses_negatedWord :
    parse "a OR NOT b".toList = .ok negatedWord ∧ parse "c:(d)".toList = .ok groupedWord ∧
      parse " (a OR NOT b)\t".toList = .ok (group negatedWord) ∧
      parse " (a OR NOT b) AND(c:(d))\t".toList = .ok (all [group negatedWord, group groupedWord]) ∧
      parse " (a OR NOT b) OR(c:(d))\t".toList = .ok (any [group negatedWord, group groupedWord]) ∧
      parse (List.replicate 64 '-' ++ "a".toList) = .ok (prohibitedWord 64) ∧
      ∃ place, parse (" (".toList ++ List.replicate 64 '-' ++ "a)\t".toList) =
        .error (.badSyntax .tooDeep place) := by
  have h₁ : parse "a OR NOT b".toList = .ok negatedWord := eq_ok_of_toOption (by decide +kernel)
  have h₂ : parse "c:(d)".toList = .ok groupedWord := eq_ok_of_toOption (by decide +kernel)
  have h₃ : parse (List.replicate 64 '-' ++ "a".toList) = .ok (prohibitedWord 64) :=
    eq_ok_of_toOption (by decide +kernel)
  have hblank : ∀ w ∈ [" ".toList, "\t".toList], ∀ c ∈ w, isBlank c = true := by
    simp [isBlank, blankRanges]
  have hbetween : ∀ w ∈ [" ".toList, []], ∀ c ∈ w, isBlank c = true := by
    simp [isBlank, blankRanges]
  obtain ⟨hgroup, hboth⟩ := (parse_parentheses h₁ hblank).1 fun _ hpath =>
    Nat.le_trans hpath.countP_nests_le (by decide)
  obtain ⟨hand, hor⟩ := hboth "c:(d)".toList groupedWord " ".toList [] h₂
    (fun _ hpath => Nat.le_trans hpath.countP_nests_le (by decide)) hbetween
  have hdeep := (parse_parentheses h₃ hblank).2 (exists_isPath_countP_nests (prohibitedWord 64))
  exact ⟨h₁, h₂, hgroup, hand, hor, h₃, hdeep⟩

end SampleSearch.Query
