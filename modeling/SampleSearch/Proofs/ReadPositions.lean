import SampleSearch.Proofs.ParsedTrees

/-!
# Places where parsers stop

What is left of a query while it is parsed is always an end of it, so the place in front of what is
left lies between two of its characters. A parser that is done leaves an end of its text, and one
that is stopped names the length of an end, also where a fault is reported at an earlier place. The
texts in a tree are parts of the query in front of what is left.
-/

namespace SampleSearch

namespace Outcome

variable {α β : Type}

/-- Whether an outcome leaves an end of a text, or names the length of one. -/
def IsInside (s : Text) : Outcome α → Prop
  | done _ r => r <:+ s
  | stopped _ left => ∃ r, r <:+ s ∧ r.length = left

variable {s t : Text} {o : Outcome α}

theorem isInside_fail {fault : SyntaxFault} {r : Text} (h : r <:+ s) :
    (fail fault r : Outcome α).IsInside s := ⟨r, h, rfl⟩

theorem IsInside.mono (h : o.IsInside s) (hs : s <:+ t) : o.IsInside t := by
  cases o with
  | done a r => exact List.IsSuffix.trans h hs
  | stopped fault left =>
    obtain ⟨r, hr, hlen⟩ := h
    exact ⟨r, hr.trans hs, hlen⟩

theorem IsInside.andThen (h : o.IsInside s) {f : α → Text → Outcome β}
    (hf : ∀ a r, o = done a r → r <:+ s → (f a r).IsInside s) : (o.andThen f).IsInside s := by
  cases o with
  | done a r => exact hf a r rfl h
  | stopped fault left => exact h

theorem IsInside.map (h : o.IsInside s) (f : α → β) : (o.map f).IsInside s :=
  h.andThen fun _ _ _ hr => hr

end Outcome

/-- Whether a consumer stops inside of every text. -/
def Consumer.StaysInside {α : Type} (p : Consumer α) : Prop := ∀ s, (p.run s).IsInside s

namespace Lexeme

open Outcome

theorem skipBlank_suffix (s : Text) : skipBlank s <:+ s := List.dropWhile_suffix _

theorem splitNumber_suffix (s : Text) : (splitNumber s).2 <:+ s := List.dropWhile_suffix _

theorem isInside_readWord (s : Text) : (readWord s).IsInside s := by
  unfold readWord
  cases hs : splitWord? s with
  | none => exact ⟨[], List.nil_suffix, rfl⟩
  | some p =>
    obtain ⟨w, r⟩ := p
    by_cases hempty : w.isEmpty = true
    · simp only [if_pos hempty]
      exact isInside_fail List.suffix_rfl
    · simp only [if_neg hempty]
      exact ⟨w, splitWord?_append hs⟩

theorem isInside_readDelimited (d : Char) (fault : SyntaxFault) (s : Text) :
    (readDelimited d fault s).IsInside s := by
  unfold readDelimited
  cases hs : splitDelimited? d (s.drop 1) with
  | none => exact isInside_fail List.suffix_rfl
  | some p =>
    obtain ⟨t, r⟩ := p
    have hr : r <:+ t ++ d :: r := ⟨t ++ [d], by simp⟩
    rw [splitDelimited?_append hs] at hr
    exact hr.trans (List.drop_suffix 1 s)

end Lexeme

namespace Query

open Lexeme Outcome

theorem nextAlternative_suffix {s u : Text} (h : nextAlternative s = some u) : u <:+ s := by
  have hs := skipBlank_suffix s
  simp only [nextAlternative] at h
  split at h
  · cases h
    exact (List.drop_suffix _ _).trans hs
  · split at h
    · cases h
      exact (List.drop_suffix _ _).trans hs
    · cases h

theorem nextConjunct_suffix {s u : Text} (h : nextConjunct s = some u) : u <:+ s := by
  have hs := skipBlank_suffix s
  simp only [nextConjunct] at h
  split at h
  · cases h
    exact (List.drop_suffix _ _).trans hs
  · split at h
    · cases h
      exact (List.drop_suffix _ _).trans hs
    · split at h
      · cases h
        exact hs
      · cases h

theorem prefixOperator?_suffix {s : Text} {wrap : Query → Query} {r : Text}
    (h : prefixOperator? s = some (wrap, r)) : r <:+ s := by
  unfold prefixOperator? at h
  split at h
  · cases h
    exact List.drop_suffix _ _
  · split at h <;> cases h <;> exact List.suffix_cons _ _

theorem isInside_modifiers (n : Nat) (q : Query) (s : Text) : (modifiers n q s).IsInside s := by
  have hnumber : ∀ c t, (splitNumber t).2 <:+ c :: t := fun c t =>
    (splitNumber_suffix t).trans (List.suffix_cons c t)
  fun_induction modifiers n q s with
  | case1 n q t number q' hq ih => exact ih.mono (hnumber _ t)
  | case2 n q t number hq => exact isInside_fail (hnumber _ t)
  | case3 n q t number hempty => exact isInside_fail (hnumber _ t)
  | case4 n q t number hempty hn => exact isInside_fail (hnumber _ t)
  | case5 n q t number hempty hn ih => exact ih.mono (hnumber _ t)
  | case6 n q s _ _ => exact List.suffix_rfl

theorem isInside_closeRange (low : Text) (b : Bool) (high r : Text) :
    (closeRange low b high r).IsInside r := by
  have hr := skipBlank_suffix r
  unfold closeRange
  split
  · rename_i heq
    rw [heq] at hr
    exact (List.suffix_cons _ _).trans hr
  · rename_i heq
    rw [heq] at hr
    exact (List.suffix_cons _ _).trans hr
  · exact isInside_fail hr

theorem isInside_closeGroup {opening r s : Text} (hopening : opening <:+ s) (hr : r <:+ s)
    (q : Query) : (closeGroup opening q r).IsInside s := by
  have hskip := (skipBlank_suffix r).trans hr
  unfold closeGroup
  split
  · rename_i heq
    rw [heq] at hskip
    exact (List.suffix_cons _ _).trans hskip
  · exact isInside_fail hopening

theorem isInside_closeQuery (q : Query) (r : Text) : (closeQuery q r).IsInside r := by
  have hskip := skipBlank_suffix r
  unfold closeQuery
  split
  · exact List.nil_suffix
  · rename_i heq
    rw [heq] at hskip
    exact isInside_fail hskip

section

variable {p : Consumer Query} (hp : p.StaysInside)

include hp

section

variable {next : Text → Option Text}
  {next_le : ∀ {s t}, next s = some t → t.length ≤ s.length} {combine : List Query → Query}
  (hnext : ∀ s u, next s = some u → u <:+ s)

include hnext

theorem isInside_repeated (s : Text) : (p.repeated next next_le s).IsInside s := by
  fun_induction Consumer.repeated p next next_le s with
  | case1 s hn => exact List.suffix_rfl
  | case2 s u hn fault left hrun =>
    have hin := (hp u).mono (hnext s u hn)
    rw [hrun] at hin
    exact hin
  | case3 s u hn a r hrun hlt ih =>
    have hin := (hp u).mono (hnext s u hn)
    rw [hrun] at hin
    exact (ih.mono hin).map _

theorem staysInside_separated : (p.separated next next_le combine).StaysInside := fun s =>
  (hp s).andThen fun _ r _ hr => ((isInside_repeated hp hnext r).mono hr).map _

end

theorem staysInside_conjunction : (conjunction p).StaysInside :=
  staysInside_separated hp fun _ _ => nextConjunct_suffix

theorem staysInside_disjunction : (disjunction p).StaysInside :=
  staysInside_separated (staysInside_conjunction hp) fun _ _ => nextAlternative_suffix

end

/-- A group that is not closed is reported at its opening parenthesis. -/
theorem isInside_groupRest {inner : Option (Consumer Query)}
    (hinner : ∀ p, inner = some p → p.StaysInside) {opening r s : Text} (hopening : opening <:+ s)
    (hr : r <:+ s) : (groupRest inner opening r).IsInside s := by
  unfold groupRest
  split
  · exact isInside_fail hr
  · rename_i p
    have hskip := (skipBlank_suffix r).trans hr
    split
    · rename_i heq
      rw [heq] at hskip
      exact isInside_fail hskip
    · have hrun := (staysInside_disjunction (hinner p rfl) (skipBlank r)).mono hskip
      exact hrun.andThen fun q t _ ht => isInside_closeGroup hopening ht q

theorem isInside_endpoint (s : Text) : (endpoint s).IsInside s := by
  unfold endpoint
  split
  · exact isInside_readDelimited _ _ _
  · exact isInside_readWord _

theorem staysInside_anyEnd : anyEnd.StaysInside := isInside_endpoint

theorem isInside_plainWord (s : Text) : (plainWord s).IsInside s := by
  refine (isInside_readWord s).andThen fun w r _ hr => ?_
  split
  · exact isInside_fail List.suffix_rfl
  · exact hr

section

variable {ends : Consumer Text} (hends : ends.StaysInside)

include hends

theorem isInside_rangeRest (b : Bool) (s : Text) : (rangeRest ends b s).IsInside s := by
  refine ((hends _).mono (skipBlank_suffix s)).andThen fun low r _ hr => ?_
  have hskip := (skipBlank_suffix r).trans hr
  dsimp only
  split
  · have hdrop := (List.drop_suffix 2 (skipBlank r)).trans hskip
    refine ((hends _).mono ((skipBlank_suffix _).trans hdrop)).andThen fun high t _ ht => ?_
    exact (isInside_closeRange low b high t).mono ht
  · exact isInside_fail hskip

theorem isInside_leaf (s : Text) : (leaf ends s).IsInside s := by
  unfold leaf
  split
  · exact (isInside_readDelimited _ _ _).map _
  · exact (isInside_readDelimited _ _ _).map _
  · exact (isInside_rangeRest hends _ _).mono (List.suffix_cons _ _)
  · exact (isInside_rangeRest hends _ _).mono (List.suffix_cons _ _)
  · exact isInside_plainWord _

section

variable {inner : Option (Consumer Query)} (hinner : ∀ p, inner = some p → p.StaysInside)

include hinner

theorem isInside_fieldBase (s : Text) : (fieldBase ends inner s).IsInside s := by
  unfold fieldBase
  split
  · exact isInside_fail List.suffix_rfl
  · exact (isInside_groupRest hinner List.suffix_rfl (List.suffix_cons _ _)).map _
  · split
    · exact isInside_fail List.suffix_rfl
    · exact isInside_leaf hends _

theorem isInside_fieldRest (name s : Text) : (fieldRest ends inner name s).IsInside s := by
  have hbase := (isInside_fieldBase hends hinner (skipBlank s)).mono (skipBlank_suffix s)
  exact (hbase.andThen fun q t _ ht => (isInside_modifiers 0 q t).mono ht).map _

theorem isInside_primary (s : Text) : (primary ends inner s).IsInside s := by
  unfold primary
  split
  · exact isInside_fail List.suffix_rfl
  · exact (isInside_groupRest hinner List.suffix_rfl (List.suffix_cons _ _)).map _
  · split
    · exact isInside_leaf hends _
    · split
      · exact isInside_fail List.suffix_rfl
      · refine (isInside_readWord _).andThen fun w r _ hr => ?_
        split
        · exact (isInside_fieldRest hends hinner w _).mono ((List.suffix_cons _ _).trans hr)
        · split
          · exact isInside_fail List.suffix_rfl
          · exact hr

theorem staysInside_operandWith : (operandWith ends inner).StaysInside := by
  intro s
  have hskip := skipBlank_suffix s
  simp only [operandWith, operandRun]
  split
  · rename_i wrap r hwrap
    have hr := (prefixOperator?_suffix hwrap).trans hskip
    split
    · exact isInside_fail hr
    · rename_i p
      exact ((hinner p rfl r).mono hr).map _
  · have hprimary := (isInside_primary hends hinner (skipBlank s)).mono hskip
    exact hprimary.andThen fun q t _ ht => (isInside_modifiers 0 q t).mono ht

end

theorem staysInside_operand (depth : Nat) : (operand ends depth).StaysInside := by
  induction depth with
  | zero => exact staysInside_operandWith hends (by simp)
  | succ depth ih =>
    apply staysInside_operandWith hends
    rintro p ⟨⟩
    exact ih

theorem isInside_outcome (t : Text) : (outcome ends t).IsInside t := by
  have hskip := skipBlank_suffix t
  simp only [outcome]
  split
  · exact isInside_fail hskip
  · have hrun := (staysInside_disjunction (staysInside_operand hends maxNesting) (skipBlank t)).mono
      hskip
    exact hrun.andThen fun q r _ hr => (isInside_closeQuery q r).mono hr

end

end Query

end SampleSearch
