import SampleSearch.Proofs.ClosedQueries
import SampleSearch.Proofs.TreeShape

/-!
# Parsing with a lower limit on nesting

The parser of what stands in parentheses has a lower limit on nesting and sees a closing
parenthesis in place of the end. It takes the same decisions up to the first place where the tree
nests deeper than this limit, and there the query is refused as too deep. So whether and how a text
is read depends on the limit only through the nesting of its tree.
-/

namespace SampleSearch

namespace Outcome

variable {α β : Type}

/-- An outcome under a limit: done if the limit is kept, and else stopped as too deep. -/
structure IsLimited (kept : Prop) (a : α) (r : Text) (o : Outcome α) : Prop where
  done : kept → o = .done a r
  deep : ¬ kept → ∃ left, o = .stopped .tooDeep left

variable {kept kept' : Prop} {a : α} {r : Text} {o : Outcome α}

theorem isLimited_of_done (h : kept) (ho : o = .done a r) : o.IsLimited kept a r :=
  ⟨fun _ => ho, fun hdeep => absurd h hdeep⟩

theorem isLimited_of_deep {left : Nat} (h : ¬ kept) (ho : o = .stopped .tooDeep left) :
    o.IsLimited kept a r :=
  ⟨fun hkept => absurd hkept h, fun _ => ⟨left, ho⟩⟩

theorem IsLimited.congr (h : o.IsLimited kept a r) (hiff : kept ↔ kept') :
    o.IsLimited kept' a r :=
  ⟨fun hkept => h.done (hiff.2 hkept), fun hdeep => h.deep fun hkept => hdeep (hiff.1 hkept)⟩

/-- What follows is run where the limit has been kept so far. -/
theorem IsLimited.andThen (h : o.IsLimited kept a r) {f : α → Text → Outcome β} {b : β} {t : Text}
    (hf : kept → (f a r).IsLimited kept' b t) :
    (o.andThen f).IsLimited (kept ∧ kept') b t := by
  by_cases hkept : kept
  · rw [h.done hkept, andThen_done]
    exact (hf hkept).congr (by simp [hkept])
  · obtain ⟨left, ho⟩ := h.deep hkept
    exact isLimited_of_deep (fun hboth => hkept hboth.1) (by rw [ho]; rfl)

theorem IsLimited.andThen_done (h : o.IsLimited kept a r) {f : α → Text → Outcome β} {b : β}
    {t : Text} (hf : f a r = .done b t) : (o.andThen f).IsLimited kept b t :=
  (h.andThen fun _ => isLimited_of_done trivial hf).congr (by simp)

theorem IsLimited.map (h : o.IsLimited kept a r) (f : α → β) :
    (o.map f).IsLimited kept (f a) r :=
  h.andThen_done rfl

end Outcome

namespace Query

open Lexeme Outcome

/-- Whether a consumer reads in front of a text what another one reads at the end, up to a limit
on nesting. -/
def Follows (e : Text) (depth : Nat) (p p' : Consumer Query) : Prop :=
  ∀ ⦃s q r⦄, p.run s = .done q r → (p'.run (s ++ e)).IsLimited (q.nesting ≤ depth) q (r ++ e)

/-- The same for what stands inside of groups and prefix operators, which is one level deeper. -/
def InnerFollows (e : Text) : Nat → Option (Consumer Query) → Option (Consumer Query) → Prop
  | 0, _, inner' => inner' = none
  | depth + 1, inner, inner' =>
    ∀ p, inner = some p → ∃ p', inner' = some p' ∧ Follows e depth p p'

section

variable {e : Text} {depth : Nat} {p p' : Consumer Query}

section

variable {next : Text → Option Text}
  {next_le : ∀ {s t}, next s = some t → t.length ≤ s.length} {combine : List Query → Query}
  {Stuck : Text → Prop}

/-- A loop that is done was not left with nothing for a further part. -/
theorem next_ne_of_repeated {s : Text} {qs : List Query} {r : Text}
    (h : p.repeated next next_le s = .done qs r) : next s ≠ some [] := by
  intro hn
  rw [repeated_of_some hn] at h
  obtain ⟨a, t, ha, -⟩ := Outcome.andThen_eq_done.1 h
  exact ne_nil_of_done ha rfl

theorem nesting_combine_le_iff (hcombine : combine = .all ∨ combine = .any) {qs : List Query} :
    (combine qs).nesting ≤ depth ↔ ∀ q ∈ qs, q.nesting ≤ depth := by
  rcases hcombine with rfl | rfl
  · exact nesting_le_iff rfl
  · exact nesting_le_iff rfl

variable
  (hp : ∀ ⦃s q r⦄, p.run s = .done q r → next r ≠ some [] →
    (p'.run (s ++ e)).IsLimited (q.nesting ≤ depth) q (r ++ e))
  (hnext : ∀ s, next s ≠ some [] → ¬ Stuck s → next (s ++ e) = (next s).map (· ++ e))
  (hstuck : ∀ s, Stuck s → next s = none)

include hp hnext hstuck

/-- A loop goes on in the same rounds. At a stuck place no part follows, but one might in front of
the further text. -/
theorem repeated_append {s : Text} {qs : List Query} {r : Text}
    (h : p.repeated next next_le s = .done qs r) (hr : ¬ Stuck r) :
    (p'.repeated next next_le (s ++ e)).IsLimited (∀ q ∈ qs, q.nesting ≤ depth) qs (r ++ e) := by
  fun_induction Consumer.repeated p next next_le s generalizing qs with
  | case1 s hn =>
    cases h
    have hnone := hnext _ (by simp [hn]) hr
    rw [hn] at hnone
    exact isLimited_of_done (by simp) (repeated_of_none hnone)
  | case2 => cases h
  | case3 s t hn a r' hrun hlt ih =>
    obtain ⟨as, has, rfl⟩ := Outcome.map_eq_done.1 h
    have hsome := hnext s (by rw [hn]; simpa using ne_nil_of_done hrun)
      (fun hs => by rw [hstuck s hs] at hn; cases hn)
    rw [hn] at hsome
    have hpart := hp hrun (next_ne_of_repeated has)
    rw [repeated_of_some hsome]
    exact (hpart.andThen fun _ => (ih has).map (a :: ·)).congr (by rw [List.forall_mem_cons])

theorem separated_append (hcombine : combine = .all ∨ combine = .any) {s : Text} {q : Query}
    {r : Text} (h : (p.separated next next_le combine).run s = .done q r) (hr : ¬ Stuck r) :
    ((p'.separated next next_le combine).run (s ++ e)).IsLimited (q.nesting ≤ depth) q
      (r ++ e) := by
  obtain ⟨a, t, ha, h⟩ := Outcome.andThen_eq_done.1 h
  obtain ⟨as, has, rfl⟩ := Outcome.map_eq_done.1 h
  have hpart := hp ha (next_ne_of_repeated has)
  have hrest := repeated_append hp hnext hstuck has hr
  simp only [Consumer.separated]
  refine (hpart.andThen fun _ =>
    hrest.map fun as => if as.isEmpty then a else combine (a :: as)).congr ?_
  cases as with
  | nil => simp
  | cons b as =>
    have hiff : (combine (a :: b :: as)).nesting ≤ depth ↔ _ := nesting_combine_le_iff hcombine
    rw [List.forall_mem_cons] at hiff
    exact hiff.symm

end

section

variable (he : ClosesQuery e) (hp : Follows e depth p p')

include he hp

/-- A conjunction is read in the same way unless it ends in front of a lone keyword. -/
theorem conjunction_append {s : Text} {q : Query} {r : Text}
    (h : (conjunction p).run s = .done q r) (hr : skipBlank r ≠ "OR".toList) :
    ((conjunction p').run (s ++ e)).IsLimited (q.nesting ≤ depth) q (r ++ e) := by
  -- At the end `OR` is a keyword and ends the conjunction. In front of a parenthesis it is a word.
  have hstuck : ∀ s, skipBlank s = "OR".toList → nextConjunct s = none := by
    intro s hs
    simp only [nextConjunct, hs]
    rfl
  exact separated_append (fun _ _ _ hrun _ => hp hrun)
    (fun _ hne hs => nextConjunct_append he hne hs) hstuck (.inl rfl) h hr

theorem disjunction_append : Follows e depth (disjunction p) (disjunction p') := by
  intro s q r h
  have hpart : ∀ ⦃s q r⦄, (conjunction p).run s = .done q r → nextAlternative r ≠ some [] →
      ((conjunction p').run (s ++ e)).IsLimited (q.nesting ≤ depth) q (r ++ e) := by
    intro s q r hrun hne
    refine conjunction_append he hp hrun fun hor => hne ?_
    simp only [nextAlternative, hor]
    rfl
  have hstuck : ∀ s, False → nextAlternative s = none := fun _ h => h.elim
  exact separated_append hpart (fun _ hne _ => nextAlternative_append he hne) hstuck (.inr rfl) h
    not_false

end

section

variable {inner : Option (Consumer Query)}

theorem closeGroup_eq_done {opening : Text} {q' : Query} {t : Text} {q : Query} {r : Text} :
    closeGroup opening q' t = .done q r ↔ q' = q ∧ skipBlank t = ')' :: r := by
  unfold closeGroup
  split
  · rename_i heq
    simp [heq]
  · rename_i hne
    simp only [fail_ne_done, false_iff, not_and]
    exact fun _ => hne r

theorem groupRest_some {opening s : Text} (hs : (skipBlank s).head? ≠ some ')') :
    groupRest (some p) opening s =
      ((disjunction p).run (skipBlank s)).andThen (closeGroup opening) := by
  simp only [groupRest]
  split
  · rename_i heq
    simp [heq] at hs
  · rfl

theorem groupRest_eq_done {opening s : Text} {q : Query} {r : Text} :
    groupRest inner opening s = .done q r ↔ ∃ p t, inner = some p ∧
      (skipBlank s).head? ≠ some ')' ∧ (disjunction p).run (skipBlank s) = .done q t ∧
        skipBlank t = ')' :: r := by
  constructor
  · intro h
    cases inner with
    | none => simp [groupRest] at h
    | some p =>
      have hs : (skipBlank s).head? ≠ some ')' := by
        intro hs
        obtain ⟨u, hu⟩ := List.head?_eq_some_iff.1 hs
        simp [groupRest, hu] at h
      rw [groupRest_some hs] at h
      obtain ⟨q', t, hq, h⟩ := Outcome.andThen_eq_done.1 h
      obtain ⟨rfl, ht⟩ := closeGroup_eq_done.1 h
      exact ⟨p, t, rfl, hs, hq, ht⟩
  · rintro ⟨p, t, rfl, hs, hq, ht⟩
    rw [groupRest_some hs, hq, Outcome.andThen_done, closeGroup_eq_done]
    exact ⟨rfl, ht⟩

theorem ne_nil_of_fieldBase {s : Text} {q : Query} {r : Text}
    (h : fieldBase anyEnd inner s = .done q r) : s ≠ [] := by
  rintro rfl
  simp [fieldBase] at h

theorem behindWord_of_head {w s r : Text} (hr : r.head? ≠ some ':') :
    behindWord inner w s r =
      if isKeyword w then .fail (.unexpectedKeyword w) s else .done (.word w) r := by
  unfold behindWord
  split
  · exact absurd rfl hr
  · rfl

/-- An operand that is no group and opens no leaf starts with a word. -/
theorem exists_word_of_primary {c : Char} {t : Text} {q : Query} {r : Text} (hparen : c ≠ '(')
    (hopens : ¬ opensLeaf c = true) (h : primary anyEnd inner (c :: t) = .done q r) :
    ∃ w v, c :: t = w ++ v ∧ IsWord w ∧ w.head? ≠ some '/' ∧ EndsWord v := by
  unfold primary at h
  split at h
  · simp at h
  · rename_i heq
    cases heq
    exact absurd rfl hparen
  · rename_i heq
    cases heq
    rw [if_neg hopens] at h
    split at h
    · simp at h
    · obtain ⟨w, v, hw, -⟩ := Outcome.andThen_eq_done.1 h
      obtain ⟨hs, hword, hv⟩ := isWord_of_readWord hw
      refine ⟨w, v, hs, hword, fun hhead => ?_, hv⟩
      obtain ⟨u, rfl⟩ := List.head?_eq_some_iff.1 hhead
      cases hs
      exact hopens rfl

theorem nesting_of_modifiers {n : Nat} {p : Query} {s : Text} {q : Query} {r : Text}
    (h : modifiers n p s = .done q r) : q.nesting = p.nesting := by
  rw [← nesting_core q, core_of_modifiers h, nesting_core]

theorem nesting_of_prefixOperator? {s : Text} {wrap : Query → Query} {r : Text}
    (h : prefixOperator? s = some (wrap, r)) (q : Query) : (wrap q).nesting = q.nesting + 1 := by
  unfold prefixOperator? at h
  split at h
  · cases h
    exact nesting_of_nests rfl rfl
  · split at h <;> cases h <;> exact nesting_of_nests rfl rfl

/-- An operand has something in front of its end, and more than a lone keyword. -/
theorem operandRun_ne_nil {s : Text} {q : Query} {r : Text}
    (h : operandRun anyEnd inner s = .done q r) :
    skipBlank s ≠ [] ∧ skipBlank s ≠ "NOT".toList := by
  simp only [operandRun] at h
  constructor
  · intro hs
    rw [hs] at h
    cases h
  · intro hs
    rw [hs] at h
    cases inner with
    | none => cases h
    | some p =>
      obtain ⟨q', hq, -⟩ := Outcome.map_eq_done.1 h
      exact ne_nil_of_done hq rfl

end

theorem leaf_append_within (he : ClosesQuery e) {s : Text} {q : Query} {r : Text}
    (h : leaf anyEnd s = .done q r) :
    (leaf anyEnd (s ++ e)).IsLimited (q.nesting ≤ depth) q (r ++ e) := by
  have hnesting := (isLeaf_of_leaf yields_anyEnd h).1.isBounded.nesting_le
  exact isLimited_of_done (Nat.le_trans hnesting (Nat.zero_le _)) (leaf_append_closing he h)

section

variable {inner inner' : Option (Consumer Query)} (he : ClosesQuery e)
  (hinner : InnerFollows e depth inner inner')

include he hinner

theorem groupRest_append_closing {opening s : Text} {q : Query} {r : Text}
    (h : groupRest inner opening s = .done q r) (opening' : Text) :
    (groupRest inner' opening' (s ++ e)).IsLimited (q.nesting + 1 ≤ depth) q (r ++ e) := by
  obtain ⟨p, t, rfl, hs, hq, ht⟩ := groupRest_eq_done.1 h
  cases depth with
  | zero =>
    rw [show inner' = none from hinner]
    exact isLimited_of_deep (by omega) rfl
  | succ depth =>
    obtain ⟨p', rfl, hp⟩ := hinner p rfl
    have hne := ne_nil_of_done hq
    have hs' : (skipBlank (s ++ e)).head? ≠ some ')' := by
      rw [skipBlank_append_of_ne_nil hne]
      cases hsk : skipBlank s with
      | nil => exact absurd hsk hne
      | cons c u => simpa [hsk] using hs
    have hclose : closeGroup opening' q (t ++ e) = .done q (r ++ e) := by
      rw [closeGroup_eq_done, skipBlank_append_of_ne_nil (by simp [ht]), ht]
      exact ⟨rfl, rfl⟩
    rw [groupRest_some hs', skipBlank_append_of_ne_nil hne]
    exact ((disjunction_append he hp hq).andThen_done hclose).congr Nat.succ_le_succ_iff.symm

theorem fieldBase_append_closing {s : Text} {q : Query} {r : Text}
    (h : fieldBase anyEnd inner s = .done q r) :
    (fieldBase anyEnd inner' (s ++ e)).IsLimited (q.nesting ≤ depth) q (r ++ e) := by
  unfold fieldBase at h
  split at h
  · simp at h
  · rename_i t
    obtain ⟨g, hg, rfl⟩ := Outcome.map_eq_done.1 h
    have hgroup := (groupRest_append_closing he hinner hg ('(' :: (t ++ e))).map Query.fieldGroup
    rw [← nesting_of_nests (q := fieldGroup g) rfl rfl] at hgroup
    exact hgroup
  · rename_i c t hparen
    split at h
    · simp at h
    · rename_i hopens
      rw [List.cons_append, fieldBase_eq_leaf hparen (by simpa using hopens)]
      exact leaf_append_within he h

theorem fieldRest_append_closing {name s : Text} {q : Query} {r : Text}
    (h : fieldRest anyEnd inner name s = .done q r) :
    (fieldRest anyEnd inner' name (s ++ e)).IsLimited (q.nesting ≤ depth) q (r ++ e) := by
  obtain ⟨v, hv, rfl⟩ := Outcome.map_eq_done.1 h
  obtain ⟨b, t, hb, hm⟩ := Outcome.andThen_eq_done.1 hv
  have hbase := fieldBase_append_closing he hinner hb
  have hfield := (hbase.andThen_done (modifiers_append_closing he hm)).map (Query.field name)
  have hnesting : (field name v).nesting ≤ depth ↔ b.nesting ≤ depth := by
    rw [← nesting_of_modifiers hm, nesting_le_iff rfl]
    simp [children]
  rw [fieldRest, skipBlank_append_of_ne_nil (ne_nil_of_fieldBase hb), hnesting]
  exact hfield

theorem behindWord_append_closing {w s v : Text} {q : Query} {r : Text}
    (h : behindWord inner w s v = .done q r) (s' : Text) :
    (behindWord inner' w s' (v ++ e)).IsLimited (q.nesting ≤ depth) q (r ++ e) := by
  by_cases hcolon : v.head? = some ':'
  · obtain ⟨u, rfl⟩ := List.head?_eq_some_iff.1 hcolon
    exact fieldRest_append_closing he hinner h
  · have hmore : (v ++ e).head? ≠ some ':' := by
      cases v with
      | nil => exact he.head_ne (by decide) (by decide)
      | cons d v => exact hcolon
    rw [behindWord_of_head hcolon] at h
    split at h
    · simp at h
    · rename_i hkeyword
      cases h
      rw [behindWord_of_head hmore, if_neg hkeyword]
      exact isLimited_of_done (Nat.zero_le _) rfl

theorem primary_append_closing {s : Text} {q : Query} {r : Text}
    (h : primary anyEnd inner s = .done q r) :
    (primary anyEnd inner' (s ++ e)).IsLimited (q.nesting ≤ depth) q (r ++ e) := by
  cases s with
  | nil => simp [primary] at h
  | cons c t =>
    by_cases hparen : c = '('
    · subst hparen
      obtain ⟨g, hg, rfl⟩ := Outcome.map_eq_done.1 h
      have hgroup := (groupRest_append_closing he hinner hg ('(' :: (t ++ e))).map Query.group
      rw [← nesting_of_nests (q := group g) rfl rfl] at hgroup
      exact hgroup
    · by_cases hopens : opensLeaf c = true
      · rw [primary_eq_leaf hparen hopens] at h
        rw [List.cons_append, primary_eq_leaf hparen hopens]
        exact leaf_append_within he h
      · obtain ⟨w, v, hs, hword, hslash, hv⟩ := exists_word_of_primary hparen hopens h
        rw [hs, primary_append hword hslash hv] at h
        rw [hs, List.append_assoc, primary_append hword hslash (endsWord_append_closing he hv)]
        exact behindWord_append_closing he hinner h _

theorem operandWith_append :
    Follows e depth (operandWith anyEnd inner) (operandWith anyEnd inner') := by
  intro s q r h
  obtain ⟨hne, hword⟩ := operandRun_ne_nil h
  have hsign := prefixOperator?_append_closing he hne hword
  simp only [operandWith, operandRun] at h ⊢
  rw [skipBlank_append_of_ne_nil hne]
  split at h
  · rename_i wrap t hwrap
    rw [hsign, hwrap]
    cases inner with
    | none => simp at h
    | some p =>
      obtain ⟨q', hq, rfl⟩ := Outcome.map_eq_done.1 h
      rw [nesting_of_prefixOperator? hwrap]
      cases depth with
      | zero =>
        rw [show inner' = none from hinner]
        exact isLimited_of_deep (by omega) rfl
      | succ depth =>
        obtain ⟨p', rfl, hp⟩ := hinner p rfl
        exact ((hp hq).map wrap).congr Nat.succ_le_succ_iff.symm
  · rename_i hnone
    obtain ⟨b, t, hb, hm⟩ := Outcome.andThen_eq_done.1 h
    have hprimary := primary_append_closing he hinner hb
    rw [hsign, hnone, nesting_of_modifiers hm]
    exact hprimary.andThen_done (modifiers_append_closing he hm)

end

/-- Operands are read in front of what closes a query up to any limit on nesting. -/
theorem operand_append (he : ClosesQuery e) (level depth : Nat) :
    Follows e depth (operand anyEnd level) (operand anyEnd depth) := by
  -- Both parsers lose a level inside of an operand; which of them is out of levels first is open.
  induction level generalizing depth with
  | zero =>
    cases depth with
    | zero => exact operandWith_append he rfl
    | succ depth => exact operandWith_append he (by rintro p ⟨⟩)
  | succ level ih =>
    cases depth with
    | zero => exact operandWith_append he rfl
    | succ depth =>
      refine operandWith_append he ?_
      rintro p ⟨⟩
      exact ⟨operand anyEnd depth, rfl, ih depth⟩

end

end Query

end SampleSearch
