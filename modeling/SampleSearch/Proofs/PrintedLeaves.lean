import SampleSearch.Proofs.ParsedTrees

/-!
# Printed leaves and modifiers

The printed form of a leaf is read back in front of whatever may follow it, and so are the
modifiers behind an operand. For a range this needs ends that are bare words: ends that were
written in quotes are printed without them.
-/

namespace SampleSearch

namespace Query

open Lexeme

def HasBareEnds (q : Query) : Prop := ∀ e ∈ q.rangeEnds, IsBareWord e

/-- The printed form of a tree in front of a rest is read back if all ends of ranges are bare
words, and only then. -/
structure Rereads (run : Text → Outcome Query) (q : Query) (r : Text) : Prop where
  read : q.HasBareEnds → run (q.text ++ r) = .done q r
  bare : ∀ r', run (q.text ++ r) = .done q r' → q.HasBareEnds

/-- Whether the printed form begins with a character that is neither blank nor closes a group. -/
def OpensText (q : Query) : Prop :=
  ∃ c s, q.text = c :: s ∧ isBlank c = false ∧ c ≠ ')'

/-- What may follow an operand in a printed form. -/
def EndsOperand (r : Text) : Prop := ∀ c ∈ r.head?, c = ' ' ∨ c = ')'

/-- What may follow an operand in front of its modifiers. -/
def EndsBase (r : Text) : Prop := ∀ c ∈ r.head?, c = ' ' ∨ c = ')' ∨ c = '~' ∨ c = '^'

theorem EndsOperand.endsBase {r : Text} (h : EndsOperand r) : EndsBase r := by
  intro c hc
  rcases h c hc with rfl | rfl
  · exact .inl rfl
  · exact .inr (.inl rfl)

theorem EndsBase.append {m r : Text} (hm : EndsBase m) (hr : EndsBase r) : EndsBase (m ++ r) := by
  cases m with
  | nil => exact hr
  | cons c m => exact hm

theorem EndsBase.endsWord {r : Text} (h : EndsBase r) : EndsWord r := by
  intro c hc
  rcases h c hc with rfl | rfl | rfl | rfl <;> decide

theorem EndsOperand.stops {r : Text} (h : EndsOperand r) : StopsModifiers r := by
  intro c hc
  rcases h c hc with rfl | rfl <;> decide

theorem OpensText.skipBlank_append {q : Query} (h : q.OpensText) (r : Text) :
    skipBlank (q.text ++ r) = q.text ++ r := by
  obtain ⟨c, s, hq, hc, -⟩ := h
  rw [hq, List.cons_append, skipBlank_cons, hc]
  rfl

theorem skipBlank_append_of_isBareWord {w : Text} (h : IsBareWord w) (r : Text) :
    skipBlank (w ++ r) = w ++ r := by
  obtain ⟨c, v, rfl, hc⟩ := h.head
  simp only [breaksWord, Bool.or_eq_false_iff] at hc
  rw [List.cons_append, skipBlank_cons, hc.1]
  rfl

theorem endpoint_append {w r : Text} (hw : IsWord w) (hr : EndsWord r) :
    endpoint (w ++ r) = .done w r := by
  obtain ⟨c, v, rfl, hc⟩ := hw.bare.head
  unfold endpoint
  split
  · rename_i heq
    obtain ⟨rfl, -⟩ := List.cons_eq_cons.1 heq
    cases hc
  · exact readWord_append hw hr

theorem isBareWord_of_endpoint {e s t : Text} (he : IsEnclosed '"' e)
    (hs : (skipBlank s).head? ≠ some '"') (h : endpoint (skipBlank (e ++ s)) = .done e t) :
    IsBareWord e := by
  have hquote := head?_skipBlank_append he.free hs
  unfold endpoint at h
  split at h
  · rename_i heq
    rw [heq] at hquote
    simp at hquote
  · exact (isWord_of_readWord h).2.1.bare

theorem ends_of_closeRange {low : Text} {b : Bool} {high t : Text} {range : Range} {r : Text}
    (h : closeRange low b high t = .done (.range range) r) :
    range.low = low ∧ range.high = high := by
  unfold closeRange at h
  split at h
  · cases h
    exact ⟨rfl, rfl⟩
  · cases h
    exact ⟨rfl, rfl⟩
  · simp at h

theorem skipBlank_to (s : Text) : skipBlank (" TO ".toList ++ s) = "TO ".toList ++ s := rfl

theorem rangeRest_append {low : Text} (h : IsWord low) (b : Bool) (s : Text) :
    rangeRest anyEnd b (low ++ (" TO ".toList ++ s)) =
      (endpoint (skipBlank s)).andThen (closeRange low b) := by
  have hends : EndsWord (" TO ".toList ++ s) := endsWord_cons.2 (by decide)
  simp only [rangeRest, anyEnd, skipBlank_append_of_isBareWord h.bare, endpoint_append h hends,
    Outcome.andThen_done, skipBlank_to]
  rfl

/-- The closing bracket of a printed range. -/
def closing (r : Range) : Char := if r.includesHigh then ']' else '\x7d'

theorem text_range (r : Range) :
    (range r).text =
      (if r.includesLow then '[' else '\x7b') ::
        (r.low ++ (" TO ".toList ++ (r.high ++ [closing r]))) := by
  simp [text, rangeText, closing]

theorem closeRange_closing (r : Range) (s : Text) :
    closeRange r.low r.includesLow r.high (closing r :: s) = .done (.range r) s := by
  obtain ⟨low, high, includesLow, includesHigh⟩ := r
  cases includesHigh <;> rfl

theorem closing_cases (r : Range) : closing r = ']' ∨ closing r = '\x7d' := by
  unfold closing
  split <;> simp

theorem skipBlank_closing (r : Range) (s : Text) :
    skipBlank (closing r :: s) = closing r :: s := by
  rcases closing_cases r with h | h <;> rw [h] <;> rfl

theorem rangeRest_of_isBareWord {range : Range} (hlow : IsWord range.low)
    (hhigh : IsWord range.high) (r : Text) :
    rangeRest anyEnd range.includesLow
      (range.low ++ (" TO ".toList ++ (range.high ++ closing range :: r))) =
        .done (.range range) r := by
  have hends : EndsWord (closing range :: r) := by
    rw [endsWord_cons]
    rcases closing_cases range with h | h <;> rw [h] <;> decide
  rw [rangeRest_append hlow, skipBlank_append_of_isBareWord hhigh.bare,
    endpoint_append hhigh hends, Outcome.andThen_done, closeRange_closing]

theorem isBareWord_of_rangeRest {range : Range} (hlow : IsEnclosed '"' range.low)
    (hhigh : IsEnclosed '"' range.high) {s r r' : Text}
    (hs : s = range.low ++ (" TO ".toList ++ (range.high ++ closing range :: r)))
    (h : rangeRest anyEnd range.includesLow s = .done (.range range) r') :
    IsBareWord range.low ∧ IsBareWord range.high := by
  have hbare : IsBareWord range.low := by
    obtain ⟨low, t, ht, hrest⟩ := Outcome.andThen_eq_done.1 h
    have hlow' : range.low = low := by
      simp only at hrest
      split at hrest
      · obtain ⟨high, u, _, hclose⟩ := Outcome.andThen_eq_done.1 hrest
        exact (ends_of_closeRange hclose).1
      · simp at hrest
    rw [← hlow', hs] at ht
    refine isBareWord_of_endpoint hlow ?_ ht
    rw [skipBlank_to]
    simp
  refine ⟨hbare, ?_⟩
  rw [hs, rangeRest_append ⟨hbare, hlow.whole⟩] at h
  obtain ⟨high, u, hhigh', hclose⟩ := Outcome.andThen_eq_done.1 h
  rw [← (ends_of_closeRange hclose).2] at hhigh'
  refine isBareWord_of_endpoint hhigh ?_ hhigh'
  rw [skipBlank_closing]
  rcases closing_cases range with h | h <;> rw [h] <;> simp

theorem leaf_word {w r : Text} (hw : IsWord w) (hkey : isKeyword w = false)
    (hslash : w.head? ≠ some '/') (hr : EndsWord r) :
    leaf anyEnd (w ++ r) = .done (.word w) r := by
  have hplain : plainWord (w ++ r) = .done (.word w) r := by
    simp [plainWord, readWord_append hw hr, hkey]
  obtain ⟨c, v, rfl, hc⟩ := hw.bare.head
  unfold leaf
  split
  · rename_i heq
    obtain ⟨rfl, -⟩ := List.cons_eq_cons.1 heq
    cases hc
  · rename_i heq
    obtain ⟨rfl, -⟩ := List.cons_eq_cons.1 heq
    exact absurd rfl hslash
  · rename_i heq
    obtain ⟨rfl, -⟩ := List.cons_eq_cons.1 heq
    cases hc
  · rename_i heq
    obtain ⟨rfl, -⟩ := List.cons_eq_cons.1 heq
    cases hc
  · exact hplain

theorem rereads_leaf {q : Query} (h : IsLeaf (IsEnclosed '"') q) {r : Text} (hr : EndsWord r) :
    Rereads (leaf anyEnd) q r := by
  cases h with
  | word hw hkey hslash =>
    exact ⟨fun _ => leaf_word hw hkey hslash hr, fun _ _ => by simp [HasBareEnds, rangeEnds]⟩
  | @phrase c hc =>
    refine ⟨fun _ => ?_, fun _ _ => by simp [HasBareEnds, rangeEnds]⟩
    have hread := readDelimited_append (by decide) hc '"' .unclosedQuote r
    simpa [text, quoted, leaf] using congrArg (Outcome.map Query.phrase) hread
  | @regex p hp =>
    refine ⟨fun _ => ?_, fun _ _ => by simp [HasBareEnds, rangeEnds]⟩
    have hread := readDelimited_append (by decide) hp '/' .unclosedRegex r
    simpa [text, leaf] using congrArg (Outcome.map Query.regex) hread
  | @range range hlow hhigh =>
    have hleaf : leaf anyEnd ((Query.range range).text ++ r) =
        rangeRest anyEnd range.includesLow
          (range.low ++ (" TO ".toList ++ (range.high ++ closing range :: r))) := by
      rw [text_range]
      cases range.includesLow <;> simp [leaf]
    constructor
    · intro hbare
      have hl := hbare range.low (by simp [rangeEnds])
      have hh := hbare range.high (by simp [rangeEnds])
      rw [hleaf, rangeRest_of_isBareWord ⟨hl, hlow.whole⟩ ⟨hh, hhigh.whole⟩]
    · intro r' hr'
      obtain ⟨hl, hh⟩ := isBareWord_of_rangeRest hlow hhigh rfl (hleaf ▸ hr')
      intro e he
      simp only [rangeEnds, List.mem_cons, List.not_mem_nil, or_false] at he
      rcases he with rfl | rfl
      · exact hl
      · exact hh

/-- A tree without its modifiers. -/
def core : Query → Query
  | boost q _ => core q
  | fuzzy v _ => word v
  | proximity c _ => phrase c
  | q => q

theorem core_withTilde? {d : Text} {p q : Query} (h : withTilde? d p = some q) :
    q.core = p.core := by
  cases p with
  | word v => cases h; rfl
  | phrase c => cases h; rfl
  | _ => cases h

theorem core_of_modifiers {n : Nat} {p : Query} {s : Text} {q : Query} {r : Text}
    (h : modifiers n p s = .done q r) : q.core = p.core := by
  fun_induction modifiers n p s with
  | case1 n p t number q' hq ih => rw [ih h, core_withTilde? hq]
  | case2 => simp at h
  | case3 => simp at h
  | case4 => simp at h
  | case5 n p t number _ _ ih => rw [ih h, core]
  | case6 => cases h; rfl

/-- Whether a number ends in front of a text. -/
def EndsNumeral (r : Text) : Prop := ∀ c ∈ r.head?, (c.isDigit || c == '.') = false

theorem splitNumber_append {f r : Text} (hf : IsNumeral f) (hr : EndsNumeral r) :
    splitNumber (f ++ r) = (f, r) := by
  have hdrop : r.dropWhile (fun c => c.isDigit || c == '.') = r := by
    cases r with
    | nil => rfl
    | cons c r => rw [List.dropWhile_cons_of_neg (by simpa using hr c rfl)]
  have htake : r.takeWhile (fun c => c.isDigit || c == '.') = [] := by
    cases r with
    | nil => rfl
    | cons c r => rw [List.takeWhile_cons_of_neg (by simpa using hr c rfl)]
  rw [splitNumber, List.takeWhile_append_of_pos hf, List.dropWhile_append_of_pos hf, hdrop, htake,
    List.append_nil]

theorem EndsOperand.endsNumeral {r : Text} (h : EndsOperand r) : EndsNumeral r := by
  intro c hc
  rcases h c hc with rfl | rfl <;> decide

theorem modifiers_tilde {n : Nat} {p q : Query} {d r : Text} (hd : IsNumeral d)
    (hr : EndsNumeral r) (h : withTilde? d p = some q) :
    modifiers n p ('~' :: (d ++ r)) = modifiers n q r := by
  rw [modifiers, splitNumber_append hd hr]
  simp only [h]

theorem modifiers_boost {n : Nat} {q : Query} {f r : Text} (hf : IsNumeral f) (hne : f ≠ [])
    (hn : n < maxNesting) (hr : EndsNumeral r) :
    modifiers n q ('^' :: (f ++ r)) = modifiers (n + 1) (.boost q f) r := by
  rw [modifiers, splitNumber_append hf hr]
  simp only [List.isEmpty_iff, hne, if_false]
  rw [if_neg (by omega)]

theorem IsDegree.getD {d : Option Text} (hd : IsDegree d) :
    IsNumeral (d.getD []) ∧ (if d.getD [] = [] then none else some (d.getD [])) = d := by
  cases d with
  | none => exact ⟨by simp [IsNumeral], rfl⟩
  | some f =>
    obtain ⟨hne, hf⟩ := hd f rfl
    exact ⟨hf, by simp [hne]⟩

/-- A tree with modifiers is printed as its core with the modifiers behind it, and these are read
back. -/
theorem IsModified.exists_base {base : Query → Prop} (hcore : ∀ b, base b → b.core = b) {n : Nat}
    {q : Query} (h : IsModified base n q) :
    ∃ m, base q.core ∧ q.text = q.core.text ++ m ∧ q.rangeEnds = q.core.rangeEnds ∧
      EndsBase m ∧ ∀ r, EndsNumeral r → modifiers 0 q.core (m ++ r) = modifiers n q r := by
  induction h with
  | plain hb =>
    rw [hcore _ hb]
    exact ⟨[], hb, by simp, rfl, by simp [EndsBase], fun r _ => rfl⟩
  | @fuzzy v d hb hd =>
    obtain ⟨hnum, hget⟩ := hd.getD
    refine ⟨'~' :: d.getD [], hb, rfl, rfl, by simp [EndsBase], fun r hr => ?_⟩
    rw [List.cons_append, modifiers_tilde hnum hr]
    simp [core, withTilde?, hget]
  | @proximity c d hb hd =>
    obtain ⟨hnum, hget⟩ := hd.getD
    refine ⟨'~' :: d.getD [], hb, rfl, rfl, by simp [EndsBase], fun r hr => ?_⟩
    rw [List.cons_append, modifiers_tilde hnum hr]
    simp [core, withTilde?, hget]
  | @boost n q f _ hn hne hf ih =>
    obtain ⟨m, hb, htext, hends, hm, hmod⟩ := ih
    refine ⟨m ++ '^' :: f, hb, ?_, hends, hm.append (by simp [EndsBase]), fun r hr => ?_⟩
    · simp [text, core, htext]
    · have hcaret : EndsNumeral ('^' :: (f ++ r)) := by
        intro c hc
        cases hc
        decide
      have hboost := hmod ('^' :: (f ++ r)) hcaret
      rw [modifiers_boost hf hne hn hr] at hboost
      simpa [core] using hboost

/-- A tree with modifiers is reread if its core is. -/
theorem rereads_modified {base : Query → Prop} (hcore : ∀ b, base b → b.core = b)
    {run : Text → Outcome Query} {n : Nat} {q : Query} (hq : IsModified base n q) {r : Text}
    (hyields : ∀ b t, run (q.text ++ r) = .done b t → b.core = b)
    (hrun : ∀ b r, base b → EndsBase r → Rereads run b r) (hr : EndsOperand r) :
    Rereads (fun s => (run s).andThen (modifiers 0)) q r := by
  obtain ⟨m, hb, htext, hends, hm, hmod⟩ := hq.exists_base hcore
  have hreads := hrun q.core (m ++ r) hb (hm.append hr.endsBase)
  have htext' : q.text ++ r = q.core.text ++ (m ++ r) := by rw [htext, List.append_assoc]
  constructor
  · intro hbare
    have hcorebare : q.core.HasBareEnds := by rwa [HasBareEnds, ← hends]
    simp only [htext', hreads.read hcorebare, Outcome.andThen_done, hmod r hr.endsNumeral,
      modifiers_of_stops hr.stops]
  · intro r' h
    obtain ⟨b, t, hb', hmods⟩ := Outcome.andThen_eq_done.1 h
    have hbq : b = q.core := by rw [← hyields b t hb', core_of_modifiers hmods]
    rw [htext', hbq] at hb'
    rw [HasBareEnds, hends]
    exact hreads.bare t hb'

end Query

end SampleSearch
