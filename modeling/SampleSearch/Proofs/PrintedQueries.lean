import SampleSearch.Proofs.PrintedParts

/-!
# Printed queries

The printed form of a parsed query is parsed to the same tree if all ends of its ranges are bare
words, and only then. Groups, fields and prefixed operands are read back from the forms of what
stands in them, and the whole query by induction on the depth of nesting.
-/

namespace SampleSearch

namespace Query

open Lexeme

theorem unprotected_append {k : Text} (hk : ∀ c ∈ k, c ≠ '\\') (t : Text) :
    unprotected (k ++ t) = k ++ unprotected t := by
  induction k with
  | nil => rfl
  | cons c k ih =>
    rw [List.cons_append, unprotected_cons (hk c List.mem_cons_self),
      ih fun d hd => hk d (List.mem_cons_of_mem _ hd), List.cons_append]

/-- A word begins with a keyword only if it is the keyword, in front of what ends one. -/
theorem eq_of_atKeyword {k w r : Text} (hk : ∀ c ∈ k, c ≠ '\\' ∧ breaksWord c = false)
    (hw : IsWord w) (hr : EndsWord r) (h : atKeyword k (w ++ r) = true) :
    w = k ∧ endsKeyword r = true := by
  simp only [atKeyword, Bool.and_eq_true, List.isPrefixOf_iff_prefix] at h
  obtain ⟨hsign, hend⟩ := h
  have hcases : k <+: w ∨ ∃ c v, k = w ++ c :: v := by
    rcases List.prefix_or_prefix_of_prefix hsign (List.prefix_append w r) with hkw | ⟨v, rfl⟩
    · exact .inl hkw
    · cases v with
      | nil => exact .inl (by simp)
      | cons c v => exact .inr ⟨c, v, rfl⟩
  rcases hcases with ⟨v, rfl⟩ | ⟨c, v, rfl⟩
  · cases v with
    | nil =>
      rw [List.append_nil, List.drop_left] at hend
      exact ⟨by simp, hend⟩
    | cons c v =>
      -- the character behind the keyword belongs to the word, so it does not end the keyword
      rw [List.append_assoc, List.drop_left, List.cons_append, endsKeyword] at hend
      by_cases hc : c = '\\'
      · subst hc
        exact absurd hend (by decide)
      · have hbreak := hw.bare.2 c (by
          rw [unprotected_append fun d hd => (hk d hd).1, unprotected_cons hc]
          simp)
        exfalso
        simp only [Bool.or_eq_true, beq_iff_eq, hbreak.1, Bool.false_eq_true, false_or] at hend
        rcases hend with rfl | rfl
        · exact absurd hbreak.2 (by decide)
        · exact absurd hbreak.2 (by decide)
  · obtain ⟨t, ht⟩ := (List.prefix_append_right_inj w).1 hsign
    have hbreak : breaksWord c = true := hr c (by rw [← ht]; rfl)
    rw [(hk c (by simp)).2] at hbreak
    cases hbreak

theorem prefixOperator?_eq_none {c : Char} {s : Text} (hc : c ∉ ['!', '-', '+'])
    (hnot : atKeyword "NOT".toList (c :: s) = false) : prefixOperator? (c :: s) = none := by
  simp only [List.mem_cons, List.not_mem_nil, or_false, not_or] at hc
  unfold prefixOperator?
  rw [hnot]
  simp only [Bool.false_eq_true, if_false]
  split <;> simp_all

theorem prefixOperator?_append {w r : Text} (hw : IsWord w) (hopens : OpensOperand w)
    (hr : EndsWord r) (hnot : w = "NOT".toList → endsKeyword r = false) :
    prefixOperator? (w ++ r) = none := by
  have hkeyword : atKeyword "NOT".toList (w ++ r) = false := by
    cases h : atKeyword "NOT".toList (w ++ r) with
    | false => rfl
    | true =>
      have hfree : ∀ c ∈ "NOT".toList, c ≠ '\\' ∧ breaksWord c = false := by
        intro c (hc : c ∈ ['N', 'O', 'T'])
        simp only [List.mem_cons, List.not_mem_nil, or_false] at hc
        rcases hc with rfl | rfl | rfl <;> decide
      obtain ⟨hword, hend⟩ := eq_of_atKeyword hfree hw hr h
      rw [hnot hword] at hend
      cases hend
  obtain ⟨c, v, rfl, -⟩ := hw.bare.head
  have hc := hopens c rfl
  simp only [List.mem_cons, List.not_mem_nil, or_false, not_or] at hc
  exact prefixOperator?_eq_none (by simp [hc]) hkeyword

theorem opensText_of_isWord {w : Text} (hw : IsWord w) (t : Text) :
    ∃ c s, w ++ t = c :: s ∧ isBlank c = false ∧ c ≠ ')' := by
  obtain ⟨c, v, rfl, hc⟩ := hw.bare.head
  refine ⟨c, v ++ t, rfl, ?_, ?_⟩
  · simp only [breaksWord, Bool.or_eq_false_iff] at hc
    exact hc.1
  · rintro rfl
    cases hc

theorem IsLeaf.opensText {E : Text → Prop} {q : Query} (h : IsLeaf E q) : q.OpensText := by
  cases h with
  | @word w hw =>
    have := opensText_of_isWord hw []
    rwa [List.append_nil] at this
  | @phrase c => exact ⟨'"', _, rfl, by decide, by decide⟩
  | @regex p => exact ⟨'/', _, rfl, by decide, by decide⟩
  | @range r =>
    refine ⟨_, _, text_range r, ?_, ?_⟩
    · split <;> decide
    · split <;> decide

theorem IsLeaf.core {E : Text → Prop} {q : Query} (h : IsLeaf E q) : q.core = q := by
  cases h <;> rfl

theorem IsModified.opensText {base : Query → Prop} (hcore : ∀ b, base b → b.core = b)
    (hopens : ∀ b, base b → b.OpensText) {n : Nat} {q : Query} (h : IsModified base n q) :
    q.OpensText := by
  obtain ⟨m, hb, htext, -⟩ := h.exists_base hcore
  obtain ⟨c, s, hc, hblank, hclose⟩ := hopens _ hb
  exact ⟨c, s ++ m, by rw [htext, hc]; rfl, hblank, hclose⟩

section

variable {P : Query → Prop} {inner : Option (Consumer Query)}

theorem IsSeparated.exists_part {combine : List Query → Query} {q : Query}
    (h : IsSeparated P combine q) : ∃ a, P a := by
  rcases h with hq | ⟨parts, hlen, hparts, -⟩
  · exact ⟨q, hq⟩
  · cases parts with
    | nil => simp at hlen
    | cons a parts => exact ⟨a, hparts a List.mem_cons_self⟩

/-- What stands in the parentheses of a group is read back in front of the closing one. -/
structure PrintsInner (inner : Option (Consumer Query)) (P : Query → Prop) : Prop where
  prints : ∀ p, inner = some p → Prints p P EndsOperand
  isSome : ∀ q, P q → inner.isSome = true
  ne_all : ∀ q parts, P q → q ≠ .all parts
  ne_any : ∀ q parts, P q → q ≠ .any parts

theorem PrintsInner.exists_prints (h : PrintsInner inner P) {q : Query} (hq : P q) :
    ∃ p, inner = some p ∧ Prints p P EndsOperand := by
  obtain ⟨p, hp⟩ := Option.isSome_iff_exists.1 (h.isSome q hq)
  exact ⟨p, hp, h.prints p hp⟩

theorem PrintsInner.exists_disjunction (h : PrintsInner inner P) {q : Query}
    (hq : IsDisjunction P q) :
    ∃ p, inner = some p ∧ Prints (disjunction p) (IsDisjunction P) EndsDisjunction := by
  obtain ⟨a, ha⟩ := hq.exists_part
  obtain ⟨b, hb⟩ := ha.exists_part
  obtain ⟨p, hp, hprints⟩ := h.exists_prints hb
  exact ⟨p, hp, hprints.disjunction h.ne_all h.ne_any⟩

theorem rereads_groupRest (h : PrintsInner inner P) {q : Query} (hq : IsDisjunction P q)
    (opening r : Text) :
    (q.HasBareEnds → groupRest inner opening (q.text ++ ')' :: r) = .done q r) ∧
    ∀ r', groupRest inner opening (q.text ++ ')' :: r) = .done q r' → q.HasBareEnds := by
  obtain ⟨p, rfl, hprints⟩ := h.exists_disjunction hq
  have hopens := hprints.opens q hq
  have hreads := hprints.rereads q (')' :: r) hq (.inr ⟨r, rfl⟩)
  have hrun : groupRest (some p) opening (q.text ++ ')' :: r) =
      ((disjunction p).run (q.text ++ ')' :: r)).andThen (closeGroup opening) := by
    simp only [groupRest, hopens.skipBlank_append]
    obtain ⟨c, s, hc, -, hclose⟩ := hopens
    split
    · rename_i heq
      rw [hc, List.cons_append] at heq
      exact absurd (List.cons_eq_cons.1 heq).1 hclose
    · rfl
  constructor
  · intro hbare
    rw [hrun, hreads.read hbare]
    rfl
  · intro r' hr'
    rw [hrun] at hr'
    obtain ⟨q', t, hq', hrest⟩ := Outcome.andThen_eq_done.1 hr'
    have he : q' = q := by
      unfold closeGroup at hrest
      split at hrest
      · cases hrest
        rfl
      · simp at hrest
    rw [he] at hq'
    exact hreads.bare t hq'

theorem rereads_group (h : PrintsInner inner P) {q : Query} (hq : IsDisjunction P q)
    {run : Text → Outcome Query} {wrap : Query → Query}
    (hwrap : Function.Injective wrap) (htext : (wrap q).text = '(' :: q.text ++ [')'])
    (hends : (wrap q).rangeEnds = q.rangeEnds) (r : Text)
    (hrun : ∀ s, run ('(' :: s) = (groupRest inner ('(' :: s) s).map wrap) :
    Rereads run (wrap q) r := by
  have htext' : (wrap q).text ++ r = '(' :: (q.text ++ ')' :: r) := by simp [htext]
  obtain ⟨hread, hbare⟩ := rereads_groupRest h hq ('(' :: (q.text ++ ')' :: r)) r
  constructor
  · intro hb
    rw [HasBareEnds, hends] at hb
    rw [htext', hrun, hread hb, Outcome.map_done]
  · intro r' hr'
    rw [htext', hrun] at hr'
    obtain ⟨q', hq', he⟩ := Outcome.map_eq_done.1 hr'
    rw [hwrap he] at hq'
    rw [HasBareEnds, hends]
    exact hbare r' hq'

theorem fieldBase_eq_leaf {c : Char} {s : Text} (hc : c ≠ '(')
    (hb : (isBreaker c && !opensLeaf c) = false) :
    fieldBase anyEnd inner (c :: s) = leaf anyEnd (c :: s) := by
  unfold fieldBase
  split
  · simp_all
  · simp_all
  · rename_i heq
    cases heq
    rw [hb]
    rfl

/-- Leaves begin with a character that is no breaker, or that opens a leaf. -/
theorem IsLeaf.head {E : Text → Prop} {q : Query} (h : IsLeaf E q) :
    ∃ c s, q.text = c :: s ∧ c ≠ '(' ∧ (isBreaker c && !opensLeaf c) = false := by
  cases h with
  | @word w hw hkey hslash =>
    obtain ⟨c, v, rfl, hc⟩ := hw.bare.head
    simp only [breaksWord, Bool.or_eq_false_iff] at hc
    refine ⟨c, v, rfl, ?_, by simp [hc]⟩
    rintro rfl
    cases hc.2
  | @phrase c => exact ⟨'"', _, rfl, by decide, by decide⟩
  | @regex p => exact ⟨'/', _, rfl, by decide, by decide⟩
  | @range r =>
    refine ⟨_, _, text_range r, ?_, ?_⟩
    · split <;> decide
    · split <;> decide

theorem Rereads.congr {run run' : Text → Outcome Query} {q : Query} {r : Text}
    (h : Rereads run q r) (he : run' (q.text ++ r) = run (q.text ++ r)) : Rereads run' q r :=
  ⟨fun hbare => he.trans (h.read hbare), fun r' hr' => h.bare r' (he.symm.trans hr')⟩

abbrev Enclosed : Text → Prop := IsEnclosed '"'

theorem IsValue.core {E : Text → Prop} {q : Query} (h : IsValue E P q) : q.core = q := by
  cases h with
  | leaf hq => exact hq.core
  | fieldGroup _ => rfl

theorem IsAtom.core {E : Text → Prop} {q : Query} (h : IsAtom E P q) : q.core = q := by
  cases h with
  | leaf hq _ => exact hq.core
  | group _ => rfl

theorem IsValue.opensText {E : Text → Prop} {q : Query} (h : IsValue E P q) : q.OpensText := by
  cases h with
  | leaf hq => exact hq.opensText
  | fieldGroup _ => exact ⟨'(', _, rfl, by decide, by decide⟩

theorem IsAtom.opensText {E : Text → Prop} {q : Query} (h : IsAtom E P q) : q.OpensText := by
  cases h with
  | leaf hq _ => exact hq.opensText
  | group _ => exact ⟨'(', _, rfl, by decide, by decide⟩

theorem yields_anyEnd : anyEnd.Yields Enclosed := by
  intro s e r h
  simp only [anyEnd] at h
  unfold endpoint at h
  split at h
  · exact (isEnclosed_of_readDelimited h).2
  · exact (isWord_of_readWord h).2.1.isEnclosed

theorem rereads_fieldBase (h : PrintsInner inner P) {q : Query} (hq : IsValue Enclosed P q)
    {r : Text} (hr : EndsBase r) : Rereads (fieldBase anyEnd inner) q r := by
  cases hq with
  | leaf hleaf =>
    refine (rereads_leaf hleaf hr.endsWord).congr ?_
    obtain ⟨c, s, hc, hparen, hopens⟩ := hleaf.head
    rw [hc, List.cons_append, fieldBase_eq_leaf hparen hopens]
  | fieldGroup hgroup =>
    exact rereads_group h hgroup (fun _ _ he => by simpa using he) rfl rfl r fun s => rfl

theorem rereads_fieldValue (h : PrintsInner inner P) {n : Nat} {q : Query}
    (hq : IsModified (IsValue Enclosed P) n q) {r : Text} (hr : EndsOperand r) :
    Rereads (fun s => (fieldBase anyEnd inner s).andThen (modifiers 0)) q r := by
  refine rereads_modified (fun _ hb => hb.core) hq (fun b t hb => ?_)
    (fun b r hb hr => rereads_fieldBase h hb hr) hr
  exact (isValue_of_fieldBase yields_anyEnd (fun p hp => (h.prints p hp).yields) hb).core

theorem opensLeaf_of_isBreaker {c : Char} (hc : isBreaker c = false) (hslash : c ≠ '/') :
    opensLeaf c = false := by
  have hne : ∀ d, isBreaker d = true → c ≠ d := by
    rintro d hd rfl
    rw [hc] at hd
    cases hd
  simp [opensLeaf, hslash, hne '"' rfl, hne '[' rfl, hne '\x7b' rfl]

/-- A word at the text `s` is the name of a field if a colon follows. -/
def behindWord (inner : Option (Consumer Query)) (w s : Text) : Text → Outcome Query
  | ':' :: r => fieldRest anyEnd inner w r
  | r => if isKeyword w then .fail (.unexpectedKeyword w) s else .done (.word w) r

theorem primary_append {w r : Text} (hw : IsWord w) (hslash : w.head? ≠ some '/')
    (hr : EndsWord r) :
    primary anyEnd inner (w ++ r) = behindWord inner w (w ++ r) r := by
  have hread := readWord_append hw hr
  obtain ⟨c, v, rfl, hc⟩ := hw.bare.head
  simp only [breaksWord, Bool.or_eq_false_iff] at hc
  have hopens := opensLeaf_of_isBreaker hc.2 (by simpa using hslash)
  have hparen : c ≠ '(' := by
    rintro rfl
    cases hc.2
  simp only [List.cons_append] at hread ⊢
  unfold primary
  split
  · simp_all
  · simp_all
  · rename_i heq
    cases heq
    rw [hopens, hc.2, hread]
    rfl

theorem primary_eq_leaf {c : Char} {s : Text} (hc : c ≠ '(') (hopens : opensLeaf c = true) :
    primary anyEnd inner (c :: s) = leaf anyEnd (c :: s) := by
  unfold primary
  split
  · simp_all
  · simp_all
  · rename_i heq
    cases heq
    rw [if_pos hopens]

theorem rereads_primary (h : PrintsInner inner P) {q : Query} (hq : IsAtom Enclosed P q)
    {r : Text} (hr : EndsBase r) : Rereads (primary anyEnd inner) q r := by
  cases hq with
  | leaf hleaf hword =>
    refine (rereads_leaf hleaf hr.endsWord).congr ?_
    cases hleaf with
    | word hw hkey hslash =>
      rw [text, leaf_word hw hkey hslash hr.endsWord, primary_append hw hslash hr.endsWord,
        behindWord.eq_def]
      split
      · exact absurd (hr ':' rfl) (by decide)
      · simp [hkey]
    | phrase => exact primary_eq_leaf (by decide) (by decide)
    | regex => exact primary_eq_leaf (by decide) (by decide)
    | @range range =>
      rw [text_range]
      cases range.includesLow
      · exact primary_eq_leaf (by decide) (by decide)
      · exact primary_eq_leaf (by decide) (by decide)
  | group hgroup =>
    exact rereads_group h hgroup (fun _ _ he => by simpa using he) rfl rfl r fun s => rfl

theorem prefixOperator?_atom {E : Text → Prop} {q : Query} (hq : IsAtom E P q) {r : Text}
    (hr : EndsBase r) : prefixOperator? (q.text ++ r) = none := by
  cases hq with
  | leaf hleaf hword =>
    cases hleaf with
    | @word w hw hkey hslash =>
      refine prefixOperator?_append hw (hword _ rfl) hr.endsWord fun hnot => ?_
      have hnot : w = "NOT".toList := hnot
      rw [hnot] at hkey
      cases hkey
    | phrase => rfl
    | regex => rfl
    | @range range =>
      rw [text_range]
      cases range.includesLow <;> rfl
  | group => rfl

theorem operandRun_of_none {s : Text} (hs : skipBlank s = s) (h : prefixOperator? s = none) :
    operandRun anyEnd inner s = (primary anyEnd inner s).andThen (modifiers 0) := by
  simp only [operandRun, hs, h]

theorem rereads_modifiedAtom (h : PrintsInner inner P) {n : Nat} {q : Query}
    (hq : IsModified (IsAtom Enclosed P) n q) {r : Text} (hr : EndsOperand r) :
    Rereads (operandRun anyEnd inner) q r := by
  have hcore : ∀ b, IsAtom Enclosed P b → b.core = b := fun _ hb => hb.core
  have hopens := hq.opensText hcore fun _ hb => hb.opensText
  have hsign : prefixOperator? (q.text ++ r) = none := by
    obtain ⟨m, hb, htext, -, hm, -⟩ := hq.exists_base hcore
    rw [htext, List.append_assoc]
    exact prefixOperator?_atom hb (hm.append hr.endsBase)
  have hmodified : Rereads (fun s => (primary anyEnd inner s).andThen (modifiers 0)) q r := by
    refine rereads_modified hcore hq (fun b t hb => ?_) (fun b r hb hr => rereads_primary h hb hr)
      hr
    rcases isAtom_or_isField_of_primary yields_anyEnd (fun p hp => (h.prints p hp).yields) hb
      hsign with hatom | ⟨⟨_, _, _⟩, -⟩
    · exact hatom.core
    · rfl
  exact hmodified.congr (operandRun_of_none (hopens.skipBlank_append r) hsign)

theorem rereads_field (h : PrintsInner inner P) {q : Query} (hq : IsField Enclosed P q) {r : Text}
    (hr : EndsOperand r) : Rereads (operandRun anyEnd inner) q r := by
  obtain ⟨hw, hopens, hv⟩ := hq
  rename_i name n v
  have hcolon : ∀ s : Text, EndsWord (':' :: s) := fun s => endsWord_cons.2 rfl
  have hslash : name.head? ≠ some '/' := fun hhead => absurd (hopens _ hhead) (by decide)
  have hrun : operandRun anyEnd inner ((field name v).text ++ r) =
      ((((fieldBase anyEnd inner (v.text ++ r)).andThen (modifiers 0)).map (.field name))).andThen
        (modifiers 0) := by
    have htext : (field name v).text ++ r = name ++ ':' :: (v.text ++ r) := by simp [text]
    have hskip : skipBlank (v.text ++ r) = v.text ++ r :=
      (hv.opensText (fun _ hb => hb.core) fun _ hb => hb.opensText).skipBlank_append r
    rw [htext, operandRun_of_none (skipBlank_append_of_isBareWord hw.bare _)
      (prefixOperator?_append hw hopens (hcolon _) fun _ => rfl),
      primary_append hw hslash (hcolon _), behindWord, fieldRest, hskip]
  have hvalue := rereads_fieldValue h hv hr
  constructor
  · intro hbare
    rw [hrun, hvalue.read hbare, Outcome.map_done, Outcome.andThen_done,
      modifiers_of_stops hr.stops]
  · intro r' hr'
    rw [hrun] at hr'
    obtain ⟨q', t, hq', hmod⟩ := Outcome.andThen_eq_done.1 hr'
    obtain ⟨v', hv', rfl⟩ := Outcome.map_eq_done.1 hq'
    obtain ⟨_, _, _, hm⟩ := Outcome.andThen_eq_done.1 hv'
    rw [modifiers_of_stops (stops_of_modifiers hm)] at hmod
    cases hmod
    exact hvalue.bare _ hv'

theorem rereads_prefixed (h : PrintsInner inner P) {wrap : Query → Query}
    (hwrap : wrap ∈ prefixOperators) {q : Query} (hq : P q) {r : Text} (hr : EndsOperand r) :
    Rereads (operandRun anyEnd inner) (wrap q) r := by
  obtain ⟨p, rfl, hprints⟩ := h.exists_prints hq
  have hreads := hprints.rereads q r hq hr
  have hrun : operandRun anyEnd (some p) ((wrap q).text ++ r) = (p.run (q.text ++ r)).map wrap := by
    rcases mem_prefixOperators.1 hwrap with rfl | rfl | rfl
    · rw [← hprints.skips]
      rfl
    · rfl
    · rfl
  have hends : (wrap q).rangeEnds = q.rangeEnds := by
    rcases mem_prefixOperators.1 hwrap with rfl | rfl | rfl <;> rfl
  have hinj : Function.Injective wrap := by
    intro a b hab
    rcases mem_prefixOperators.1 hwrap with rfl | rfl | rfl <;> simpa using hab
  constructor
  · intro hbare
    rw [HasBareEnds, hends] at hbare
    rw [hrun, hreads.read hbare, Outcome.map_done]
  · intro r' hr'
    rw [hrun] at hr'
    obtain ⟨q', hq', he⟩ := Outcome.map_eq_done.1 hr'
    rw [hinj he] at hq'
    rw [HasBareEnds, hends]
    exact hreads.bare r' hq'

theorem opensText_prefixed {wrap : Query → Query} (hwrap : wrap ∈ prefixOperators) (q : Query) :
    (wrap q).OpensText := by
  rcases mem_prefixOperators.1 hwrap with rfl | rfl | rfl
  · exact ⟨'N', _, rfl, by decide, by decide⟩
  · exact ⟨'-', _, rfl, by decide, by decide⟩
  · exact ⟨'+', _, rfl, by decide, by decide⟩

theorem prints_operandWith (h : PrintsInner inner P) :
    Prints (operandWith anyEnd inner) (IsOperandWith Enclosed P) EndsOperand where
  yields := yields_operandWith yields_anyEnd fun p hp => (h.prints p hp).yields
  skips s := rfl
  opens q hq := by
    cases hq with
    | prefixed hwrap _ => exact opensText_prefixed hwrap _
    | field hfield =>
      obtain ⟨hw, -, -⟩ := hfield
      exact opensText_of_isWord hw _
    | modified hmod => exact hmod.opensText (fun _ hb => hb.core) fun _ hb => hb.opensText
  rereads q r hq hr := by
    cases hq with
    | prefixed hwrap hinner => exact rereads_prefixed h hwrap hinner hr
    | field hfield => exact rereads_field h hfield hr
    | modified hmod => exact rereads_modifiedAtom h hmod hr

end

theorem IsOperandWith.ne_all {E : Text → Prop} {P : Query → Prop} {q : Query}
    (h : IsOperandWith E P q) (parts : List Query) : q ≠ .all parts ∧ q ≠ .any parts := by
  cases h with
  | prefixed hwrap _ =>
    rcases mem_prefixOperators.1 hwrap with rfl | rfl | rfl <;> simp
  | field hfield =>
    cases hfield
    simp
  | modified hmod =>
    cases hmod with
    | plain hatom =>
      cases hatom with
      | leaf hleaf _ => cases hleaf <;> simp
      | group => simp
    | fuzzy => simp
    | proximity => simp
    | boost => simp

theorem printsInner_operand (depth : Nat) :
    PrintsInner (some (operand anyEnd depth)) (IsOperand Enclosed depth) := by
  induction depth with
  | zero =>
    have hnone : PrintsInner none fun _ => False := by
      constructor <;> simp
    refine ⟨?_, fun _ _ => rfl, fun q parts hq => (IsOperandWith.ne_all hq parts).1,
      fun q parts hq => (IsOperandWith.ne_all hq parts).2⟩
    rintro p ⟨⟩
    exact prints_operandWith hnone
  | succ depth ih =>
    refine ⟨?_, fun _ _ => rfl, fun q parts hq => (IsOperandWith.ne_all hq parts).1,
      fun q parts hq => (IsOperandWith.ne_all hq parts).2⟩
    rintro p ⟨⟩
    exact prints_operandWith ih

/-- A tree of the shape of a parsed query is read back from its printed form if the ends of its
ranges are bare words, and only then. -/
theorem parse_text_iff_of_isDisjunction {q : Query}
    (hq : IsDisjunction (IsOperand Enclosed maxNesting) q) :
    parse q.text = .ok q ↔ q.HasBareEnds := by
  obtain ⟨p, hp, hprints⟩ := (printsInner_operand maxNesting).exists_disjunction hq
  cases hp
  have hopens := hprints.opens q hq
  have hreads := hprints.rereads q [] hq (.inl rfl)
  have hskip := hopens.skipBlank_append []
  rw [List.append_nil] at hskip
  have hne : q.text ≠ [] := by
    obtain ⟨c, s, hc, -⟩ := hopens
    simp [hc]
  have houtcome : outcome anyEnd q.text =
      ((disjunction (operand anyEnd maxNesting)).run (q.text ++ [])).andThen closeQuery := by
    simp only [outcome, hskip, List.append_nil]
    exact if_neg (by simpa using hne)
  constructor
  · intro h
    unfold parse parseWith at h
    split at h
    · rename_i q' r ho
      cases h
      rw [houtcome] at ho
      obtain ⟨q', t, hq', hrest⟩ := Outcome.andThen_eq_done.1 ho
      unfold closeQuery at hrest
      split at hrest
      · cases hrest
        exact hreads.bare t hq'
      · simp at hrest
    · cases h
  · intro hbare
    have hdone : outcome anyEnd q.text = .done q [] := by
      rw [houtcome, hreads.read hbare]
      rfl
    rw [parse, parseWith, hdone]

end Query

end SampleSearch
