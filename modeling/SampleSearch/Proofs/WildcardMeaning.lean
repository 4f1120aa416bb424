import SampleSearch.Proofs.Literals

/-!
# What written values match

A value is read from left to right, and a text matches it if the whole text is spelled by what is
read. The pattern made of a value says the same of every text in the pattern language as it is
documented, so the equality that stands for a value without wild cards agrees with the pattern. The
database departs from the documentation in a few places, and there patterns say less or more: a zero
character ends both the pattern and the text, some characters are taken for one another, and a
pattern that is too long is refused.
-/

namespace SampleSearch

namespace Text

/-- Whether the whole of a text matches a written value. -/
inductive Matches : Text → Text → Prop
  | nil : Matches [] []
  | lone : Matches ['\\'] ['\\']
  | escaped (c : Char) {v s : Text} : Matches v s → Matches ('\\' :: c :: v) (c :: s)
  | run (front : Text) {v s : Text} : Matches v s → Matches ('*' :: v) (front ++ s)
  | one (d : Char) {v s : Text} : Matches v s → Matches ('?' :: v) (d :: s)
  | plain {c : Char} {v s : Text} : c ≠ '\\' → c ≠ '*' → c ≠ '?' → Matches v s →
    Matches (c :: v) (c :: s)

end Text

namespace Piece

theorem spells_nil_iff {s : Text} : spells [] s = true ↔ s = [] := by
  rw [spells, List.isEmpty_iff]

theorem spells_literal_iff {c : Char} {ps : List Piece} {s : Text} :
    spells (literal c :: ps) s = true ↔ ∃ r, s = c :: r ∧ spells ps r = true := by
  cases s with
  | nil => simp [spells]
  | cons d s =>
    rw [spells, Bool.and_eq_true, beq_iff_eq]
    constructor
    · rintro ⟨rfl, h⟩
      exact ⟨s, rfl, h⟩
    · rintro ⟨r, heq, h⟩
      obtain ⟨rfl, rfl⟩ := List.cons_eq_cons.1 heq
      exact ⟨rfl, h⟩

theorem spells_anyOne_iff {ps : List Piece} {s : Text} :
    spells (anyOne :: ps) s = true ↔ ∃ d r, s = d :: r ∧ spells ps r = true := by
  cases s with
  | nil => simp [spells]
  | cons d s =>
    rw [spells]
    constructor
    · exact fun h => ⟨d, s, rfl, h⟩
    · rintro ⟨e, r, heq, h⟩
      obtain ⟨rfl, rfl⟩ := List.cons_eq_cons.1 heq
      exact h

theorem spells_anyRun_iff {ps : List Piece} {s : Text} :
    spells (anyRun :: ps) s = true ↔ ∃ front r, s = front ++ r ∧ spells ps r = true := by
  rw [spells, List.any_eq_true]
  constructor
  · rintro ⟨r, hr, h⟩
    obtain ⟨front, rfl⟩ := Text.mem_suffixes.1 hr
    exact ⟨front, r, rfl, h⟩
  · rintro ⟨front, r, rfl, h⟩
    exact ⟨r, Text.mem_suffixes.2 (List.suffix_append front r), h⟩

theorem spells_literals_iff {t s : Text} : spells (t.map literal) s = true ↔ s = t := by
  induction t generalizing s with
  | nil => exact spells_nil_iff
  | cons c t ih =>
    rw [List.map_cons, spells_literal_iff]
    constructor
    · rintro ⟨r, rfl, h⟩
      rw [ih.1 h]
    · rintro rfl
      exact ⟨t, rfl, ih.2 rfl⟩

end Piece

namespace Text

open Piece

/-- The pieces that a value is cut into spell exactly the texts that match it. -/
theorem spells_pieces_iff {v s : Text} : spells (pieces v) s = true ↔ Matches v s := by
  constructor
  · intro h
    fun_induction pieces v generalizing s with
    | case1 =>
      rw [spells_nil_iff.1 h]
      exact .nil
    | case2 =>
      obtain ⟨r, rfl, hr⟩ := spells_literal_iff.1 h
      rw [spells_nil_iff.1 hr]
      exact .lone
    | case3 c v ih =>
      obtain ⟨r, rfl, hr⟩ := spells_literal_iff.1 h
      exact .escaped c (ih hr)
    | case4 v ih =>
      obtain ⟨front, r, rfl, hr⟩ := spells_anyRun_iff.1 h
      exact .run front (ih hr)
    | case5 v ih =>
      obtain ⟨d, r, rfl, hr⟩ := spells_anyOne_iff.1 h
      exact .one d (ih hr)
    | case6 c v hlone hescaped hstar hquestion ih =>
      obtain ⟨r, rfl, hr⟩ := spells_literal_iff.1 h
      have hb : c ≠ '\\' := by
        cases v with
        | nil => exact fun he => hlone he rfl
        | cons d v => exact fun he => hescaped d v he rfl
      exact .plain hb hstar hquestion (ih hr)
  · intro h
    induction h with
    | nil => rfl
    | lone => rfl
    | escaped c _ ih => exact spells_literal_iff.2 ⟨_, rfl, ih⟩
    | run front _ ih => exact spells_anyRun_iff.2 ⟨front, _, rfl, ih⟩
    | one d _ ih => exact spells_anyOne_iff.2 ⟨d, _, rfl, ih⟩
    | plain hb hs hq _ ih =>
      rw [pieces_plain hb hs hq]
      exact spells_literal_iff.2 ⟨_, rfl, ih⟩

/-- A value without wild cards is matched by one text only, the value with its escapes resolved. -/
theorem matches_iff_of_not_hasWildcards {v : Text} (h : hasWildcards v = false) {s : Text} :
    Matches v s ↔ s = unescape v := by
  have hliteral : pieces v = (unescape v).map literal := by
    have hall : ∀ p ∈ pieces v, literal p.char = p := by
      intro p hp
      have hplain := List.any_eq_false.1 h p hp
      cases p with
      | literal c => rfl
      | anyRun => exact absurd rfl hplain
      | anyOne => exact absurd rfl hplain
    rw [unescape, List.map_map]
    exact ((List.map_congr_left hall).trans (List.map_id _)).symm
  rw [← spells_pieces_iff, hliteral, spells_literals_iff]

theorem mem_of_literal_mem_pieces {v : Text} {c : Char} (h : literal c ∈ pieces v) : c ∈ v := by
  fun_induction pieces v with
  | case1 => cases h
  | case2 => simpa using h
  | case3 d v ih =>
    rcases List.mem_cons.1 h with heq | h
    · cases heq
      simp
    · exact List.mem_cons_of_mem _ (List.mem_cons_of_mem _ (ih h))
  | case4 v ih => exact List.mem_cons_of_mem _ (ih (by simpa using h))
  | case5 v ih => exact List.mem_cons_of_mem _ (ih (by simpa using h))
  | case6 d v _ _ _ _ ih =>
    rcases List.mem_cons.1 h with heq | h
    · cases heq
      exact List.mem_cons_self
    · exact List.mem_cons_of_mem _ (ih h)

end Text

namespace Piece

def slot (f : Nat → Nat) : Piece → Slot
  | literal c => .one (f c.toNat)
  | anyRun => .anyRun
  | anyOne => .anyOne

end Piece

/-- Whether a function on code points leaves the signs of patterns, and only them, what they are. -/
structure KeepsSigns (f : Nat → Nat) : Prop where
  percent : ∀ n, f n = 37 ↔ n = 37
  backslash : ∀ n, f n = 92 ↔ n = 92
  underscore : ∀ n, f n = 95 ↔ n = 95

theorem keepsSigns_id : KeepsSigns id := ⟨fun _ => .rfl, fun _ => .rfl, fun _ => .rfl⟩

theorem keepsSigns_glyph : KeepsSigns glyph := by
  have hsign : ∀ m n, m < 0xD800 → (glyph n = m ↔ n = m) := by
    intro m n hm
    unfold glyph
    split
    · rename_i h
      simp only [Bool.or_eq_true, Bool.and_eq_true, decide_eq_true_eq, beq_iff_eq] at h
      omega
    · rfl
  exact ⟨fun n => hsign 37 n (by decide), fun n => hsign 92 n (by decide),
    fun n => hsign 95 n (by decide)⟩

namespace Piece

variable {f : Nat → Nat}

theorem ofGlyphs_pattern (hf : KeepsSigns f) (ps : List Piece) :
    Slot.ofGlyphs ((Text.codes (ps.flatMap pattern)).map f) = ps.map (slot f) := by
  induction ps with
  | nil => rfl
  | cons p ps ih =>
    have hcodes : Text.codes ((p :: ps).flatMap pattern) =
        Text.codes p.pattern ++ Text.codes (ps.flatMap pattern) := by
      rw [List.flatMap_cons, Text.codes, List.map_append]
      rfl
    rw [hcodes, List.map_append, List.map_cons, ← ih]
    have hpercent := (hf.percent 37).2 rfl
    have hunderscore := (hf.underscore 95).2 rfl
    have hbackslash := (hf.backslash 92).2 rfl
    cases p with
    | anyRun =>
      change Slot.ofGlyphs (f 37 :: _) = _
      rw [hpercent]
      rfl
    | anyOne =>
      change Slot.ofGlyphs (f 95 :: _) = _
      rw [hunderscore]
      rfl
    | literal c =>
      by_cases hc : isPatternSign c = true
      · rw [pattern, if_pos hc]
        change Slot.ofGlyphs (f 92 :: f c.toNat :: _) = _
        rw [hbackslash]
        rfl
      · obtain ⟨hp, hu, hb⟩ := isPatternSign_eq_false (Bool.eq_false_iff.2 hc)
        rw [pattern, if_neg hc]
        refine Slot.ofGlyphs_plain ?_ ?_ ?_ _
        · exact fun he => hb (Char.toNat_inj.1 ((hf.backslash _).1 he))
        · exact fun he => hp (Char.toNat_inj.1 ((hf.percent _).1 he))
        · exact fun he => hu (Char.toNat_inj.1 ((hf.underscore _).1 he))

theorem spell_slots_iff (ps : List Piece) {s : Text}
    (h : ∀ c, literal c ∈ ps → ∀ d ∈ s, f c.toNat = f d.toNat → c = d) :
    Slot.spell (ps.map (slot f)) (s.codes.map f) = true ↔ spells ps s = true := by
  induction ps generalizing s with
  | nil => cases s <;> simp [Slot.spell, spells, Text.codes]
  | cons p ps ih =>
    have hrest : ∀ r : Text, r <:+ s →
        (Slot.spell (ps.map (slot f)) (r.codes.map f) = true ↔ spells ps r = true) := fun r hr =>
      ih fun c hc d hd => h c (List.mem_cons_of_mem _ hc) d (hr.subset hd)
    cases p with
    | literal c =>
      cases s with
      | nil => simp [Slot.spell, Slot.rests, slot, spells, Text.codes]
      | cons d s =>
        have hsame : f c.toNat = f d.toNat ↔ c = d :=
          ⟨h c List.mem_cons_self d List.mem_cons_self, fun he => by rw [he]⟩
        have htail := hrest s (List.suffix_cons d s)
        have hslots : Slot.spell ((literal c :: ps).map (slot f)) (Text.codes (d :: s) |>.map f) =
            ((if f c.toNat = f d.toNat then [(Text.codes s).map f] else []).any
              (Slot.spell (ps.map (slot f)))) := rfl
        rw [hslots, spells]
        by_cases hcd : c = d
        · rw [if_pos (hsame.2 hcd), List.any_cons, List.any_nil, Bool.or_false, htail, hcd]
          simp
        · rw [if_neg fun he => hcd (hsame.1 he)]
          simp [hcd]
    | anyOne =>
      cases s with
      | nil => simp [Slot.spell, Slot.rests, slot, spells, Text.codes]
      | cons d s =>
        have htail := hrest s (List.suffix_cons d s)
        have hslots : Slot.spell ((anyOne :: ps).map (slot f)) (Text.codes (d :: s) |>.map f) =
            (Slot.spell (ps.map (slot f)) ((Text.codes s).map f) || false) := rfl
        rw [hslots, Bool.or_false, htail, spells]
    | anyRun =>
      rw [spells, List.any_eq_true, List.map_cons, slot, Slot.spell, Slot.rests, List.any_eq_true]
      constructor
      · rintro ⟨t, ht, hspell⟩
        rw [Text.codes, List.map_map] at ht
        obtain ⟨r, hr, rfl⟩ := List.suffix_map_iff.1 (Text.mem_suffixes.1 ht)
        rw [← List.map_map] at hspell
        exact ⟨r, Text.mem_suffixes.2 hr, (hrest r hr).1 hspell⟩
      · rintro ⟨r, hr, hspell⟩
        have hr := Text.mem_suffixes.1 hr
        exact ⟨(Text.codes r).map f, Text.mem_suffixes.2 ((hr.map _).map _), (hrest r hr).2 hspell⟩

end Piece

namespace Text

open Piece

/-- Whether the whole of a text matches a pattern as patterns are documented. -/
def likeAsDocumented (pattern s : Text) : Bool := Slot.spell (Slot.ofGlyphs pattern.codes) s.codes

theorem likeAsDocumented_iff (v s : Text) :
    likeAsDocumented (likePattern v) s = true ↔ Matches v s := by
  have hslots := ofGlyphs_pattern keepsSigns_id (pieces v)
  have hspell := spell_slots_iff (f := id) (pieces v) (s := s) fun c _ d _ he =>
    Char.toNat_inj.1 he
  rw [List.map_id] at hslots hspell
  rw [likeAsDocumented, likePattern, hslots, hspell, spells_pieces_iff]

/-- Whether the database reads the pattern of a value as documented when it meets a text: neither of
them has a zero character, no character of the value is taken for another one of the text, and the
pattern is not too long. -/
structure SuitsLike (v s : Text) : Prop where
  value : '\x00' ∉ v
  text : '\x00' ∉ s
  apart : ∀ c ∈ v, ∀ d ∈ s, glyph c.toNat = glyph d.toNat → c = d
  size : (likePattern v).octets.length ≤ maxPatternSize

theorem zero_notMem_likePattern {v : Text} (h : '\x00' ∉ v) : '\x00' ∉ likePattern v := by
  intro hz
  obtain ⟨p, hp, hz⟩ := List.mem_flatMap.1 hz
  cases p with
  | anyRun => simp [pattern] at hz
  | anyOne => simp [pattern] at hz
  | literal c =>
    have hmem : '\x00' ∈ ['\\', c] := by
      rw [pattern] at hz
      split at hz
      · exact hz
      · exact List.mem_cons_of_mem _ hz
    simp only [List.mem_cons, List.not_mem_nil, or_false] at hmem
    rcases hmem with hz | rfl
    · exact absurd hz (by decide)
    · exact h (mem_of_literal_mem_pieces hp)

theorem like_likePattern_iff {v s : Text} (h : SuitsLike v s) :
    like (likePattern v) s.codes = true ↔ Matches v s := by
  have hspell := spell_slots_iff (f := glyph) (pieces v) (s := s) fun c hc d hd =>
    h.apart c (mem_of_literal_mem_pieces hc) d hd
  rw [like, Slot.matched_eq_spell, glyphs_codes (zero_notMem_likePattern h.value),
    glyphs_codes h.text, likePattern, ofGlyphs_pattern keepsSigns_glyph, hspell, spells_pieces_iff]

end Text

namespace Leaf

open Condition

variable {db : Database} {scope : Scope} {o : Operand} {v s : Text}

theorem truth_equals_unescape (ht : o.TakesTexts scope) (hs : o.cellIn scope = .text s)
    (hv : Text.hasWildcards v = false) :
    (equals o (.text (Text.unescape v))).truth db scope = .yes ↔ Text.Matches v s := by
  rw [equals, truth_compare, Literal.cell, ht.2, hs, Cell.stands_eq_yes, Cell.compare?_text,
    Option.some.injEq, Cell.compareTexts_eq_iff, Text.matches_iff_of_not_hasWildcards hv]

theorem truth_like_likePattern (hs : o.cellIn scope = .text s) (h : Text.SuitsLike v s) :
    (like o (Text.likePattern v)).truth db scope = .yes ↔ Text.Matches v s := by
  rw [truth_like h.size, hs, ← Text.like_likePattern_iff h, ← Truth.ofBool_eq_yes]
  rfl

/-- The condition of a value is true of exactly the texts that match the value: always if the value
has no wild cards, and with wild cards as far as the database reads patterns as they are documented.
There the pattern of a value without wild cards says the same as the equality. -/
theorem truth_textCondition_iff_matches (ht : o.TakesTexts scope) (hs : o.cellIn scope = .text s) :
    (Text.likeAsDocumented (Text.likePattern v) s = true ↔ Text.Matches v s) ∧
    (Text.hasWildcards v = false →
      ((textCondition o v).truth db scope = .yes ↔ Text.Matches v s)) ∧
    (Text.SuitsLike v s →
      ((textCondition o v).truth db scope = .yes ↔ Text.Matches v s) ∧
      ((like o (Text.likePattern v)).truth db scope = .yes ↔ Text.Matches v s)) := by
  have hplain : Text.hasWildcards v = false →
      ((textCondition o v).truth db scope = .yes ↔ Text.Matches v s) := by
    intro hv
    rw [textCondition, if_neg (by simp [hv])]
    exact truth_equals_unescape ht hs hv
  refine ⟨Text.likeAsDocumented_iff v s, hplain, fun h => ⟨?_, truth_like_likePattern hs h⟩⟩
  by_cases hv : Text.hasWildcards v = true
  · rw [textCondition, if_pos hv]
    exact truth_like_likePattern hs h
  · exact hplain (Bool.eq_false_iff.2 hv)

def mixedValue : Text := "a\\*b?c*%_\\".toList

def mixedText : Text := "a*bxcyz%_\\".toList

theorem truth_textCondition_iff_matches_mixed :
    (Operand.column .fileName).TakesTexts (fun _ => .text mixedText) ∧
    (Operand.column .fileName).cellIn (fun _ => .text mixedText) = .text mixedText ∧
    Text.hasWildcards "100%".toList = false ∧ Text.SuitsLike mixedValue mixedText ∧
    (textCondition (.column .fileName) "100%".toList).truth .blank (fun _ => .text mixedText) ≠
      .yes ∧
    (textCondition (.column .fileName) mixedValue).truth .blank (fun _ => .text mixedText) =
      .yes := by
  have htakes : (Operand.column .fileName).TakesTexts (fun _ => .text mixedText) :=
    ⟨rfl, Operand.convert_text rfl⟩
  have hcell : (Operand.column .fileName).cellIn (fun _ => .text mixedText) = .text mixedText := rfl
  have hplain : Text.hasWildcards "100%".toList = false := by decide
  have happart : (mixedValue.all fun c => mixedText.all fun d =>
      glyph c.toNat != glyph d.toNat || c == d) = true := by decide
  have hsuits : Text.SuitsLike mixedValue mixedText := by
    refine ⟨by decide, by decide, fun c hc d hd he => ?_, by decide⟩
    simpa [he] using List.all_eq_true.1 (List.all_eq_true.1 happart c hc) d hd
  have hmatches : Text.Matches mixedValue mixedText := Text.spells_pieces_iff.1 (by decide)
  have htruth := fun v => @truth_textCondition_iff_matches .blank _ _ v _ htakes hcell
  obtain ⟨-, hequals, -⟩ := htruth "100%".toList
  obtain ⟨-, -, hlike⟩ := htruth mixedValue
  refine ⟨htakes, hcell, hplain, hsuits, fun hyes => ?_, (hlike hsuits).1.2 hmatches⟩
  exact absurd (Text.spells_pieces_iff.2 ((hequals hplain).1 hyes)) (by decide)

theorem truth_like_of_long {pattern : Text} (h : maxPatternSize < pattern.length) :
    (like o pattern).truth db scope = .unknown := by
  have hlength : ∀ t : Text, t.length ≤ t.octets.length := by
    intro t
    induction t with
    | nil => exact Nat.le_refl 0
    | cons c t ih =>
      have hpos := Text.octetsOf_length_pos c.toNat
      rw [Text.octets_cons, List.length_append, List.length_cons]
      omega
  rw [truth, likeTruth?, if_pos (Nat.lt_of_lt_of_le h (hlength pattern))]
  rfl

theorem likePattern_stars (n : Nat) :
    Text.likePattern (List.replicate n '*') = List.replicate n '%' := by
  induction n with
  | zero => rfl
  | succ n ih => exact congrArg ('%' :: ·) ih

theorem matches_stars (n : Nat) : Text.Matches (List.replicate n '*') [] := by
  induction n with
  | zero => exact .nil
  | succ n ih => exact .run [] ih

/-- Where the database departs from the documentation a condition does not say what its value says:
a zero character ends the text or the pattern, two characters are taken for one another, or a
pattern that is too long is refused. -/
theorem textCondition_departs :
    ((textCondition (.column .tagName) ['?']).truth .blank (fun _ => .text ['a', '\x00']) = .yes ∧
      ¬ Text.Matches ['?'] ['a', '\x00']) ∧
    ((textCondition (.column .tagName) ['\x00', '*']).truth .blank (fun _ => .text []) = .yes ∧
      ¬ Text.Matches ['\x00', '*'] []) ∧
    ((textCondition (.column .tagName) ['\uFFFD', '*']).truth .blank
        (fun _ => .text ['\uFFFE']) = .yes ∧
      ¬ Text.Matches ['\uFFFD', '*'] ['\uFFFE']) ∧
    ((textCondition (.column .tagName) (List.replicate 50001 '*')).truth .blank
        (fun _ => .text []) ≠ .yes ∧
      Text.Matches (List.replicate 50001 '*') []) := by
  refine ⟨⟨by decide, ?_⟩, ⟨by decide, ?_⟩, ⟨by decide, ?_⟩, ?_, ?_⟩
  · exact fun h => absurd (Text.spells_pieces_iff.2 h) (by decide)
  · exact fun h => absurd (Text.spells_pieces_iff.2 h) (by decide)
  · exact fun h => absurd (Text.spells_pieces_iff.2 h) (by decide)
  · have hwild : Text.hasWildcards (List.replicate 50001 '*') = true := rfl
    have hlong : maxPatternSize < (List.replicate 50001 '%').length := by
      rw [List.length_replicate]
      decide
    rw [textCondition, if_pos hwild, likePattern_stars, truth_like_of_long hlong]
    simp
  · exact matches_stars 50001

end Leaf

end SampleSearch
