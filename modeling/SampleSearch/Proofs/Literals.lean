import SampleSearch.Proofs.LeafMeaning
import SampleSearch.Proofs.PrintedQueries

/-!
# Literals in queries

Any text can be searched for. Between quotes the signs with a meaning take a backslash, and as a
word every character may take one. What is written so is read back as the text itself by the
parser, by the search for wild cards and by the resolution of escapes.

With a star behind it the text becomes a pattern for what starts with it. The pattern language has
limits of its own: a zero character ends the pattern, the replacement character and the two code
points taken for it match each other, and a pattern may not be too long. The pattern says what is
meant exactly for the texts within these limits.
-/

namespace SampleSearch

namespace Text

open Piece Lexeme

def isValueSign (c : Char) : Bool := c == '"' || c == '\\' || c == '*' || c == '?'

/-- A text as it is written between quotes. -/
def escapeSigns (s : Text) : Text := s.flatMap fun c => if isValueSign c then ['\\', c] else [c]

/-- A text as it is written as a word. -/
def escapeAll (s : Text) : Text := s.flatMap fun c => ['\\', c]

theorem escapeSigns_cons (c : Char) (s : Text) :
    escapeSigns (c :: s) = (if isValueSign c then ['\\', c] else [c]) ++ escapeSigns s := rfl

theorem escapeAll_cons (c : Char) (s : Text) :
    escapeAll (c :: s) = '\\' :: c :: escapeAll s := rfl

theorem ne_of_isValueSign {c : Char} (h : isValueSign c = false) :
    c ≠ '"' ∧ c ≠ '\\' ∧ c ≠ '*' ∧ c ≠ '?' := by
  simpa [isValueSign, and_assoc] using h

theorem pieces_escapeSigns (s r : Text) :
    pieces (escapeSigns s ++ r) = s.map literal ++ pieces r := by
  induction s with
  | nil => rfl
  | cons c s ih =>
    rw [escapeSigns_cons, List.append_assoc]
    by_cases hc : isValueSign c = true
    · rw [if_pos hc]
      exact congrArg (literal c :: ·) ih
    · obtain ⟨-, hb, hs, hq⟩ := ne_of_isValueSign (Bool.eq_false_iff.2 hc)
      rw [if_neg hc, List.singleton_append, pieces_plain hb hs hq, ih]
      rfl

theorem pieces_escapeAll (s : Text) : pieces (escapeAll s) = s.map literal := by
  induction s with
  | nil => rfl
  | cons c s ih => rw [escapeAll_cons, pieces_escaped, ih, List.map_cons]

theorem isEnclosed_escapeSigns (s r : Text) (h : IsEnclosed '"' r) :
    IsEnclosed '"' (escapeSigns s ++ r) := by
  induction s with
  | nil => exact h
  | cons c s ih =>
    rw [escapeSigns_cons, List.append_assoc]
    by_cases hc : isValueSign c = true
    · rw [if_pos hc]
      exact ⟨ih.whole, ih.free⟩
    · obtain ⟨hquote, hb, -⟩ := ne_of_isValueSign (Bool.eq_false_iff.2 hc)
      rw [if_neg hc, List.singleton_append]
      refine ⟨(isWhole_cons hb _).trans ih.whole, ?_⟩
      rw [unprotected_cons hb, List.mem_cons, not_or]
      exact ⟨hquote.symm, ih.free⟩

theorem isWord_escapeAll {s : Text} (h : s ≠ []) : IsWord (escapeAll s) := by
  have hread : isWhole (escapeAll s) = true ∧ unprotected (escapeAll s) = [] := by
    clear h
    induction s with
    | nil => exact ⟨rfl, rfl⟩
    | cons c s ih => exact ih
  have hne : escapeAll s ≠ [] := by
    obtain ⟨c, s, rfl⟩ := List.exists_cons_of_ne_nil h
    simp [escapeAll_cons]
  exact ⟨⟨hne, by simp [hread.2]⟩, hread.1⟩

end Text

namespace Slot

theorem ofGlyphs_plain {g : Nat} (hb : g ≠ 92) (hp : g ≠ 37) (hu : g ≠ 95) (gs : List Nat) :
    ofGlyphs (g :: gs) = one g :: ofGlyphs gs := by
  rw [ofGlyphs.eq_def]
  split <;> simp_all

theorem spell_ones_append (gs : List Nat) (ps : List Slot) (hs : List Nat) :
    spell (gs.map one ++ ps) hs = true ↔ ∃ r, hs = gs ++ r ∧ spell ps r = true := by
  induction gs generalizing hs with
  | nil => simp
  | cons g gs ih =>
    cases hs with
    | nil => simp [spell, rests]
    | cons h hs =>
      have hstep : spell ((g :: gs).map one ++ ps) (h :: hs) = true ↔
          g = h ∧ spell (gs.map one ++ ps) hs = true := by
        by_cases hg : g = h
        · simp [spell, rests, hg]
        · simp [spell, rests, hg]
      rw [hstep, ih]
      constructor
      · rintro ⟨rfl, r, rfl, hr⟩
        exact ⟨r, rfl, hr⟩
      · rintro ⟨r, he, hr⟩
        obtain ⟨rfl, rfl⟩ := List.cons_eq_cons.1 he
        exact ⟨rfl, r, rfl, hr⟩

end Slot

theorem glyphs_append {codes : List Nat} (h : 0 ∉ codes) (more : List Nat) :
    glyphs (codes ++ more) = codes.map glyph ++ glyphs more := by
  have hpos : ∀ n ∈ codes, (n != 0) = true := by
    intro n hn
    rw [bne_iff_ne]
    rintro rfl
    exact h hn
  rw [glyphs, List.takeWhile_append_of_pos hpos, List.map_append]
  rfl

theorem glyph_eq_self_or (n : Nat) : glyph n = n ∨ glyph n = 0xFFFD := by
  unfold glyph
  split
  · exact .inr rfl
  · exact .inl rfl

theorem Piece.isPatternSign_eq_false {c : Char} (h : isPatternSign c = false) :
    c ≠ '%' ∧ c ≠ '_' ∧ c ≠ '\\' := by
  simpa [isPatternSign, and_assoc] using h

namespace Text

open Piece

theorem glyph_ne {c d : Char} (h : c ≠ d) (hd : d.toNat ≠ 0xFFFD) : glyph c.toNat ≠ d.toNat := by
  rcases glyph_eq_self_or c.toNat with hc | hc
  · rw [hc]
    exact fun he => h (Char.toNat_inj.1 he)
  · rw [hc]
    exact hd.symm

/-- Slots of a pattern in front of which the signs of a text stand for themselves. -/
theorem ofGlyphs_literals (s : Text) (gs : List Nat) :
    Slot.ofGlyphs ((codes ((s.map literal).flatMap pattern)).map glyph ++ gs) =
      (s.codes.map glyph).map .one ++ Slot.ofGlyphs gs := by
  induction s with
  | nil => rfl
  | cons c s ih =>
    have hcons : ((c :: s).map literal).flatMap pattern =
        (if isPatternSign c then ['\\', c] else [c]) ++ (s.map literal).flatMap pattern := rfl
    rw [hcons]
    by_cases hc : isPatternSign c = true
    · rw [if_pos hc]
      have hescape : ∀ g hs, Slot.ofGlyphs (glyph '\\'.toNat :: g :: hs) =
          .one g :: Slot.ofGlyphs hs := fun _ _ => rfl
      exact (hescape _ _).trans (congrArg (.one (glyph c.toNat) :: ·) ih)
    · rw [if_neg hc]
      obtain ⟨hp, hu, hb⟩ := isPatternSign_eq_false (Bool.eq_false_iff.2 hc)
      have hplain := Slot.ofGlyphs_plain (glyph_ne hb (by decide)) (glyph_ne hp (by decide))
        (glyph_ne hu (by decide))
      exact (hplain _).trans (congrArg (.one (glyph c.toNat) :: ·) ih)

theorem zero_notMem_codes {s : Text} : 0 ∉ s.codes ↔ '\x00' ∉ s := by
  rw [codes, List.mem_map, not_exists]
  constructor
  · exact fun h hs => h '\x00' ⟨hs, rfl⟩
  · rintro h c ⟨hc, hzero⟩
    have hc' : c = '\x00' := Char.toNat_inj.1 hzero
    exact h (hc' ▸ hc)

theorem zero_notMem_pattern {s : Text} (h : '\x00' ∉ s) :
    '\x00' ∉ (s.map literal).flatMap pattern := by
  intro hz
  obtain ⟨p, hp, hz⟩ := List.mem_flatMap.1 hz
  obtain ⟨c, hc, rfl⟩ := List.mem_map.1 hp
  have hmem : '\x00' ∈ ['\\', c] := by
    simp only [pattern] at hz
    split at hz
    · exact hz
    · exact List.mem_cons_of_mem _ hz
  simp only [List.mem_cons, List.not_mem_nil, or_false] at hmem
  rcases hmem with hz | rfl
  · exact absurd hz (by decide)
  · exact h hc

/-- Slots of what is behind the signs of a text are left as they are. -/
theorem ofGlyphs_literals_append {s : Text} (h : '\x00' ∉ s) (more : Text) :
    Slot.ofGlyphs (glyphs (codes ((s.map literal).flatMap pattern ++ more))) =
      (s.codes.map glyph).map .one ++ Slot.ofGlyphs (glyphs more.codes) := by
  have hzero := zero_notMem_codes.2 (zero_notMem_pattern h)
  rw [codes, List.map_append, ← codes, glyphs_append hzero, ofGlyphs_literals]
  rfl

/-- The pattern of the texts that start with a given one. -/
def prefixPattern (s : Text) : Text := (s.map literal).flatMap pattern ++ ['%']

theorem like_prefixPattern {s : Text} (h : '\x00' ∉ s) (t : Text) :
    like (prefixPattern s) t.codes = true ↔ s.codes.map glyph <+: glyphs t.codes := by
  have hany : ∀ r, Slot.spell [.anyRun] r = true := by
    intro r
    rw [Slot.spell, List.any_eq_true]
    exact ⟨[], mem_suffixes.2 (List.nil_suffix), rfl⟩
  rw [like, prefixPattern, ofGlyphs_literals_append h, Slot.matched_eq_spell,
    Slot.spell_ones_append]
  constructor
  · rintro ⟨r, hr, -⟩
    exact ⟨r, hr.symm⟩
  · rintro ⟨r, hr⟩
    exact ⟨r, hr.symm, hany r⟩

theorem glyphs_codes {s : Text} (h : '\x00' ∉ s) : glyphs s.codes = s.codes.map glyph := by
  have happend := glyphs_append (zero_notMem_codes.2 h) []
  rwa [List.append_nil, show glyphs [] = [] from rfl, List.append_nil] at happend

/-- A zero character ends the pattern, which then matches what stands in front of it. -/
theorem like_prefixPattern_zero {s : Text} (h : '\x00' ∉ s) (r : Text) :
    like (prefixPattern (s ++ '\x00' :: r)) s.codes = true := by
  have hcut : prefixPattern (s ++ '\x00' :: r) = (s.map literal).flatMap pattern ++
      '\x00' :: prefixPattern r := by
    simp [prefixPattern, pattern, isPatternSign]
  rw [like, hcut, ofGlyphs_literals_append h, Slot.matched_eq_spell, Slot.spell_ones_append,
    glyphs_codes h]
  exact ⟨[], by simp, rfl⟩

def isConfused (c : Char) : Bool := c == '\uFFFD' || c == '\uFFFE' || c == '\uFFFF'

theorem glyph_of_isConfused {c : Char} (h : isConfused c = true) : glyph c.toNat = 0xFFFD := by
  simp only [isConfused, Bool.or_eq_true, beq_iff_eq] at h
  rcases h with (rfl | rfl) | rfl <;> rfl

theorem glyph_of_not_isConfused {c : Char} (h : isConfused c = false) :
    glyph c.toNat = c.toNat ∧ c.toNat ≠ 0xFFFD := by
  have hne : ∀ d : Char, c ≠ d → c.toNat ≠ d.toNat := fun d hd he => hd (Char.toNat_inj.1 he)
  simp only [isConfused, Bool.or_eq_false_iff, beq_eq_false_iff_ne] at h
  obtain ⟨⟨hreplacement, hfirst⟩, hlast⟩ := h
  have hfirst : c.toNat ≠ 0xFFFE := hne _ hfirst
  have hlast : c.toNat ≠ 0xFFFF := hne _ hlast
  have hvalid : c.toNat < 0xD800 ∨ 0xDFFF < c.toNat ∧ c.toNat < 0x110000 := c.valid
  have hsurrogate : ¬(0xD800 ≤ c.toNat ∧ c.toNat < 0xE000) := by omega
  refine ⟨?_, hne _ hreplacement⟩
  rw [glyph, if_neg]
  simp [hfirst, hlast, hsurrogate]

theorem eq_of_glyph_eq {c d : Char} (hc : isConfused c = false)
    (h : glyph c.toNat = glyph d.toNat) : c = d := by
  obtain ⟨hself, hne⟩ := glyph_of_not_isConfused hc
  rcases glyph_eq_self_or d.toNat with hd | hd
  · exact Char.toNat_inj.1 (by rw [← hself, h, hd])
  · exact absurd (by rw [← hself, h, hd]) hne

def IsKept (s : Text) : Prop := ∀ c ∈ s, c ≠ '\x00' ∧ isConfused c = false

instance (s : Text) : Decidable s.IsKept := List.decidableBAll _ s

theorem like_prefixPattern_of_isKept {s : Text} (h : IsKept s) (t : Text) :
    like (prefixPattern s) t.codes = true ↔ s <+: t := by
  rw [like_prefixPattern fun hz => (h _ hz).1 rfl]
  induction s generalizing t with
  | nil => simp [codes]
  | cons c s ih =>
    have hs : IsKept s := fun d hd => h d (List.mem_cons_of_mem _ hd)
    obtain ⟨hzero, hconfused⟩ := h c List.mem_cons_self
    have hcodes : ∀ (e : Char) (u : Text), codes (e :: u) = e.toNat :: codes u := fun _ _ => rfl
    rw [hcodes, List.map_cons]
    cases t with
    | nil => simp [codes, glyphs]
    | cons d t =>
      by_cases hd : d = '\x00'
      · have hcut : glyphs (codes (d :: t)) = [] := by
          rw [hd]
          rfl
        rw [hcut, hd]
        simp [hzero]
      · have hone : 0 ∉ [d.toNat] := by
          simpa using fun he => hd (Char.toNat_inj.1 he.symm)
        have hcons : glyphs (codes (d :: t)) = glyph d.toNat :: glyphs (codes t) :=
          glyphs_append hone (codes t)
        rw [hcons, List.cons_prefix_cons, List.cons_prefix_cons, ih hs]
        refine and_congr_left fun _ => ⟨eq_of_glyph_eq hconfused, ?_⟩
        rintro rfl
        rfl

/-- Every character that a pattern confuses has another one in its place. -/
theorem exists_confused (c : Char) (h : isConfused c = true) :
    ∃ d, d ≠ c ∧ d ≠ '\x00' ∧ glyph d.toNat = glyph c.toNat := by
  rw [glyph_of_isConfused h]
  by_cases hc : c = '\uFFFD'
  · exact ⟨'\uFFFE', by rw [hc]; decide, by decide, by decide⟩
  · exact ⟨'\uFFFD', Ne.symm hc, by decide, by decide⟩

/-- The pattern of a text that is not kept matches a text that does not start with it. -/
theorem exists_like_of_not_isKept {s : Text} (h : ¬ IsKept s) :
    ∃ t : Text, like (prefixPattern s) t.codes = true ∧ ¬ s <+: t := by
  by_cases hz : '\x00' ∈ s
  · obtain ⟨front, r, rfl, hfront⟩ := List.eq_append_cons_of_mem hz
    refine ⟨front, like_prefixPattern_zero hfront r, fun hp => ?_⟩
    have hlength := hp.length_le
    rw [List.length_append, List.length_cons] at hlength
    omega
  · -- The text with one confused character changed has the same glyphs.
    have hconfused : ∃ c ∈ s, isConfused c = true := by
      cases hany : s.any isConfused with
      | true => exact List.any_eq_true.1 hany
      | false =>
        have hnone := List.any_eq_false.1 hany
        exact absurd (fun c hc => ⟨fun he => hz (he ▸ hc), by simpa using hnone c hc⟩) h
    obtain ⟨c, hc, hbad⟩ := hconfused
    obtain ⟨d, hd, hdz, hglyph⟩ := exists_confused c hbad
    obtain ⟨front, r, rfl⟩ := List.append_of_mem hc
    have hsame : glyphs (codes (front ++ d :: r)) = (codes (front ++ c :: r)).map glyph := by
      have hfree : '\x00' ∉ front ++ d :: r := by
        simp only [List.mem_append, List.mem_cons, not_or] at hz ⊢
        exact ⟨hz.1, hdz.symm, hz.2.2⟩
      rw [glyphs_codes hfree]
      simp [codes, hglyph]
    refine ⟨front ++ d :: r, (like_prefixPattern hz _).2 ?_, fun hp => ?_⟩
    · exact hsame ▸ List.prefix_refl _
    · have heq := hp.eq_of_length (by simp)
      exact hd (List.cons_eq_cons.1 (List.append_cancel_left heq)).1.symm

end Text

namespace Leaf

open Text Piece

variable {o : Operand} {s value : Text}

theorem textCondition_of_literals (h : pieces value = s.map literal) :
    textCondition o value = .equals o (.text s) := by
  have hwild : hasWildcards value = false := by simp [hasWildcards, h, isWild]
  have htext : unescape value = s := by simp [unescape, h, Function.comp_def, char]
  rw [textCondition, hwild, htext]
  rfl

theorem textCondition_of_prefix (h : pieces value = s.map literal ++ [anyRun]) :
    textCondition o value = .like o (prefixPattern s) := by
  have hwild : hasWildcards value = true := by simp [hasWildcards, h, isWild]
  have hpattern : likePattern value = prefixPattern s := by
    simp [likePattern, h, prefixPattern, pattern]
  rw [textCondition, if_pos hwild, hpattern]

end Leaf

/-- Whether the pattern of what starts with a text says so: the text is kept, and the pattern is
not too long. -/
def Text.HasPrefixPattern (s : Text) : Prop :=
  s.IsKept ∧ s.prefixPattern.octets.length ≤ maxPatternSize

instance (s : Text) : Decidable s.HasPrefixPattern :=
  inferInstanceAs (Decidable (s.IsKept ∧ s.prefixPattern.octets.length ≤ maxPatternSize))

theorem Condition.truth_prefixPattern_iff (c : Column) (s : Text) :
    (∀ db scope t, scope c = .text t →
      (like (.column c) s.prefixPattern).truth db scope = .ofBool (s.isPrefixOf t)) ↔
      s.HasPrefixPattern := by
  have htruth : ∀ db scope t, s.prefixPattern.octets.length ≤ maxPatternSize →
      scope c = .text t → (like (.column c) s.prefixPattern).truth db scope =
        .ofBool (Text.like s.prefixPattern t.codes) := by
    intro db scope t hsize ht
    have hcell : (Operand.column c).cellIn scope = .text t := ht
    rw [truth_like hsize, hcell]
    rfl
  constructor
  · intro h
    have hsize : s.prefixPattern.octets.length ≤ maxPatternSize := by
      apply Decidable.byContradiction
      intro hlong
      have hunknown := h .blank (fun _ => .text []) [] rfl
      rw [truth, likeTruth?, if_pos (Nat.not_le.1 hlong)] at hunknown
      cases hstarts : s.isPrefixOf [] <;> simp [hstarts, Truth.ofBool] at hunknown
    refine ⟨Classical.byContradiction fun hkept => ?_, hsize⟩
    obtain ⟨t, hlike, hstarts⟩ := Text.exists_like_of_not_isKept hkept
    have hyes := h .blank (fun _ => .text t) t rfl
    rw [htruth _ _ _ hsize rfl, hlike] at hyes
    exact hstarts (List.isPrefixOf_iff_prefix.1 (Truth.ofBool_eq_yes.1 hyes.symm))
  · rintro ⟨hkept, hsize⟩ db scope t ht
    rw [htruth _ _ _ hsize ht]
    congr 1
    rw [Bool.eq_iff_iff, Text.like_prefixPattern_of_isKept hkept, List.isPrefixOf_iff_prefix]

namespace Query

open Lexeme

/-- A field with a leaf as its value is read as it is printed, if the ends of a range are bare. -/
theorem parse_field_of_hasBareEnds {name : Text} (hname : IsWord name) (hopens : OpensOperand name)
    {q : Query} (hq : IsLeaf Enclosed q) (hbare : q.HasBareEnds) :
    parse (name ++ ':' :: q.text) = .ok (.field name q) := by
  have hfield : IsOperand Enclosed maxNesting (.field name q) :=
    .field (.field hname hopens (.plain (.leaf hq)))
  exact (parse_text_iff_of_isDisjunction (.inl (.inl hfield))).2 hbare

theorem parse_field_leaf {name : Text} (hname : IsWord name) (hopens : OpensOperand name)
    {q : Query} (hq : IsLeaf Enclosed q) (hends : q.rangeEnds = []) :
    parse (name ++ ':' :: q.text) = .ok (.field name q) :=
  parse_field_of_hasBareEnds hname hopens hq (by simp [HasBareEnds, hends])

section

variable {name value : Text} {b b' : Binding} {f : ResolvedField} {d : Directory} {v : Viewer}

def ofTerm (name value : Text) : Query := .field name (.word value)

def termText (name value : Text) : Text := name ++ ':' :: value

theorem parse_termText (hname : IsWord name) (hopens : OpensOperand name) (hvalue : IsWord value)
    (hkeyword : isKeyword value = false) (hslash : value.head? ≠ some '/') :
    parse (termText name value) = .ok (ofTerm name value) := by
  have hparse := parse_field_leaf hname hopens (.word hvalue hkeyword hslash) rfl
  rwa [text] at hparse

theorem compile_field (leaf : Leaf) (hresolve : ResolvedField.resolve name b = .ok f)
    (hbind : Kind.bind b f.kind = .ok b') {q : Query}
    (hq : compileIn d v (some f) b' q = (leaf.condition d v f).map fun e => (e, b')) :
    (field name q).compile d v b = (leaf.condition d v f).map fun e => (e, b') := by
  rw [compile, compileIn, hresolve, ← hq]
  exact congrArg (· >>= fun b => compileIn d v (some f) b q) hbind

theorem compile_ofTerm (hresolve : ResolvedField.resolve name b = .ok f)
    (hbind : Kind.bind b f.kind = .ok b') :
    (ofTerm name value).compile d v b =
      ((Leaf.term value).condition d v f).map fun e => (e, b') :=
  compile_field (.term value) hresolve hbind (by rw [compileIn]; rfl)

end

theorem isKeyword_escaped (w : Text) : isKeyword ('\\' :: w) = false := by
  simp [isKeyword]

def fileName : Text := "file.name".toList

def fileNameQuery (value : Text) : Text := fileName ++ ':' :: value

theorem parse_fileName {q : Query} (hq : IsLeaf Enclosed q) (hends : q.rangeEnds = []) :
    parse (fileNameQuery q.text) = .ok (.field fileName q) :=
  parse_field_leaf ⟨by decide, rfl⟩ (fun c hc => by cases hc; decide) hq hends

theorem parse_fileName_phrase {c : Text} (h : IsEnclosed '"' c) :
    parse (fileNameQuery (quoted c)) = .ok (.field fileName (.phrase c)) := by
  have hparse := parse_fileName (IsLeaf.phrase h) rfl
  rwa [text] at hparse

theorem parse_fileName_word {w : Text} (hw : IsWord w) (hkeyword : isKeyword w = false)
    (hslash : w.head? ≠ some '/') :
    parse (fileNameQuery w) = .ok (.field fileName (.word w)) := by
  have hparse := parse_fileName (IsLeaf.word hw hkeyword hslash) rfl
  rwa [text] at hparse

theorem compile_fileName (d : Directory) (v : Viewer) {b : Binding}
    (hb : b = none ∨ b = some .object ∨ b = some .file) {q : Query} {value : Text}
    (hq : q = .word value ∨ q = .phrase value) :
    (field fileName q).compile d v b =
      .ok (Leaf.textCondition (.column .fileName) value, some .file) := by
  have hresolve : ResolvedField.resolve fileName b =
      .ok ⟨fileName, .file, .text .fileName, []⟩ := by
    rcases hb with rfl | rfl | rfl <;> rfl
  have hbind : Kind.bind b .file = .ok (some .file) := by
    rcases hb with rfl | rfl | rfl <;> rfl
  rcases hq with rfl | rfl
  · exact compile_ofTerm hresolve hbind
  · exact compile_field (.term value) hresolve hbind (by rw [compileIn]; rfl)

/-- Any text is searched for by writing it between quotes or as a word, and what starts with it by
a star behind it, as far as patterns go. -/
theorem literals_are_searched (d : Directory) (v : Viewer) {b : Binding}
    (hb : b = none ∨ b = some .object ∨ b = some .file) (s : Text) :
    (parse (fileNameQuery (quoted s.escapeSigns)) =
        .ok (.field fileName (.phrase s.escapeSigns)) ∧
      (field fileName (.phrase s.escapeSigns)).compile d v b =
        .ok (.equals (.column .fileName) (.text s), some .file)) ∧
    (parse (fileNameQuery (quoted (s.escapeSigns ++ ['*']))) =
        .ok (.field fileName (.phrase (s.escapeSigns ++ ['*']))) ∧
      ∃ pattern, (field fileName (.phrase (s.escapeSigns ++ ['*']))).compile d v b =
          .ok (.like (.column .fileName) pattern, some .file) ∧
        ((∀ db scope t, scope .fileName = .text t →
          (Condition.like (.column .fileName) pattern).truth db scope =
            .ofBool (s.isPrefixOf t)) ↔ s.HasPrefixPattern)) ∧
    (s ≠ [] →
      parse (fileNameQuery s.escapeAll) = .ok (.field fileName (.word s.escapeAll)) ∧
      (field fileName (.word s.escapeAll)).compile d v b =
        .ok (.equals (.column .fileName) (.text s), some .file)) := by
  have hsigns : Text.pieces s.escapeSigns = s.map .literal := by
    have happend := Text.pieces_escapeSigns s []
    simpa using happend
  have hstar : Text.pieces (s.escapeSigns ++ ['*']) = s.map .literal ++ [.anyRun] :=
    Text.pieces_escapeSigns s ['*']
  refine ⟨⟨?_, ?_⟩, ⟨?_, s.prefixPattern, ?_, Condition.truth_prefixPattern_iff _ s⟩,
    fun hne => ⟨?_, ?_⟩⟩
  · have henclosed := Text.isEnclosed_escapeSigns s [] ⟨rfl, by simp⟩
    rw [List.append_nil] at henclosed
    exact parse_fileName_phrase henclosed
  · rw [compile_fileName d v hb (.inr rfl), Leaf.textCondition_of_literals hsigns]
  · exact parse_fileName_phrase (Text.isEnclosed_escapeSigns s ['*'] ⟨rfl, by decide⟩)
  · rw [compile_fileName d v hb (.inr rfl), Leaf.textCondition_of_prefix hstar]
  · have hopens : s.escapeAll.head? = some '\\' := by
      obtain ⟨c, s, rfl⟩ := List.exists_cons_of_ne_nil hne
      rfl
    have hkeyword : isKeyword s.escapeAll = false := by
      obtain ⟨c, s, rfl⟩ := List.exists_cons_of_ne_nil hne
      exact isKeyword_escaped _
    exact parse_fileName_word (Text.isWord_escapeAll hne) hkeyword (by simp [hopens])
  · rw [compile_fileName d v hb (.inl rfl),
      Leaf.textCondition_of_literals (Text.pieces_escapeAll s)]

/-- Signs of queries and of patterns, a blank and a keyword. -/
def signs : Text := "\"\\*?%_ AND".toList

theorem literals_are_searched_signs :
    signs ≠ [] ∧ signs.HasPrefixPattern ∧
      parse (fileNameQuery "\"\\\"\\\\\\*\\?%_ AND\"".toList) =
        .ok (.field fileName (.phrase signs.escapeSigns)) ∧
      (field fileName (.word signs.escapeAll)).compile Database.blank.directory
          (.ofUser ⟨1, ['a']⟩) none =
        .ok (.equals (.column .fileName) (.text signs), some .file) ∧
      ∃ pattern, (field fileName (.phrase (signs.escapeSigns ++ ['*']))).compile
            Database.blank.directory (.ofUser ⟨1, ['a']⟩) none =
          .ok (.like (.column .fileName) pattern, some .file) ∧
        (Condition.like (.column .fileName) pattern).truth .blank
          (fun _ => .text (signs ++ ['x'])) = .yes := by
  have hpattern : signs.HasPrefixPattern := by decide
  have hne : signs ≠ [] := by decide
  obtain ⟨⟨hparse, -⟩, ⟨-, pattern, hcompile, htruth⟩, hword⟩ :=
    literals_are_searched Database.blank.directory (.ofUser ⟨1, ['a']⟩) (.inl rfl) signs
  refine ⟨hne, hpattern, hparse, (hword hne).2, pattern, hcompile, ?_⟩
  rw [htruth.2 hpattern .blank _ _ rfl]
  decide

/-- The pattern for what starts with a zero character matches the empty text. -/
theorem literal_zero_matches_empty :
    parse (fileNameQuery (quoted (Text.escapeSigns ['\x00'] ++ ['*']))) =
        .ok (.field fileName (.phrase ['\x00', '*'])) ∧
      (field fileName (.phrase ['\x00', '*'])).compile Database.blank.directory
          (.ofUser ⟨1, ['a']⟩) none =
        .ok (.like (.column .fileName) ['\x00', '%'], some .file) ∧
      (Condition.like (.column .fileName) ['\x00', '%']).truth .blank
          (fun _ => .text []) = .yes ∧
      ¬ ['\x00'] <+: ([] : Text) :=
  ⟨parse_fileName_phrase (c := ['\x00', '*']) ⟨by decide, by decide⟩, rfl, by decide, by decide⟩

end Query

end SampleSearch
