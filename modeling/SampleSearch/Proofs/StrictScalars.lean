import SampleSearch.Proofs.StoredDocuments

/-!
# Strict scalars

The strict reader of JSON and the lenient one of documents skip the same blanks in front of what
is strict, and the lenient reader takes the strings, numbers and words of the strict one up to the
same rest, as long as they end before a blank, a comma or a closing bracket. A number of the strict
form always has a plain form.
-/

namespace SampleSearch

namespace Json

/-- The first character of a value. -/
def isStart (c : Char) : Bool :=
  c.isDigit || ['[', '\x7b', '"', 'n', 't', 'f', '-'].contains c

/-- A character that a value ends before. -/
def isEnd (c : Char) : Bool := isJsonBlank c || [',', ']', '\x7d'].contains c

/-- Whether a value ends before a text. -/
def EndsValue (s : Text) : Prop := ∀ c r, s = c :: r → isEnd c = true

/-- Whether all zero characters of a text are in a rest of it. -/
def KeepsZeros (s r : Text) : Prop := Char.ofNat 0 ∈ s → Char.ofNat 0 ∈ r

/-- A character that no reader skips, nor takes for the end of a text. -/
def isSolid (c : Char) : Bool :=
  !Document.isDocumentBlank c && !(['/', Char.ofNat 0].contains c)

theorem KeepsZeros.trans {s t r : Text} (hst : KeepsZeros s t) (htr : KeepsZeros t r) :
    KeepsZeros s r := fun h => htr (hst h)

theorem keepsZeros_cons {c : Char} {s : Text} (h : c ≠ Char.ofNat 0) : KeepsZeros (c :: s) s := by
  intro hmem
  rcases List.mem_cons.1 hmem with hc | hs
  · exact absurd hc.symm h
  · exact hs

theorem keepsZeros_append {w : Text} (h : Char.ofNat 0 ∉ w) (s : Text) : KeepsZeros (w ++ s) s := by
  intro hmem
  rcases List.mem_append.1 hmem with hw | hs
  · exact absurd hw h
  · exact hs

theorem skip_cons (c : Char) (s : Text) :
    skip (c :: s) = if isJsonBlank c then skip s else c :: s := by
  rw [skip, List.dropWhile_cons]
  rfl

theorem keepsZeros_dropWhile {p : Char → Bool} (h : p (Char.ofNat 0) = false) (s : Text) :
    KeepsZeros s (s.dropWhile p) := by
  induction s with
  | nil => exact id
  | cons c s ih =>
    rw [List.dropWhile_cons]
    by_cases hc : p c = true
    · rw [if_pos hc]
      refine (keepsZeros_cons ?_).trans ih
      rintro rfl
      rw [h] at hc
      cases hc
    · rw [if_neg hc]
      exact id

theorem keepsZeros_skip (s : Text) : KeepsZeros s (skip s) := keepsZeros_dropWhile (by decide) s

theorem skip_skip (s : Text) : skip (skip s) = skip s := by
  induction s with
  | nil => rfl
  | cons c s ih =>
    rw [skip_cons]
    by_cases hc : isJsonBlank c = true
    · rw [if_pos hc, ih]
    · rw [if_neg hc, skip_cons, if_neg hc]

theorem isDocumentBlank_of_isJsonBlank {c : Char} (h : isJsonBlank c = true) :
    Document.isDocumentBlank c = true := by
  simp only [isJsonBlank, Bool.or_eq_true, beq_iff_eq] at h
  rcases h with ((rfl | rfl) | rfl) | rfl <;> decide

theorem ne_slash_of_isSolid {c : Char} (h : isSolid c = true) : c ≠ '/' := by
  rintro rfl
  cases h

theorem ne_zero_of_isSolid {c : Char} (h : isSolid c = true) : c ≠ Char.ofNat 0 := by
  rintro rfl
  cases h

theorem skipLoose_cons {c : Char} (h : c ≠ '/') (n : Nat) (s : Text) :
    Document.skipLoose (n + 1) (c :: s) =
      if Document.isDocumentBlank c then Document.skipLoose n s else c :: s := by
  rw [Document.skipLoose.eq_def]
  split
  · rename_i heq
    cases heq
  · rename_i heq
    cases heq
    split
    · rename_i heq
      cases heq
      exact absurd rfl h
    · rename_i heq
      cases heq
      exact absurd rfl h
    · rename_i heq
      cases heq
      rfl
    · rename_i heq
      cases heq

/-- Both readers skip the same if there is neither a comment nor another blank behind it. -/
theorem skipLoose_eq {s : Text} (h : ∀ c r, skip s = c :: r → isSolid c = true) {n : Nat}
    (hn : s.length ≤ n) : Document.skipLoose n s = skip s := by
  induction s generalizing n with
  | nil => cases n <;> rfl
  | cons c s ih =>
    cases n with
    | zero => simp at hn
    | succ n =>
      by_cases hc : isJsonBlank c = true
      · have hslash : c ≠ '/' := by
          rintro rfl
          cases hc
        rw [skip_cons, if_pos hc] at h ⊢
        rw [skipLoose_cons hslash, if_pos (isDocumentBlank_of_isJsonBlank hc)]
        exact ih h (by simpa using hn)
      · rw [skip_cons, if_neg hc] at h ⊢
        have hsolid := h c s rfl
        rw [isSolid, Bool.and_eq_true, Bool.not_eq_true'] at hsolid
        rw [skipLoose_cons (ne_slash_of_isSolid (h c s rfl)), hsolid.1]
        rfl

theorem skip_eq_of_skip {s r : Text} {c : Char} (h : skip s = c :: r) (hc : isSolid c = true) :
    Document.skip s = c :: r := by
  rw [Document.skip, skipLoose_eq _ (Nat.le_refl _), h]
  intro d t hd
  rw [h] at hd
  cases hd
  exact hc

theorem keepsZeros_of_skip {s r : Text} {c : Char} (h : skip s = c :: r) (hc : isSolid c = true) :
    KeepsZeros s r := by
  have hzeros := keepsZeros_skip s
  rw [h] at hzeros
  exact hzeros.trans (keepsZeros_cons (ne_zero_of_isSolid hc))

theorem skip_eq_nil_of_skip {s : Text} (h : skip s = []) : Document.skip s = [] := by
  rw [Document.skip, skipLoose_eq _ (Nat.le_refl _), h]
  intro d t hd
  rw [h] at hd
  cases hd

/-- Whether the lenient reader reads a string off a text up to a rest. -/
def TakesString (s r : Text) : Prop :=
  KeepsZeros s r ∧ ∀ n, s.length < n → ∃ w, Document.stringRest? '"' n s = some (w, r)

theorem hex4?_cases {a b c d : Char} {n : Nat} (h : hex4? a b c d = some n) :
    ∀ x ∈ [a, b, c, d], ∃ m, hexValue? x = some m := by
  simp only [hex4?, Option.bind_eq_bind, Option.bind_eq_some_iff] at h
  obtain ⟨k, ha, l, hb, m, hc, o, hd, _⟩ := h
  intro x hx
  simp only [List.mem_cons, List.not_mem_nil, or_false] at hx
  rcases hx with rfl | rfl | rfl | rfl
  · exact ⟨k, ha⟩
  · exact ⟨l, hb⟩
  · exact ⟨m, hc⟩
  · exact ⟨o, hd⟩

theorem takesString_quote (s : Text) : TakesString ('"' :: s) s := by
  refine ⟨keepsZeros_cons (by decide), fun n hn => ?_⟩
  cases n with
  | zero => simp at hn
  | succ n => exact ⟨[], rfl⟩

/-- A piece behind a backslash is read if the rest is. -/
theorem TakesString.piece {s r : Text} {p : Document.StringPiece} (h : TakesString p.rest r)
    (hp : Document.escape? s = some p) (hz : KeepsZeros s p.rest)
    (hlen : p.rest.length ≤ s.length) : TakesString ('\\' :: s) r := by
  refine ⟨(keepsZeros_cons (by decide)).trans (hz.trans h.1), fun n hn => ?_⟩
  cases n with
  | zero => simp at hn
  | succ n =>
    rw [List.length_cons] at hn
    obtain ⟨w, hw⟩ := h.2 n (by omega)
    refine ⟨p.written ++ w, ?_⟩
    rw [Document.stringRest?]
    simp [hp, hw]

theorem TakesString.unicode {a b c d : Char} {s r : Text} {n : Nat} (h : TakesString s r)
    (hn : hex4? a b c d = some n) :
    TakesString ('\\' :: 'u' :: a :: b :: c :: d :: s) r := by
  have hne : ∀ x ∈ [a, b, c, d], x ≠ Char.ofNat 0 := by
    rintro x hx rfl
    obtain ⟨m, hm⟩ := hex4?_cases hn _ hx
    have hnone : hexValue? (Char.ofNat 0) = none := by decide
    rw [hnone] at hm
    cases hm
  have hzeros : KeepsZeros ('u' :: a :: b :: c :: d :: s) s := by
    refine (keepsZeros_cons (by decide)).trans ?_
    refine (keepsZeros_cons (hne a (by simp))).trans ?_
    refine (keepsZeros_cons (hne b (by simp))).trans ?_
    exact (keepsZeros_cons (hne c (by simp))).trans (keepsZeros_cons (hne d (by simp)))
  have hpiece : Document.escape? ('u' :: a :: b :: c :: d :: s) =
      some ⟨['\\', 'u', a, b, c, d], s⟩ := by
    simp [Document.escape?, Document.unicodeEscape?, hn]
  refine TakesString.piece (p := ⟨['\\', 'u', a, b, c, d], s⟩) h hpiece hzeros ?_
  simp only [List.length_cons]
  omega

theorem TakesString.escaped {c e : Char} {s r : Text} (h : TakesString s r)
    (hc : simpleEscape? c = some e) : TakesString ('\\' :: c :: s) r := by
  have hne : ∀ d, simpleEscape? d = none → c ≠ d := by
    rintro d hd rfl
    rw [hd] at hc
    cases hc
  have hpiece : Document.escape? (c :: s) = some ⟨['\\', c], s⟩ := by
    rw [Document.escape?]
    · rw [hc]
    · exact hne 'u' rfl
    · exact hne 'x' rfl
    · exact hne '\'' rfl
    · exact hne '0' rfl
    · exact hne 'v' rfl
    · intro _ hreturn _
      exact hne '\r' (by decide) hreturn
  refine TakesString.piece (p := ⟨['\\', c], s⟩) h hpiece ?_ (by simp)
  exact keepsZeros_cons (hne _ (by decide))

theorem TakesString.plain {c : Char} {s r : Text} (h : TakesString s r) (hquote : c ≠ '"')
    (hslash : c ≠ '\\') (hsmall : ¬ c.toNat < 0x20) : TakesString (c :: s) r := by
  have hzero : c ≠ Char.ofNat 0 := by
    rintro rfl
    exact hsmall (by decide)
  refine ⟨(keepsZeros_cons hzero).trans h.1, fun n hn => ?_⟩
  cases n with
  | zero => simp at hn
  | succ n =>
    obtain ⟨w, hw⟩ := h.2 n (by simpa using hn)
    refine ⟨c :: w, ?_⟩
    rw [Document.stringRest?]
    simp [hquote, hslash, hsmall, hw]

/-- The lenient reader takes the strings of the strict one. -/
theorem takesString_of_stringRest? {s t r : Text} (h : stringRest? s = some (t, r)) :
    TakesString s r := by
  fun_induction stringRest? s generalizing t with
  | case1 => cases h
  | case2 s =>
    cases h
    exact takesString_quote _
  | case3 a b c d e f g h' s ih ihNext =>
    obtain ⟨n, hn, h⟩ := Option.bind_eq_some_iff.1 h
    split at h
    · obtain ⟨m, hm, h⟩ := Option.bind_eq_some_iff.1 h
      split at h
      · obtain ⟨⟨u, r'⟩, hu, h⟩ := Option.bind_eq_some_iff.1 h
        cases h
        exact ((ih hu).unicode hm).unicode hn
      · cases h
    · split at h
      · cases h
      · obtain ⟨⟨u, r'⟩, hu, h⟩ := Option.bind_eq_some_iff.1 h
        cases h
        exact (ihNext hu).unicode hn
  | case4 a b c d s _ ih =>
    obtain ⟨n, hn, h⟩ := Option.bind_eq_some_iff.1 h
    split at h
    · cases h
    · obtain ⟨⟨u, r'⟩, hu, h⟩ := Option.bind_eq_some_iff.1 h
      cases h
      exact (ih hu).unicode hn
  | case5 c s _ _ ih =>
    obtain ⟨e, he, h⟩ := Option.bind_eq_some_iff.1 h
    obtain ⟨⟨u, r'⟩, hu, h⟩ := Option.bind_eq_some_iff.1 h
    cases h
    exact (ih hu).escaped he
  | case6 c s => cases h
  | case7 c s hquote _ _ _ hplain ih =>
    obtain ⟨⟨u, r'⟩, hu, h⟩ := Option.map_eq_some_iff.1 h
    cases h
    rw [Bool.or_eq_true, not_or, decide_eq_true_eq, beq_iff_eq] at hplain
    exact (ih hu).plain hquote hplain.2 hplain.1

theorem keepsZeros_digitRun {s digits rest : Text} (h : digitRun s = (digits, rest)) :
    KeepsZeros s rest := by
  cases h
  exact keepsZeros_dropWhile (by decide) s

theorem fraction?_eq_some {s f r : Text} (h : fraction? s = some (f, r)) :
    (∃ t, s = '.' :: t ∧ digitRun t = (f, r)) ∨ ((∀ t, s ≠ '.' :: t) ∧ r = s) := by
  rw [fraction?.eq_def] at h
  split at h
  · rename_i t
    cases hrun : digitRun t with
    | mk digits rest =>
      rw [hrun] at h
      by_cases hdigits : digits.isEmpty = true
      · simp [hdigits] at h
      · simp only [hdigits] at h
        cases h
        exact .inl ⟨t, rfl, hrun⟩
  · rename_i hdot
    cases h
    exact .inr ⟨fun t ht => hdot t ht, rfl⟩

theorem exponentDigits?_eq_some {down : Bool} {s r : Text} {x : Option (Bool × Text)}
    (h : exponentDigits? down s = some (x, r)) :
    ∃ digits, digitRun s = (digits, r) ∧ digits.isEmpty = false := by
  cases hrun : digitRun s with
  | mk digits rest =>
    rw [exponentDigits?, hrun] at h
    by_cases hdigits : digits.isEmpty = true
    · simp [hdigits] at h
    · simp only [hdigits] at h
      cases h
      exact ⟨digits, rfl, by simpa using hdigits⟩

theorem exponent?_of_strict {s r : Text} {x : Option (Bool × Text)}
    (h : exponent? s = some (x, r)) :
    KeepsZeros s r ∧ ∃ e, Document.exponent? s = some (e, r) := by
  cases s with
  | nil =>
    cases h
    exact ⟨id, none, rfl⟩
  | cons c s =>
    rw [exponent?.eq_def] at h
    rw [Document.exponent?.eq_def]
    simp only at h ⊢
    by_cases hc : (c == 'e' || c == 'E') = true
    · have hzero : c ≠ Char.ofNat 0 := by
        rintro rfl
        cases hc
      rw [if_pos hc] at h ⊢
      split at h
      · rename_i t
        obtain ⟨digits, hrun, hdigits⟩ := exponentDigits?_eq_some h
        refine ⟨(keepsZeros_cons hzero).trans ?_, ?_⟩
        · exact (keepsZeros_cons (by decide)).trans (keepsZeros_digitRun hrun)
        · simp only [hrun, hdigits]
          exact ⟨_, rfl⟩
      · rename_i t
        obtain ⟨digits, hrun, hdigits⟩ := exponentDigits?_eq_some h
        refine ⟨(keepsZeros_cons hzero).trans ?_, ?_⟩
        · exact (keepsZeros_cons (by decide)).trans (keepsZeros_digitRun hrun)
        · simp only [hrun, hdigits]
          exact ⟨_, rfl⟩
      · rename_i hminus hplus
        obtain ⟨digits, hrun, hdigits⟩ := exponentDigits?_eq_some h
        refine ⟨(keepsZeros_cons hzero).trans (keepsZeros_digitRun hrun), ?_⟩
        simp only [hrun, hdigits]
        exact ⟨_, rfl⟩
    · rw [if_neg hc] at h ⊢
      cases h
      exact ⟨id, none, rfl⟩

theorem unsigned?_eq_some {negative : Bool} {s r : Text} {n : Numeral}
    (h : unsigned? negative s = some (n, r)) :
    ∃ whole rest f r' x, digitRun s = (whole, rest) ∧ whole.isEmpty = false ∧
      (whole.length > 1 && whole.head? == some '0') = false ∧
      fraction? rest = some (f, r') ∧ exponent? r' = some (x, r) := by
  cases hrun : digitRun s with
  | mk whole rest =>
    rw [unsigned?, hrun] at h
    by_cases hwhole : (whole.isEmpty || (whole.length > 1 && whole.head? == some '0')) = true
    · simp only [hwhole, if_true] at h
      cases h
    · simp only [hwhole] at h
      obtain ⟨⟨f, r'⟩, hf, h⟩ := Option.bind_eq_some_iff.1 h
      obtain ⟨⟨x, r''⟩, hx, h⟩ := Option.bind_eq_some_iff.1 h
      cases h
      rw [Bool.not_eq_true, Bool.or_eq_false_iff] at hwhole
      exact ⟨whole, rest, f, r', x, rfl, hwhole.1, hwhole.2, hf, hx⟩

theorem decimalNumber?_of_strict (signed : Bool) {negative : Bool} {s r : Text} {n : Numeral}
    (h : unsigned? negative s = some (n, r)) :
    KeepsZeros s r ∧ ∃ written plain,
      Document.decimalNumber? signed negative s = some (.number written (some plain), r) := by
  obtain ⟨whole, rest, f, r', x, hrun, hwhole, hlead, hf, hx⟩ := unsigned?_eq_some h
  obtain ⟨hzeros, e, he⟩ := exponent?_of_strict hx
  rw [Document.decimalNumber?, hrun]
  rcases fraction?_eq_some hf with ⟨t, rfl, ht⟩ | ⟨hdot, rfl⟩
  · refine ⟨?_, ?_⟩
    · refine (keepsZeros_digitRun hrun).trans ((keepsZeros_cons (by decide)).trans ?_)
      exact (keepsZeros_digitRun ht).trans hzeros
    · have ht' : (t.takeWhile Char.isDigit, t.dropWhile Char.isDigit) = (f, r') := ht
      cases ht'
      simp only [hlead, hwhole, he]
      exact ⟨_, _, rfl⟩
  · refine ⟨(keepsZeros_digitRun hrun).trans hzeros, ?_⟩
    simp only [hlead, hwhole, he]
    cases e with
    | none => exact ⟨_, _, rfl⟩
    | some e => exact ⟨_, _, rfl⟩

theorem head_of_unsigned? {negative : Bool} {s r : Text} {n : Numeral}
    (h : unsigned? negative s = some (n, r)) : ∃ c t, s = c :: t ∧ c.isDigit = true := by
  obtain ⟨whole, rest, f, r', x, hrun, hwhole, _⟩ := unsigned?_eq_some h
  cases s with
  | nil =>
    cases hrun
    cases hwhole
  | cons c t =>
    refine ⟨c, t, rfl, ?_⟩
    by_cases hc : c.isDigit = true
    · exact hc
    · rw [digitRun, List.takeWhile_cons, if_neg hc] at hrun
      cases hrun
      cases hwhole

theorem startsWithWord_of_head {c d : Char} {w t : Text} (h : c.toLower ≠ d) :
    Document.startsWithWord (d :: w) (c :: t) = false := by
  rw [Document.startsWithWord, List.length_cons, List.take_succ_cons, List.map_cons,
    List.isPrefixOf_cons_cons, Bool.and_eq_false_iff, beq_eq_false_iff_ne]
  exact .inl (Ne.symm h)

theorem toLower_of_isDigit {c : Char} (h : c.isDigit = true) : c.toLower = c := by
  rw [Char.isDigit, Bool.and_eq_true, decide_eq_true_eq, decide_eq_true_eq] at h
  have hupper : ¬ (c.val ≥ 'A'.val ∧ c.val ≤ 'Z'.val) := by
    rintro ⟨hlow, _⟩
    exact absurd (UInt32.le_trans hlow h.2) (by decide)
  exact dif_neg hupper

theorem not_endsValue_of_hexadecimal {negative : Bool} {x : Char} {t r : Text} {n : Numeral}
    (h : unsigned? negative ('0' :: x :: t) = some (n, r)) (hx : x = 'x' ∨ x = 'X') :
    ¬ EndsValue r := by
  have hrest : r = x :: t := by
    rcases hx with rfl | rfl <;> cases h <;> rfl
  intro hr
  have hend := hr x t hrest
  rcases hx with rfl | rfl <;> exact absurd hend (by decide)

/-- No number of the strict form is taken for a hexadecimal one or for infinity. -/
theorem numberBehindSign?_of_strict {signed negative : Bool} {s r : Text} {n : Numeral}
    (h : unsigned? negative s = some (n, r)) (hr : EndsValue r) :
    Document.numberBehindSign? signed negative s = Document.decimalNumber? signed negative s := by
  rw [Document.numberBehindSign?.eq_def]
  split
  · rename_i x d t
    by_cases hx : ((x == 'x' || x == 'X') && (hexValue? d).isSome) = true
    · rw [Bool.and_eq_true, Bool.or_eq_true, beq_iff_eq, beq_iff_eq] at hx
      exact absurd hr (not_endsValue_of_hexadecimal h hx.1)
    · rw [if_neg hx]
  · obtain ⟨c, t, rfl, hc⟩ := head_of_unsigned? h
    have hword : Document.startsWithWord "inf".toList (c :: t) = false := by
      apply startsWithWord_of_head
      rw [toLower_of_isDigit hc]
      rintro rfl
      cases hc
    simp only [hword, Bool.and_false, Bool.false_eq_true, if_false]

theorem number?_of_strict {s r : Text} {j : Json} (h : number? s = some (j, r))
    (hr : EndsValue r) :
    KeepsZeros s r ∧ (∃ c t, s = c :: t ∧ (c.isDigit = true ∨ c = '-')) ∧
      ∃ written plain, Document.number? s = some (.number written (some plain), r) := by
  rw [number?.eq_def] at h
  split at h
  · rename_i t
    obtain ⟨⟨n, r'⟩, hn, h⟩ := Option.bind_eq_some_iff.1 h
    obtain ⟨j', _, h⟩ := Option.bind_eq_some_iff.1 h
    cases h
    obtain ⟨hzeros, hd⟩ := decimalNumber?_of_strict true hn
    refine ⟨(keepsZeros_cons (by decide)).trans hzeros, ⟨'-', t, rfl, .inr rfl⟩, ?_⟩
    rw [Document.number?, numberBehindSign?_of_strict hn hr]
    exact hd
  · rename_i hminus
    obtain ⟨⟨n, r'⟩, hn, h⟩ := Option.bind_eq_some_iff.1 h
    obtain ⟨j', _, h⟩ := Option.bind_eq_some_iff.1 h
    cases h
    obtain ⟨hzeros, hd⟩ := decimalNumber?_of_strict false hn
    obtain ⟨c, t, rfl, hc⟩ := head_of_unsigned? hn
    refine ⟨hzeros, ⟨c, t, rfl, .inl hc⟩, ?_⟩
    rw [Document.number?, numberBehindSign?_of_strict hn hr]
    · exact hd
    · intro u hu
      cases hu
      cases hc
    · intro u hu
      cases hu
      cases hc

theorem exactWord?_of_head {c e : Char} (h : c ≠ e) (w : Text) (d : Document) (t : Text) :
    Document.exactWord? (e :: w) d (c :: t) = none := by
  have hprefix : (e :: w).isPrefixOf (c :: t) = false := by
    rw [List.isPrefixOf_cons_cons, Bool.and_eq_false_iff, beq_eq_false_iff_ne]
    exact .inl (Ne.symm h)
  rw [Document.exactWord?, hprefix]
  rfl

theorem scalar?_of_number? {c : Char} {t r : Text} {d : Document}
    (hc : c.isDigit = true ∨ c = '-') (h : Document.number? (c :: t) = some (d, r)) :
    Document.scalar? (c :: t) = some (d, r) := by
  have hlower : c.toLower = c := by
    rcases hc with hc | rfl
    · exact toLower_of_isDigit hc
    · rfl
  have hne : ∀ e : Char, (e.isDigit || e == '-') = false → c ≠ e := by
    rintro e he rfl
    rw [Bool.or_eq_false_iff, beq_eq_false_iff_ne] at he
    rcases hc with hc | hc
    · rw [he.1] at hc
      cases hc
    · exact he.2 hc
  have hquoted : Document.quoted? (c :: t) = none := by
    rw [Document.quoted?]
    · rintro s hs
      cases hs
      exact hne '"' rfl rfl
    · rintro s hs
      cases hs
      exact hne '\'' rfl rfl
  have hloose : Document.looseWord? (c :: t) = none := by
    have hword : ∀ (e : Char) (w : Text), (e.isDigit || e == '-') = false →
        Document.startsWithWord (e :: w) (c :: t) = false := by
      intro e w he
      apply startsWithWord_of_head
      rw [hlower]
      exact hne e he
    have hinf : Document.startsWithWord "inf".toList (c :: t) = false :=
      hword 'i' _ rfl
    have hinfinity : Document.startsWithWord "infinity".toList (c :: t) = false :=
      hword 'i' _ rfl
    have hnan : Document.startsWithWord "nan".toList (c :: t) = false :=
      hword 'n' _ rfl
    have hqnan : Document.startsWithWord "qnan".toList (c :: t) = false :=
      hword 'q' _ rfl
    have hsnan : Document.startsWithWord "snan".toList (c :: t) = false :=
      hword 's' _ rfl
    simp only [Document.looseWord?, hinf, hinfinity, hnan, hqnan, hsnan, Bool.false_and,
      Bool.false_eq_true, if_false]
    rfl
  have hexact : ∀ (e : Char) (w : Text) (x : Document), (e.isDigit || e == '-') = false →
      Document.exactWord? (e :: w) x (c :: t) = none := fun e w x he =>
    exactWord?_of_head (hne e he) w x t
  have htrue : Document.exactWord? "true".toList (.bool true) (c :: t) = none :=
    hexact 't' _ _ rfl
  have hfalse : Document.exactWord? "false".toList (.bool false) (c :: t) = none :=
    hexact 'f' _ _ rfl
  have hnull : Document.exactWord? "null".toList .null (c :: t) = none :=
    hexact 'n' _ _ rfl
  simp only [Document.scalar?, hquoted, htrue, hfalse, hnull, hloose, h]
  rfl

theorem endsWord_of_endsValue {r : Text} (h : EndsValue r) : Document.endsWord r = true := by
  cases r with
  | nil => rfl
  | cons c r =>
    have hend := h c r rfl
    simp only [isEnd, isJsonBlank, List.contains_cons, List.contains_nil, Bool.or_false,
      Bool.or_eq_true, beq_iff_eq] at hend
    rcases hend with (((rfl | rfl) | rfl) | rfl) | rfl | rfl | rfl <;> rfl

theorem word?_eq_some {w s r : Text} {x j : Json} (h : word? w x s = some (j, r)) :
    s = w ++ r := by
  rw [word?] at h
  split at h
  · rename_i hprefix
    cases h
    obtain ⟨rest, rfl⟩ := List.isPrefixOf_iff_prefix.1 hprefix
    rw [List.drop_left]
  · cases h

theorem exactWord?_append (w : Text) (x : Document) {r : Text} (hr : EndsValue r) :
    Document.exactWord? w x (w ++ r) = some (x, r) := by
  have hprefix : w.isPrefixOf (w ++ r) = true := List.isPrefixOf_iff_prefix.2 ⟨r, rfl⟩
  rw [Document.exactWord?, hprefix, List.drop_left, endsWord_of_endsValue hr]
  rfl

theorem scalar?_null {r : Text} (hr : EndsValue r) :
    Document.scalar? ("null".toList ++ r) = some (.null, r) := by
  have hquoted : Document.quoted? ("null".toList ++ r) = none := rfl
  have htrue : Document.exactWord? "true".toList (.bool true) ("null".toList ++ r) = none := rfl
  have hfalse : Document.exactWord? "false".toList (.bool false) ("null".toList ++ r) = none := rfl
  simp only [Document.scalar?, hquoted, htrue, hfalse, exactWord?_append _ _ hr]
  rfl

theorem scalar?_true {r : Text} (hr : EndsValue r) :
    Document.scalar? ("true".toList ++ r) = some (.bool true, r) := by
  have hquoted : Document.quoted? ("true".toList ++ r) = none := rfl
  simp only [Document.scalar?, hquoted, exactWord?_append _ _ hr]
  rfl

theorem scalar?_false {r : Text} (hr : EndsValue r) :
    Document.scalar? ("false".toList ++ r) = some (.bool false, r) := by
  have hquoted : Document.quoted? ("false".toList ++ r) = none := rfl
  have htrue : Document.exactWord? "true".toList (.bool true) ("false".toList ++ r) = none := rfl
  simp only [Document.scalar?, hquoted, htrue, exactWord?_append _ _ hr]
  rfl

theorem scalar?_string {s t r : Text} (h : stringRest? s = some (t, r)) :
    KeepsZeros s r ∧ ∃ q, Document.quoted? ('"' :: s) = some (q, r) := by
  obtain ⟨hzeros, hd⟩ := takesString_of_stringRest? h
  obtain ⟨w, hw⟩ := hd (s.length + 1) (Nat.lt_succ_self _)
  refine ⟨hzeros, ⟨(Document.consumed s r).dropLast, w⟩, ?_⟩
  rw [Document.quoted?, Document.delimited?, hw]
  rfl

theorem isSolid_of_isStart {c : Char} (h : isStart c = true) : isSolid c = true := by
  rw [isStart, Bool.or_eq_true] at h
  rcases h with hdigit | hother
  · have hne : ['/', Char.ofNat 0].contains c = false := by
      rw [List.contains_eq_mem, decide_eq_false_iff_not]
      intro hmem
      rcases List.mem_cons.1 hmem with rfl | hmem
      · cases hdigit
      · rw [List.mem_singleton.1 hmem] at hdigit
        cases hdigit
    rw [Char.isDigit, Bool.and_eq_true, decide_eq_true_eq, decide_eq_true_eq,
      UInt32.le_iff_toNat_le, ge_iff_le, UInt32.le_iff_toNat_le] at hdigit
    have hlow : 48 ≤ c.toNat := hdigit.1
    have hhigh : c.toNat ≤ 57 := hdigit.2
    have hblank : Document.isDocumentBlank c = false := by
      simp only [Document.isDocumentBlank, isBlank, blankRanges, List.any_cons, List.any_nil,
        Bool.or_eq_false_iff, Bool.and_eq_false_iff, decide_eq_false_iff_not, beq_eq_false_iff_ne,
        bne_eq_false_iff_eq, and_true]
      omega
    rw [isSolid, hblank, hne]
    rfl
  · simp only [List.contains_cons, List.contains_nil, Bool.or_false, Bool.or_eq_true,
      beq_iff_eq] at hother
    rcases hother with rfl | rfl | rfl | rfl | rfl | rfl | rfl <;> rfl

end Json

end SampleSearch
