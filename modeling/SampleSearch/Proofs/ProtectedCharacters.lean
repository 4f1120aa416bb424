import SampleSearch.Query.Lexeme

/-!
# Protected characters

A backslash protects the character behind it. What splits off a word or a delimited text depends
on the characters that are not protected: a word is left at the first of them that is a blank or a
breaker, a delimited text at the first that is the delimiter.
-/

namespace SampleSearch.Lexeme

/-- The characters of a text, read from left to right, that no backslash protects. -/
def unprotected : Text → Text
  | [] => []
  | '\\' :: _ :: s => unprotected s
  | c :: s => c :: unprotected s

/-- Whether the text does not end in the middle of an escape. -/
def isWhole : Text → Bool
  | [] => true
  | ['\\'] => false
  | '\\' :: _ :: s => isWhole s
  | _ :: s => isWhole s

@[simp] theorem unprotected_nil : unprotected [] = [] := rfl

@[simp] theorem unprotected_escaped (c : Char) (s : Text) :
    unprotected ('\\' :: c :: s) = unprotected s := rfl

theorem unprotected_cons {c : Char} (h : c ≠ '\\') (s : Text) :
    unprotected (c :: s) = c :: unprotected s := by
  rw [unprotected.eq_def]
  split <;> simp_all

@[simp] theorem isWhole_nil : isWhole [] = true := rfl

@[simp] theorem isWhole_escaped (c : Char) (s : Text) : isWhole ('\\' :: c :: s) = isWhole s := rfl

theorem isWhole_cons {c : Char} (h : c ≠ '\\') (s : Text) : isWhole (c :: s) = isWhole s := by
  rw [isWhole.eq_def]
  split <;> simp_all

/-- A text is empty, an escape at the front of a text, a character that needs no escape in front
of a text, or a lone backslash. -/
theorem escaped_induction {motive : Text → Prop} (nil : motive []) (lone : motive ['\\'])
    (escaped : ∀ c s, motive s → motive ('\\' :: c :: s))
    (plain : ∀ c s, c ≠ '\\' → motive s → motive (c :: s)) (t : Text) : motive t := by
  induction t using isWhole.induct with
  | case1 => exact nil
  | case2 => exact lone
  | case3 c s ih => exact escaped c s ih
  | case4 c s hlone hescaped ih =>
    refine plain c s ?_ ih
    rintro rfl
    cases s with
    | nil => exact hlone rfl rfl
    | cons d s => exact hescaped d s rfl rfl

/-- Whether a word ends in front of a character. -/
def breaksWord (c : Char) : Bool := isBlank c || isBreaker c

/-- Whether a word ends in front of a text. -/
def EndsWord (s : Text) : Prop := ∀ c ∈ s.head?, breaksWord c = true

/-- Whether a text can be written as a bare word. -/
def IsBareWord (w : Text) : Prop :=
  w ≠ [] ∧ ∀ c ∈ unprotected w, isBlank c = false ∧ isBreaker c = false

instance (w : Text) : Decidable (IsBareWord w) :=
  decidable_of_iff
    (w ≠ [] ∧ ((unprotected w).all fun c => !isBlank c && !isBreaker c) = true)
    (by simp [IsBareWord])

/-- Words as they are read from a query. -/
structure IsWord (w : Text) : Prop where
  bare : IsBareWord w
  whole : isWhole w = true

theorem endsWord_nil : EndsWord [] := by simp [EndsWord]

theorem endsWord_cons {c : Char} {s : Text} : EndsWord (c :: s) ↔ breaksWord c = true := by
  simp [EndsWord]

theorem splitWord?_cons {c : Char} (hc : c ≠ '\\') (s : Text) :
    splitWord? (c :: s) =
      if breaksWord c then some ([], c :: s)
      else (splitWord? s).map fun p => (c :: p.1, p.2) := by
  rw [splitWord?.eq_def]
  split <;> simp_all [breaksWord]

theorem splitWord?_append_of_isWhole {w r : Text} (hw : isWhole w = true)
    (hu : ∀ c ∈ unprotected w, breaksWord c = false) (hr : EndsWord r) :
    splitWord? (w ++ r) = some (w, r) := by
  induction w using escaped_induction with
  | nil =>
    cases r with
    | nil => rfl
    | cons c r =>
      have hb : breaksWord c = true := endsWord_cons.1 hr
      have hc : c ≠ '\\' := by
        rintro rfl
        revert hb
        decide
      rw [List.nil_append, splitWord?_cons hc, if_pos hb]
  | lone => cases hw
  | escaped c s ih =>
    rw [List.cons_append, List.cons_append, splitWord?, ih hw hu]
    rfl
  | plain c s hc ih =>
    rw [isWhole_cons hc] at hw
    rw [unprotected_cons hc] at hu
    have hb : breaksWord c = false := hu c (by simp)
    rw [List.cons_append, splitWord?_cons hc, hb, ih hw fun d hd => hu d (by simp [hd])]
    rfl

theorem isWhole_of_splitWord? {s w r : Text} (h : splitWord? s = some (w, r)) :
    isWhole w = true ∧ (∀ c ∈ unprotected w, breaksWord c = false) ∧ EndsWord r := by
  induction s using escaped_induction generalizing w with
  | nil =>
    cases h
    simp [endsWord_nil]
  | lone => cases h
  | escaped c s ih =>
    obtain ⟨⟨v, t⟩, hv, he⟩ := Option.map_eq_some_iff.1 h
    cases he
    obtain ⟨hw, hu, hr⟩ := ih hv
    exact ⟨hw, hu, hr⟩
  | plain c s hc ih =>
    rw [splitWord?_cons hc] at h
    cases hb : breaksWord c with
    | true =>
      rw [if_pos hb] at h
      cases h
      simp [endsWord_cons, hb]
    | false =>
      rw [hb, if_neg Bool.false_ne_true] at h
      obtain ⟨⟨v, t⟩, hv, he⟩ := Option.map_eq_some_iff.1 h
      cases he
      obtain ⟨hw, hu, hr⟩ := ih hv
      refine ⟨by rwa [isWhole_cons hc], ?_, hr⟩
      rw [unprotected_cons hc]
      simpa [hb] using hu

theorem isWord_of_readWord {s w r : Text} (h : readWord s = .done w r) :
    s = w ++ r ∧ IsWord w ∧ EndsWord r := by
  unfold readWord at h
  cases hs : splitWord? s with
  | none => simp [hs] at h
  | some p =>
    obtain ⟨v, t⟩ := p
    obtain ⟨hw, hu, hr⟩ := isWhole_of_splitWord? hs
    cases v with
    | nil => simp [hs] at h
    | cons c v =>
      simp only [hs, List.isEmpty_cons, Bool.false_eq_true, if_false, Outcome.done.injEq] at h
      obtain ⟨rfl, rfl⟩ := h
      refine ⟨(splitWord?_append hs).symm, ⟨⟨by simp, fun d hd => ?_⟩, hw⟩, hr⟩
      simpa [breaksWord] using hu d hd

theorem readWord_append {w r : Text} (hw : IsWord w) (hr : EndsWord r) :
    readWord (w ++ r) = .done w r := by
  have hu : ∀ c ∈ unprotected w, breaksWord c = false := by
    intro c hc
    simp [breaksWord, hw.bare.2 c hc]
  rw [readWord, splitWord?_append_of_isWhole hw.whole hu hr]
  simp [hw.bare.1]

/-- A bare word begins with a character that no word ends in front of. -/
theorem IsBareWord.head {w : Text} (h : IsBareWord w) :
    ∃ c v, w = c :: v ∧ breaksWord c = false := by
  obtain ⟨hne, hu⟩ := h
  cases w with
  | nil => exact absurd rfl hne
  | cons c v =>
    refine ⟨c, v, rfl, ?_⟩
    by_cases hc : c = '\\'
    · subst hc
      decide
    · have := hu c (by rw [unprotected_cons hc]; simp)
      simp [breaksWord, this]

/-- Texts that can stand between delimiters. -/
structure IsEnclosed (delimiter : Char) (t : Text) : Prop where
  whole : isWhole t = true
  free : delimiter ∉ unprotected t

theorem splitDelimited?_cons {d c : Char} (hc : c ≠ '\\') (s : Text) :
    splitDelimited? d (c :: s) =
      if c == d then some ([], s) else (splitDelimited? d s).map fun p => (c :: p.1, p.2) := by
  rw [splitDelimited?.eq_def]
  split <;> simp_all

theorem splitDelimited?_append_of_isEnclosed {d : Char} (hd : d ≠ '\\') {t : Text}
    (h : IsEnclosed d t) (r : Text) : splitDelimited? d (t ++ d :: r) = some (t, r) := by
  obtain ⟨hw, hf⟩ := h
  induction t using escaped_induction with
  | nil =>
    rw [List.nil_append, splitDelimited?_cons hd]
    simp
  | lone => cases hw
  | escaped c s ih =>
    rw [List.cons_append, List.cons_append, splitDelimited?, ih hw hf]
    rfl
  | plain c s hc ih =>
    rw [isWhole_cons hc] at hw
    rw [unprotected_cons hc, List.mem_cons, not_or] at hf
    rw [List.cons_append, splitDelimited?_cons hc, ih hw hf.2]
    simp [Ne.symm hf.1]

theorem isEnclosed_of_splitDelimited? {d : Char} {s t r : Text}
    (h : splitDelimited? d s = some (t, r)) : IsEnclosed d t := by
  induction s using escaped_induction generalizing t with
  | nil => cases h
  | lone => cases h
  | escaped c s ih =>
    obtain ⟨⟨v, u⟩, hv, he⟩ := Option.map_eq_some_iff.1 h
    cases he
    obtain ⟨hw, hf⟩ := ih hv
    exact ⟨hw, hf⟩
  | plain c s hc ih =>
    rw [splitDelimited?_cons hc] at h
    split at h
    · cases h
      exact ⟨rfl, by simp⟩
    · rename_i hcd
      obtain ⟨⟨v, u⟩, hv, he⟩ := Option.map_eq_some_iff.1 h
      cases he
      obtain ⟨hw, hf⟩ := ih hv
      refine ⟨by rwa [isWhole_cons hc], ?_⟩
      rw [unprotected_cons hc, List.mem_cons, not_or]
      exact ⟨fun hdc => hcd (by simp [hdc]), hf⟩

theorem isEnclosed_of_readDelimited {d c : Char} {fault : SyntaxFault} {s t r : Text}
    (h : readDelimited d fault (c :: s) = .done t r) : s = t ++ d :: r ∧ IsEnclosed d t := by
  simp only [readDelimited, List.drop_succ_cons, List.drop_zero] at h
  cases hs : splitDelimited? d s with
  | none => simp [hs] at h
  | some p =>
    simp only [hs, Outcome.done.injEq] at h
    obtain ⟨rfl, rfl⟩ := h
    exact ⟨(splitDelimited?_append hs).symm, isEnclosed_of_splitDelimited? hs⟩

theorem readDelimited_append {d : Char} (hd : d ≠ '\\') {t : Text} (h : IsEnclosed d t) (c : Char)
    (fault : SyntaxFault) (r : Text) : readDelimited d fault (c :: t ++ d :: r) = .done t r := by
  simp [readDelimited, splitDelimited?_append_of_isEnclosed hd h]

theorem IsWord.isEnclosed {w : Text} (h : IsWord w) : IsEnclosed '"' w := by
  refine ⟨h.whole, fun hq => ?_⟩
  have := (h.bare.2 _ hq).2
  revert this
  decide

/-- Behind a text without bare quotes no quote follows at once, nor after blanks. -/
theorem head?_skipBlank_append {e s : Text} (h : '"' ∉ unprotected e)
    (hs : (skipBlank s).head? ≠ some '"') : (skipBlank (e ++ s)).head? ≠ some '"' := by
  induction e with
  | nil => exact hs
  | cons c e ih =>
    rw [List.cons_append, skipBlank_cons]
    cases hb : isBlank c with
    | true =>
      have hc : c ≠ '\\' := by
        rintro rfl
        revert hb
        decide
      rw [unprotected_cons hc] at h
      exact ih fun he => h (by simp [he])
    | false =>
      by_cases hc : c = '\\'
      · simp [hc]
      · rw [unprotected_cons hc] at h
        simp only [List.mem_cons, not_or] at h
        simpa using Ne.symm h.1

end SampleSearch.Lexeme
