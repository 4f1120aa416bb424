import SampleSearch.Query.Outcome
import SampleSearch.Text.Blank

/-! # Lexemes of queries

Words run up to a blank or a breaker, where a backslash protects the next character. Phrases and
regular expressions run up to their delimiter under the same protection. A keyword counts as one
only in front of a blank, an opening parenthesis, a quote or the end.
-/

namespace SampleSearch.Lexeme

def isBreaker (c : Char) : Bool :=
  ['(', ')', '[', ']', '\x7b', '\x7d', ':', '"', '^', '~'].contains c

def endsKeyword : Text → Bool
  | [] => true
  | c :: _ => isBlank c || c == '(' || c == '"'

/-- Whether a text starts with a keyword. -/
def atKeyword (keyword s : Text) : Bool :=
  keyword.isPrefixOf s && endsKeyword (s.drop keyword.length)

def isKeyword (w : Text) : Bool :=
  w == "AND".toList || w == "OR".toList || w == "NOT".toList || w == "TO".toList

/-- Splits off the longest word, which may be empty; a backslash at the end has nothing to
protect. -/
def splitWord? : Text → Option (Text × Text)
  | [] => some ([], [])
  | ['\\'] => none
  | '\\' :: c :: s => (splitWord? s).map fun p => ('\\' :: c :: p.1, p.2)
  | c :: s =>
    if isBlank c || isBreaker c then some ([], c :: s)
    else (splitWord? s).map fun p => (c :: p.1, p.2)

/-- Splits at the first delimiter that is not protected. -/
def splitDelimited? (delimiter : Char) : Text → Option (Text × Text)
  | [] => none
  | ['\\'] => none
  | '\\' :: c :: s => (splitDelimited? delimiter s).map fun p => ('\\' :: c :: p.1, p.2)
  | c :: s =>
    if c == delimiter then some ([], s)
    else (splitDelimited? delimiter s).map fun p => (c :: p.1, p.2)

theorem splitWord?_append {s w r : Text} (h : splitWord? s = some (w, r)) : w ++ r = s := by
  fun_induction splitWord? s generalizing w with
  | case1 => simp_all
  | case2 => simp at h
  | case3 c s ih =>
    obtain ⟨⟨v, t⟩, hv, he⟩ := Option.map_eq_some_iff.1 h
    cases he
    simp [ih hv]
  | case4 c s hc hb => simp_all
  | case5 c s _ _ _ ih =>
    obtain ⟨⟨v, t⟩, hv, he⟩ := Option.map_eq_some_iff.1 h
    cases he
    simp [ih hv]

theorem splitDelimited?_append {d : Char} {s t r : Text}
    (h : splitDelimited? d s = some (t, r)) : t ++ d :: r = s := by
  fun_induction splitDelimited? d s generalizing t with
  | case1 => simp at h
  | case2 => simp at h
  | case3 c s ih =>
    obtain ⟨⟨v, u⟩, hv, he⟩ := Option.map_eq_some_iff.1 h
    cases he
    simp [ih hv]
  | case4 c s hc hd => simp_all
  | case5 c s _ _ _ ih =>
    obtain ⟨⟨v, u⟩, hv, he⟩ := Option.map_eq_some_iff.1 h
    cases he
    simp [ih hv]

def readWord (s : Text) : Outcome Text :=
  match splitWord? s with
  | none => .stopped .danglingEscape 0
  | some (w, r) => if w.isEmpty then .fail .missingTerm s else .done w r

theorem length_of_readWord {s w r : Text} (h : readWord s = .done w r) : r.length < s.length := by
  unfold readWord at h
  split at h
  · simp at h
  · rename_i v t hs
    have hl := congrArg List.length (splitWord?_append hs)
    split at h
    · simp at h
    · cases h
      cases w with
      | nil => simp_all
      | cons c w =>
        simp only [List.length_append, List.length_cons] at hl
        omega

/-- Reads from an opening delimiter to the closing one. -/
def readDelimited (delimiter : Char) (fault : SyntaxFault) (s : Text) : Outcome Text :=
  match splitDelimited? delimiter (s.drop 1) with
  | none => .fail fault s
  | some (t, r) => .done t r

theorem length_of_readDelimited {d : Char} {fault : SyntaxFault} {s t r : Text}
    (h : readDelimited d fault s = .done t r) : r.length < s.length := by
  unfold readDelimited at h
  split at h
  · simp at h
  · rename_i v u hs
    cases h
    have hl := congrArg List.length (splitDelimited?_append hs)
    simp at hl
    omega

/-- Splits off digits and points. -/
def splitNumber (s : Text) : Text × Text :=
  (s.takeWhile fun c => c.isDigit || c == '.', s.dropWhile fun c => c.isDigit || c == '.')

theorem length_splitNumber_le (s : Text) : (splitNumber s).2.length ≤ s.length :=
  (List.dropWhile_suffix _).length_le

end SampleSearch.Lexeme
