import SampleSearch.Query.Lexeme
import SampleSearch.Query.Tree

/-! # Parsing queries

`OR` binds loosest, then `AND`, which may be left out, then the prefix operators. Keywords are
those in capital letters. Groups and prefix operators share one limit on nesting: a parser of
operands has a parser for the operands inside, which is missing at the deepest level. The number
of boosts on one operand has the same limit. How the ends of a range are written is left to a
consumer: queries take words and quoted texts there.
-/

namespace SampleSearch.Query

open Lexeme

def maxNesting : Nat := 64

def nextAlternative (s : Text) : Option Text :=
  let s := skipBlank s
  if "||".toList.isPrefixOf s then some (s.drop 2)
  else if atKeyword "OR".toList s then some (s.drop 2)
  else none

/-- Whether an operand without a keyword in front of it follows. -/
def startsOperand (s : Text) : Bool :=
  match s with
  | [] => false
  | c :: _ => c != ')' && !"||".toList.isPrefixOf s && !atKeyword "OR".toList s

def nextConjunct (s : Text) : Option Text :=
  let s := skipBlank s
  if "&&".toList.isPrefixOf s then some (s.drop 2)
  else if atKeyword "AND".toList s then some (s.drop 3)
  else if startsOperand s then some s
  else none

theorem nextAlternative_le {s t : Text} (h : nextAlternative s = some t) :
    t.length ≤ s.length := by
  have hs := length_skipBlank_le s
  simp only [nextAlternative] at h
  split at h
  · cases h; simp; omega
  · split at h
    · cases h; simp; omega
    · cases h

theorem nextConjunct_le {s t : Text} (h : nextConjunct s = some t) : t.length ≤ s.length := by
  have hs := length_skipBlank_le s
  simp only [nextConjunct] at h
  split at h
  · cases h; simp; omega
  · split at h
    · cases h; simp; omega
    · split at h
      · cases h; omega
      · cases h

def conjunction (operand : Consumer Query) : Consumer Query :=
  operand.separated nextConjunct nextConjunct_le .all

def disjunction (operand : Consumer Query) : Consumer Query :=
  (conjunction operand).separated nextAlternative nextAlternative_le .any

def plainWord (s : Text) : Outcome Query :=
  (readWord s).andThen fun w r =>
    if isKeyword w then .fail (.unexpectedKeyword w) s else .done (.word w) r

def endpoint (s : Text) : Outcome Text :=
  match s with
  | '"' :: _ => readDelimited '"' .unclosedQuote s
  | _ => readWord s

theorem length_of_endpoint {s t r : Text} (h : endpoint s = .done t r) : r.length < s.length := by
  unfold endpoint at h
  split at h
  · exact length_of_readDelimited h
  · exact length_of_readWord h

/-- Ends of ranges that are words or stand in quotes. -/
def anyEnd : Consumer Text := ⟨endpoint, length_of_endpoint⟩

/-- Ends of ranges that are words. -/
def wordEnd : Consumer Text := ⟨readWord, length_of_readWord⟩

/-- Closes a range behind its upper end. -/
def closeRange (low : Text) (includesLow : Bool) (high r : Text) : Outcome Query :=
  match skipBlank r with
  | ']' :: r => .done (.range ⟨low, high, includesLow, true⟩) r
  | '\x7d' :: r => .done (.range ⟨low, high, includesLow, false⟩) r
  | r => .fail .unclosedRange r

/-- Reads a range behind its opening bracket. -/
def rangeRest (ends : Consumer Text) (includesLow : Bool) (s : Text) : Outcome Query :=
  (ends.run (skipBlank s)).andThen fun low r =>
    let r := skipBlank r
    if atKeyword "TO".toList r then
      (ends.run (skipBlank (r.drop 2))).andThen (closeRange low includesLow)
    else .fail .missingTo r

def opensLeaf (c : Char) : Bool := c == '"' || c == '/' || c == '[' || c == '\x7b'

def leaf (ends : Consumer Text) (s : Text) : Outcome Query :=
  match s with
  | '"' :: _ => (readDelimited '"' .unclosedQuote s).map .phrase
  | '/' :: _ => (readDelimited '/' .unclosedRegex s).map .regex
  | '[' :: r => rangeRest ends true r
  | '\x7b' :: r => rangeRest ends false r
  | _ => plainWord s

/-- A tilde makes a word fuzzy and a phrase a proximity. -/
def withTilde? (degree : Text) : Query → Option Query
  | .word v => some (.fuzzy v (if degree.isEmpty then none else some degree))
  | .phrase c => some (.proximity c (if degree.isEmpty then none else some degree))
  | _ => none

/-- Reads the modifiers behind an operand, which has been boosted a number of times. -/
def modifiers (boosts : Nat) (q : Query) (s : Text) : Outcome Query :=
  match s with
  | '~' :: t =>
    let number := splitNumber t
    match withTilde? number.1 q with
    | some q => modifiers boosts q number.2
    | none => .fail .misplacedTilde number.2
  | '^' :: t =>
    let number := splitNumber t
    if number.1.isEmpty then .fail .missingBoost number.2
    else if maxNesting < boosts + 1 then .fail .tooDeep number.2
    else modifiers (boosts + 1) (.boost q number.1) number.2
  | _ => .done q s
termination_by s.length
decreasing_by
  all_goals
    rw [List.length_cons]
    exact Nat.lt_succ_of_le (length_splitNumber_le t)

/-- Closes a group; `opening` is the text at its opening parenthesis. -/
def closeGroup (opening : Text) (q : Query) (r : Text) : Outcome Query :=
  match skipBlank r with
  | ')' :: r => .done q r
  | _ => .fail .unclosedGroup opening

/-- Reads a group behind its opening parenthesis; `opening` is the text at that parenthesis. -/
def groupRest (inner : Option (Consumer Query)) (opening s : Text) : Outcome Query :=
  match inner with
  | none => .fail .tooDeep s
  | some p =>
    match skipBlank s with
    | ')' :: r => .fail .emptyGroup (')' :: r)
    | t => ((disjunction p).run t).andThen (closeGroup opening)

/-- The value of a field in front of its modifiers. -/
def fieldBase (ends : Consumer Text) (inner : Option (Consumer Query)) (s : Text) :
    Outcome Query :=
  match s with
  | [] => .fail .missingValue []
  | '(' :: r => (groupRest inner s r).map .fieldGroup
  | c :: _ =>
    if isBreaker c && !opensLeaf c then .fail (.unexpectedAfterField c) s else leaf ends s

/-- Reads the value of a field behind the colon. -/
def fieldRest (ends : Consumer Text) (inner : Option (Consumer Query)) (name s : Text) :
    Outcome Query :=
  ((fieldBase ends inner (skipBlank s)).andThen (modifiers 0)).map (.field name)

def primary (ends : Consumer Text) (inner : Option (Consumer Query)) (s : Text) :
    Outcome Query :=
  match s with
  | [] => .fail .unexpectedEnd []
  | '(' :: r => (groupRest inner s r).map .group
  | c :: _ =>
    if opensLeaf c then leaf ends s
    else if isBreaker c then .fail (.unexpected c) s
    else (readWord s).andThen fun w r =>
      match r with
      | ':' :: r => fieldRest ends inner w r
      | r => if isKeyword w then .fail (.unexpectedKeyword w) s else .done (.word w) r

def prefixOperator? (s : Text) : Option ((Query → Query) × Text) :=
  if atKeyword "NOT".toList s then some (.negated, s.drop 3)
  else
    match s with
    | '!' :: r => some (.negated, r)
    | '-' :: r => some (.prohibited, r)
    | '+' :: r => some (.required, r)
    | _ => none

def operandRun (ends : Consumer Text) (inner : Option (Consumer Query)) (s : Text) :
    Outcome Query :=
  let s := skipBlank s
  match prefixOperator? s with
  | some (wrap, r) =>
    match inner with
    | none => .fail .tooDeep r
    | some p => (p.run r).map wrap
  | none => (primary ends inner s).andThen (modifiers 0)

variable {ends : Consumer Text}

theorem length_of_plainWord {s : Text} {q : Query} {r : Text} (h : plainWord s = .done q r) :
    r.length < s.length := by
  obtain ⟨w, t, hw, h⟩ := Outcome.andThen_eq_done.1 h
  have := length_of_readWord hw
  split at h
  · simp at h
  · cases h; exact this

theorem length_of_rangeRest {b : Bool} {s : Text} {q : Query} {r : Text}
    (h : rangeRest ends b s = .done q r) : r.length < s.length := by
  obtain ⟨low, t, ht, h⟩ := Outcome.andThen_eq_done.1 h
  have h1 := ends.shorter ht
  have h2 := length_skipBlank_le s
  have h3 := length_skipBlank_le t
  simp only at h
  split at h
  · obtain ⟨high, u, hu, h⟩ := Outcome.andThen_eq_done.1 h
    have h4 := ends.shorter hu
    have h5 := length_skipBlank_le ((skipBlank t).drop 2)
    have h6 := length_skipBlank_le u
    simp only [List.length_drop] at h5
    unfold closeRange at h
    split at h
    · rename_i heq; cases h; rw [heq] at h6; simp at h6; omega
    · rename_i heq; cases h; rw [heq] at h6; simp at h6; omega
    · simp at h
  · simp at h

theorem length_of_leaf {s : Text} {q : Query} {r : Text} (h : leaf ends s = .done q r) :
    r.length < s.length := by
  unfold leaf at h
  split at h
  · obtain ⟨t, ht, _⟩ := Outcome.map_eq_done.1 h
    exact length_of_readDelimited ht
  · obtain ⟨t, ht, _⟩ := Outcome.map_eq_done.1 h
    exact length_of_readDelimited ht
  · have := length_of_rangeRest h
    simp; omega
  · have := length_of_rangeRest h
    simp; omega
  · exact length_of_plainWord h

theorem length_of_modifiers {n : Nat} {p : Query} {s : Text} {q : Query} {r : Text}
    (h : modifiers n p s = .done q r) : r.length ≤ s.length := by
  fun_induction modifiers n p s with
  | case1 n p t number q' hq ih =>
    exact Nat.le_succ_of_le (Nat.le_trans (ih h) (length_splitNumber_le t))
  | case2 => simp at h
  | case3 => simp at h
  | case4 => simp at h
  | case5 n p t number _ _ ih =>
    exact Nat.le_succ_of_le (Nat.le_trans (ih h) (length_splitNumber_le t))
  | case6 => cases h; omega

theorem length_of_groupRest {inner : Option (Consumer Query)} {opening s : Text} {q : Query}
    {r : Text} (h : groupRest inner opening s = .done q r) : r.length < s.length := by
  unfold groupRest at h
  split at h
  · simp at h
  · rename_i p
    have h1 := length_skipBlank_le s
    split at h
    · simp at h
    · obtain ⟨q', t, hq, h⟩ := Outcome.andThen_eq_done.1 h
      have h2 := (disjunction p).shorter hq
      have h3 := length_skipBlank_le t
      unfold closeGroup at h
      split at h
      · rename_i heq; cases h; rw [heq] at h3; simp at h3; omega
      · simp at h

theorem length_of_fieldRest {inner : Option (Consumer Query)} {name s : Text} {q : Query}
    {r : Text} (h : fieldRest ends inner name s = .done q r) : r.length < s.length := by
  obtain ⟨v, hv, _⟩ := Outcome.map_eq_done.1 h
  obtain ⟨v', t, hv', hm⟩ := Outcome.andThen_eq_done.1 hv
  have h1 := length_of_modifiers hm
  have h2 := length_skipBlank_le s
  unfold fieldBase at hv'
  split at hv'
  · simp at hv'
  · rename_i heq
    obtain ⟨g, hg, _⟩ := Outcome.map_eq_done.1 hv'
    have h3 := length_of_groupRest hg
    rw [heq] at h2
    simp at h2; omega
  · split at hv'
    · simp at hv'
    · have h3 := length_of_leaf hv'
      omega

theorem length_of_primary {inner : Option (Consumer Query)} {s : Text} {q : Query} {r : Text}
    (h : primary ends inner s = .done q r) : r.length < s.length := by
  unfold primary at h
  split at h
  · simp at h
  · obtain ⟨g, hg, _⟩ := Outcome.map_eq_done.1 h
    have := length_of_groupRest hg
    simp; omega
  · split at h
    · exact length_of_leaf h
    · split at h
      · simp at h
      · obtain ⟨w, t, hw, h⟩ := Outcome.andThen_eq_done.1 h
        have h1 := length_of_readWord hw
        split at h
        · have h2 := length_of_fieldRest h
          simp only [List.length_cons] at h1 ⊢; omega
        · split at h
          · simp at h
          · cases h; exact h1

theorem length_of_prefixOperator? {s : Text} {w : Query → Query} {r : Text}
    (h : prefixOperator? s = some (w, r)) : r.length ≤ s.length := by
  unfold prefixOperator? at h
  split at h
  · cases h; simp
  · split at h <;> cases h <;> simp

theorem length_of_operandRun {inner : Option (Consumer Query)} {s : Text} {q : Query} {r : Text}
    (h : operandRun ends inner s = .done q r) : r.length < s.length := by
  have h1 := length_skipBlank_le s
  simp only [operandRun] at h
  split at h
  · rename_i hp
    have h2 := length_of_prefixOperator? hp
    split at h
    · simp at h
    · rename_i p
      obtain ⟨q', hq, _⟩ := Outcome.map_eq_done.1 h
      have h3 := p.shorter hq
      omega
  · obtain ⟨q', t, hq, h⟩ := Outcome.andThen_eq_done.1 h
    have h2 := length_of_primary hq
    have h3 := length_of_modifiers h
    omega

def operandWith (ends : Consumer Text) (inner : Option (Consumer Query)) : Consumer Query :=
  ⟨operandRun ends inner, length_of_operandRun⟩

/-- Operands nested at most `depth` levels deep. -/
def operand (ends : Consumer Text) : Nat → Consumer Query
  | 0 => operandWith ends none
  | depth + 1 => operandWith ends (some (operand ends depth))

/-- Nothing but blanks may follow a query. -/
def closeQuery (q : Query) (r : Text) : Outcome Query :=
  match skipBlank r with
  | [] => .done q []
  | c :: r => .fail (.unexpected c) (c :: r)

def outcome (ends : Consumer Text) (t : Text) : Outcome Query :=
  let s := skipBlank t
  if s.isEmpty then .fail .emptyQuery s
  else ((disjunction (operand ends maxNesting)).run s).andThen closeQuery

/-- Reads a query whose ranges have the given ends; the place of a fault counts the code points in
front of it. -/
def parseWith (ends : Consumer Text) (t : Text) : Except SearchError Query :=
  match outcome ends t with
  | .done q _ => .ok q
  | .stopped fault left => .error (.badSyntax fault (t.length - left))

def parse (t : Text) : Except SearchError Query := parseWith anyEnd t

end SampleSearch.Query
