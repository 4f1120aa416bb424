import SampleSearch.Proofs.UniqueReading
import SampleSearch.Sql.Statement

/-!
# Tokens of statements

A statement is taken as a list of tokens: words, signs of comparison, texts in quotes, single marks
and bound values. Words and signs are as long as they can be, spaces and ends of lines only
separate, and the placeholders take the values in their order. Two texts that are not joined to one
word or sign have the tokens of both, so the tokens of a rendered condition are those of its parts.
-/

namespace SampleSearch.Sql

inductive Token
  | word (t : Text)
  | sign (t : Text)
  | quoted (t : Text)
  | mark (c : Char)
  | bound (p : Parameter)
  deriving DecidableEq, Repr

def isWordChar (c : Char) : Bool := c.isAlphanum || c == '_'

def isSignChar (c : Char) : Bool := c == '<' || c == '=' || c == '>'

def isSeparator (c : Char) : Bool := c == ' ' || c == '\n'

/-- Whether two characters next to each other belong to one token. -/
def joins (a b : Char) : Bool := (isWordChar a && isWordChar b) || (isSignChar a && isSignChar b)

/-- Whether a character belongs to no word and no sign. -/
def isFree (c : Char) : Bool := !isWordChar c && !isSignChar c

theorem joins_eq_false_left {a : Char} (h : isFree a = true) (b : Char) : joins a b = false := by
  simp_all [isFree, joins]

theorem joins_eq_false_right (a : Char) {b : Char} (h : isFree b = true) : joins a b = false := by
  simp_all [isFree, joins]

theorem isFree_of_isSeparator {c : Char} (h : isSeparator c = true) : isFree c = true := by
  rcases Bool.or_eq_true _ _ ▸ h with h | h
  · rw [beq_iff_eq.1 h]
    decide
  · rw [beq_iff_eq.1 h]
    decide

/-- Whether no word and no sign runs from one text into the next. -/
def Apart (s t : Text) : Prop := ∀ a ∈ s.getLast?, ∀ b ∈ t.head?, joins a b = false

theorem apart_of_last {s : Text} (h : s.getLast?.all isFree = true) (t : Text) : Apart s t := by
  intro a ha b _
  rw [Option.mem_def] at ha
  rw [ha] at h
  exact joins_eq_false_left h b

theorem apart_of_first (s : Text) {t : Text} (h : t.head?.all isFree = true) : Apart s t := by
  intro a _ b hb
  rw [Option.mem_def] at hb
  rw [hb] at h
  exact joins_eq_false_right a h

theorem Apart.of_cons {c : Char} {s t : Text} (h : Apart (c :: s) t) : Apart s t := by
  intro a ha
  refine h a ?_
  cases s with
  | nil => cases ha
  | cons d s => exact ha

namespace Token

def keyword (s : String) : Token := word s.toList

def ofChar (c : Char) : Token :=
  if isWordChar c then word [c] else if isSignChar c then sign [c] else mark c

/-- Puts a character in front of the first token. -/
def extend (c : Char) : List Token → List Token
  | word t :: ts => word (c :: t) :: ts
  | sign t :: ts => sign (c :: t) :: ts
  | quoted t :: ts => quoted (c :: t) :: ts
  | ts => ts

theorem extend_append (c : Char) {ts : List Token} (h : ts ≠ []) (us : List Token) :
    extend c (ts ++ us) = extend c ts ++ us := by
  cases ts with
  | nil => exact absurd rfl h
  | cons t ts => cases t <;> rfl

theorem extend_ne_nil (c : Char) {ts : List Token} (h : ts ≠ []) : extend c ts ≠ [] := by
  cases ts with
  | nil => exact absurd rfl h
  | cons t ts => cases t <;> simp [extend]

mutual

/-- Takes a text apart, with the values for its placeholders. There must be as many of them. -/
def scan : Text → List Parameter → Option (List Token)
  | [], ps => if ps.isEmpty then some [] else none
  | c :: s, ps =>
    if isSeparator c then scan s ps
    else if c == '\'' then scanQuoted s ps
    else if c == '?' then ps.head?.bind fun p => (scan s ps.tail).map (bound p :: ·)
    else if s.head?.any (joins c) then (scan s ps).map (extend c)
    else (scan s ps).map (ofChar c :: ·)

/-- Takes the rest of a text apart behind an opening quote. -/
def scanQuoted : Text → List Parameter → Option (List Token)
  | [], _ => none
  | c :: s, ps =>
    if c == '\'' then (scan s ps).map (quoted [] :: ·) else (scanQuoted s ps).map (extend c)

end

theorem scanQuoted_ne_nil {s : Text} {ps : List Parameter} {ts : List Token}
    (h : scanQuoted s ps = some ts) : ts ≠ [] := by
  induction s generalizing ts with
  | nil => simp [scanQuoted] at h
  | cons c s ih =>
    rw [scanQuoted] at h
    split at h
    · obtain ⟨us, -, rfl⟩ := Option.map_eq_some_iff.1 h
      simp
    · obtain ⟨us, hus, rfl⟩ := Option.map_eq_some_iff.1 h
      exact extend_ne_nil c (ih hus)

/-- There is a token where a word or a sign goes on. -/
theorem scan_ne_nil {c : Char} {s : Text} (hc : s.head?.any (joins c) = true)
    {ps : List Parameter} {ts : List Token} (h : scan s ps = some ts) : ts ≠ [] := by
  induction s generalizing c ps ts with
  | nil => simp at hc
  | cons d s ih =>
    have hseparator : ¬isSeparator d = true := fun hd => by
      rw [List.head?_cons, Option.any_some,
        joins_eq_false_right c (isFree_of_isSeparator hd)] at hc
      cases hc
    rw [scan, if_neg hseparator] at h
    by_cases hquote : (d == '\'') = true
    · rw [if_pos hquote] at h
      exact scanQuoted_ne_nil h
    rw [if_neg hquote] at h
    by_cases hplace : (d == '?') = true
    · rw [if_pos hplace] at h
      obtain ⟨p, -, hp⟩ := Option.bind_eq_some_iff.1 h
      obtain ⟨us, -, rfl⟩ := Option.map_eq_some_iff.1 hp
      exact List.cons_ne_nil _ _
    rw [if_neg hplace] at h
    by_cases hd : s.head?.any (joins d) = true
    · rw [if_pos hd] at h
      obtain ⟨us, hus, rfl⟩ := Option.map_eq_some_iff.1 h
      exact extend_ne_nil d (ih hd hus)
    · rw [if_neg hd] at h
      obtain ⟨us, -, rfl⟩ := Option.map_eq_some_iff.1 h
      exact List.cons_ne_nil _ _

theorem any_joins_append {c : Char} {s t : Text} (h : Apart (c :: s) t) :
    (s ++ t).head?.any (joins c) = s.head?.any (joins c) := by
  cases s with
  | nil =>
    cases t with
    | nil => rfl
    | cons b t => exact h c rfl b rfl
  | cons d s => rfl

mutual

/-- What stands behind a text does not change its tokens. -/
theorem scan_append {s t : Text} {ps qs : List Parameter} {ts : List Token} (h : Apart s t)
    (hs : scan s ps = some ts) : scan (s ++ t) (ps ++ qs) = (scan t qs).map (ts ++ ·) := by
  cases s with
  | nil =>
    rw [scan] at hs
    cases ps with
    | nil =>
      cases hs
      simp
    | cons p ps => cases hs
  | cons c s =>
    have hrest {ps : List Parameter} {us : List Token} (hus : scan s ps = some us) :
        scan (s ++ t) (ps ++ qs) = (scan t qs).map (us ++ ·) := scan_append h.of_cons hus
    rw [scan] at hs
    rw [List.cons_append, scan, any_joins_append h]
    -- the first character decides alike in both texts, as the next one joins it in both or neither
    by_cases hseparator : isSeparator c = true
    · rw [if_pos hseparator] at hs ⊢
      exact hrest hs
    rw [if_neg hseparator] at hs ⊢
    by_cases hquote : (c == '\'') = true
    · rw [if_pos hquote] at hs ⊢
      exact scanQuoted_append h.of_cons hs
    rw [if_neg hquote] at hs ⊢
    by_cases hplace : (c == '?') = true
    · rw [if_pos hplace] at hs ⊢
      cases ps with
      | nil => cases hs
      | cons p ps =>
        obtain ⟨us, hus, rfl⟩ := Option.map_eq_some_iff.1 hs
        rw [List.tail_cons] at hus
        rw [List.cons_append, List.head?_cons, Option.bind_some, List.tail_cons, hrest hus,
          Option.map_map]
        rfl
    rw [if_neg hplace] at hs ⊢
    by_cases hc : s.head?.any (joins c) = true
    · rw [if_pos hc] at hs ⊢
      obtain ⟨us, hus, rfl⟩ := Option.map_eq_some_iff.1 hs
      rw [hrest hus, Option.map_map]
      congr 1
      funext vs
      exact extend_append c (scan_ne_nil hc hus) vs
    · rw [if_neg hc] at hs ⊢
      obtain ⟨us, hus, rfl⟩ := Option.map_eq_some_iff.1 hs
      rw [hrest hus, Option.map_map]
      rfl

theorem scanQuoted_append {s t : Text} {ps qs : List Parameter} {ts : List Token} (h : Apart s t)
    (hs : scanQuoted s ps = some ts) :
    scanQuoted (s ++ t) (ps ++ qs) = (scan t qs).map (ts ++ ·) := by
  cases s with
  | nil => cases hs
  | cons c s =>
    rw [scanQuoted] at hs
    rw [List.cons_append, scanQuoted]
    by_cases hquote : (c == '\'') = true
    · rw [if_pos hquote] at hs ⊢
      obtain ⟨us, hus, rfl⟩ := Option.map_eq_some_iff.1 hs
      rw [scan_append h.of_cons hus, Option.map_map]
      rfl
    · rw [if_neg hquote] at hs ⊢
      obtain ⟨us, hus, rfl⟩ := Option.map_eq_some_iff.1 hs
      rw [scanQuoted_append h.of_cons hus, Option.map_map]
      congr 1
      funext vs
      exact extend_append c (scanQuoted_ne_nil hus) vs

end

end Token

end SampleSearch.Sql

namespace SampleSearch

open Sql Sql.Token

namespace Fragment

def tokens? (f : Fragment) : Option (List Token) := scan f.text f.parameters

section Append

variable {f g : Fragment} {t : Text} {ts us : List Token}

theorem tokens?_append (h : Apart f.text g.text) (hf : f.tokens? = some ts)
    (hg : g.tokens? = some us) : (f ++ g).tokens? = some (ts ++ us) := by
  have hright : scan g.text g.parameters = some us := hg
  change scan (f.text ++ g.text) (f.parameters ++ g.parameters) = _
  rw [scan_append h hf, hright, Option.map_some]

theorem tokens?_append_of_first (hfirst : g.text.head?.all isFree = true)
    (hf : f.tokens? = some ts) (hg : g.tokens? = some us) :
    (f ++ g).tokens? = some (ts ++ us) := tokens?_append (apart_of_first _ hfirst) hf hg

theorem tokens?_append_of_last (hlast : f.text.getLast?.all isFree = true)
    (hf : f.tokens? = some ts) (hg : g.tokens? = some us) :
    (f ++ g).tokens? = some (ts ++ us) := tokens?_append (apart_of_last hlast _) hf hg

/-- The characters of a literal are taken as they are listed: unfolding its text is slow. -/
theorem tokens?_literal (h : scan t [] = some ts) :
    (plain (String.ofList t).toList).tokens? = some ts := by
  rw [String.toList_ofList]
  exact h

theorem tokens?_literal_append (ht : scan t [] = some ts) (hlast : t.getLast?.all isFree = true)
    (hg : g.tokens? = some us) :
    (plain (String.ofList t).toList ++ g).tokens? = some (ts ++ us) := by
  rw [String.toList_ofList]
  exact tokens?_append_of_last hlast ht hg

theorem tokens?_placeholder_append (p : Parameter) (hg : g.tokens? = some us) :
    (placeholder p ++ g).tokens? = some ([.bound p] ++ us) := tokens?_append_of_last rfl rfl hg

end Append

def columnTokens (c : Column) : List Token := [.word c.source.alias, .mark '.', .word c.name]

theorem tokens?_columnText (c : Column) : (columnText c).tokens? = some (columnTokens c) := by
  cases c <;> rfl

/-- Everything behind the column and the path of a document, up to the column that is repeated. -/
def branchTokens : List Token :=
  [.mark ')', keyword "WHEN", .quoted "true".toList, keyword "THEN", .quoted "true".toList,
    keyword "WHEN", .quoted "false".toList, keyword "THEN", .quoted "false".toList, keyword "ELSE",
    keyword "CAST", .mark '(', keyword "json_extract", .mark '(']

def operandTokens : Operand → List Token
  | .column c => columnTokens c
  | .document c path =>
    [keyword "CASE", keyword "json_type", .mark '('] ++ (columnTokens c ++
      ([.mark ','] ++ ([.bound (.text path)] ++ (branchTokens ++ (columnTokens c ++
        ([.mark ','] ++ ([.bound (.text path)] ++
          [.mark ')', keyword "AS", keyword "TEXT", .mark ')', keyword "END"])))))))

theorem tokens?_operand (o : Operand) : (operand o).tokens? = some (operandTokens o) := by
  cases o with
  | column c => exact tokens?_columnText c
  | document c path =>
    simp only [operand, append_assoc]
    apply tokens?_literal_append rfl rfl
    apply tokens?_append_of_first rfl (tokens?_columnText c)
    apply tokens?_literal_append rfl rfl
    apply tokens?_placeholder_append
    apply tokens?_literal_append rfl rfl
    apply tokens?_append_of_first rfl (tokens?_columnText c)
    apply tokens?_literal_append rfl rfl
    apply tokens?_placeholder_append
    exact tokens?_literal rfl

def relationTokens : Relation → List Token
  | .tags =>
    [keyword "object_tag", keyword "ot", keyword "JOIN", keyword "tag", keyword "t", keyword "ON",
      keyword "t", .mark '.', keyword "id", .sign ['='], keyword "ot", .mark '.',
      keyword "tag_id"]
  | .comments => [keyword "comment", keyword "cm"]
  | .altNames => [keyword "file_alt_name", keyword "fa"]
  | .attributes => [keyword "attribute", keyword "a"]
  | .permissions => [keyword "permission", keyword "p"]

end Fragment

namespace Check

open Fragment

def furtherTokens : List Parameter → List Token
  | [] => [.mark ')']
  | p :: ps => [.mark ','] ++ ([.bound p] ++ furtherTokens ps)

def tokens : Check → List Token
  | compare comparison p => [.sign comparison.sign, .bound p]
  | like pattern =>
    [keyword "LIKE", .bound (.text pattern), keyword "ESCAPE", .quoted "\\".toList]
  | among p ps => [keyword "IN"] ++ ([.mark '('] ++ ([.bound p] ++ furtherTokens ps))

theorem tokens?_furtherValues (ps : List Parameter) :
    (furtherValues ps).tokens? = some (furtherTokens ps) := by
  induction ps with
  | nil => rfl
  | cons p ps ih =>
    rw [furtherValues, append_assoc]
    exact tokens?_append_of_last rfl rfl (tokens?_placeholder_append p ih)

theorem tokens?_fragment (k : Check) : k.fragment.tokens? = some k.tokens := by
  simp only [fragment, append_assoc]
  cases k with
  | compare comparison p => cases comparison <;> rfl
  | like pattern => rfl
  | among p ps =>
    have hword : (plain " IN ".toList).tokens? = some [keyword "IN"] := rfl
    simp only [word, values, append_assoc, plain_spaced]
    apply tokens?_append_of_last rfl hword
    apply tokens?_append_of_last rfl rfl
    exact tokens?_placeholder_append p (tokens?_furtherValues ps)

end Check

namespace Clause

open Fragment

mutual

def tokens : Clause → List Token
  | fixed b => [keyword "1", .sign ['='], .word [digit b]]
  | check o k => operandTokens o ++ k.tokens
  | chain first rest => [.mark '('] ++ (tokens first ++ linksTokens rest)
  | negation c => [keyword "NOT", .mark '('] ++ (tokens c ++ [.mark ')'])
  | existence r outer c =>
    [keyword "EXISTS", .mark '(', keyword "SELECT", keyword "1", keyword "FROM"] ++
      ((relationTokens r ++ keyword "WHERE" :: columnTokens r.link ++ [.sign ['=']]) ++
        (columnTokens outer ++ ([keyword "AND"] ++ (tokens c ++ [.mark ')']))))

def linksTokens : Links → List Token
  | .close => [.mark ')']
  | .link j c rest => [.word j.word] ++ (tokens c ++ linksTokens rest)

end

theorem first_linksFragment (rest : Links) :
    (linksFragment rest).text.head?.all isFree = true := by
  cases rest <;> rfl

mutual

theorem tokens?_fragment (c : Clause) : c.fragment.tokens? = some c.tokens := by
  cases c with
  | fixed b => cases b <;> rfl
  | check o k => exact tokens?_append_of_first rfl (tokens?_operand o) k.tokens?_fragment
  | chain first rest =>
    rw [fragment, append_assoc]
    apply tokens?_append_of_last rfl rfl
    exact tokens?_append_of_first (first_linksFragment rest) (tokens?_fragment first)
      (tokens?_linksFragment rest)
  | negation c =>
    rw [fragment, append_assoc]
    apply tokens?_append_of_last rfl rfl
    exact tokens?_append_of_first rfl (tokens?_fragment c) rfl
  | existence r outer c =>
    have hwords : (plain (relationWords r)).tokens? =
        some (relationTokens r ++ keyword "WHERE" :: columnTokens r.link ++ [.sign ['=']]) := by
      cases r <;> decide +kernel
    have hlast : (relationWords r).getLast?.all isFree = true := by cases r <;> rfl
    simp only [fragment, append_assoc]
    apply tokens?_literal_append rfl rfl
    apply tokens?_append_of_last hlast hwords
    apply tokens?_append_of_first rfl (tokens?_columnText outer)
    apply tokens?_literal_append rfl rfl
    exact tokens?_append_of_first rfl (tokens?_fragment c) rfl

theorem tokens?_linksFragment (rest : Links) :
    (linksFragment rest).tokens? = some (linksTokens rest) := by
  cases rest with
  | close => rfl
  | link j c rest =>
    have hword : (plain (' ' :: j.word ++ [' '])).tokens? = some [.word j.word] := by
      cases j <;> rfl
    have hlast : (' ' :: j.word ++ [' ']).getLast?.all isFree = true := by cases j <;> rfl
    simp only [linksFragment, append_assoc, plain_spaced]
    apply tokens?_append_of_last hlast hword
    exact tokens?_append_of_first (first_linksFragment rest) (tokens?_fragment c)
      (tokens?_linksFragment rest)

end

end Clause

/-- The tokens of a condition are those of its clause. -/
theorem Condition.tokens?_ofCondition (c : Condition) :
    (Fragment.ofCondition c).tokens? = some c.clause.tokens := by
  rw [← c.fragment_clause]
  exact c.clause.tokens?_fragment

end SampleSearch
