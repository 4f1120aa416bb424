import SampleSearch.Proofs.StatementTokens
import SampleSearch.Store.Table

/-!
# The grammar of statements

Statements are read from their tokens as the database reads them: `OR` binds loosest, then `AND`,
then `NOT`, and what stands in parentheses is an expression again. Columns keep the names that they
are written with, behind the alias of a row; only tables have to exist. The expression that is read
from a rendered condition has the parts of the condition, joined as they are in it.
-/

namespace SampleSearch.Sql

open Token

structure ColumnName where
  row : Text
  name : Text
  deriving DecidableEq, Repr

inductive Scalar
  | column (c : ColumnName)
  | number (n : Nat)
  | text (t : Text)
  | bound (p : Parameter)
  /-- A text by the type of a value in a document, and the text of such a value for other types. -/
  | byType (document : ColumnName) (path : Parameter) (branches : List (Text × Text))
      (other : ColumnName) (otherPath : Parameter)
  deriving DecidableEq, Repr

/-- A table whose rows are joined to those in front of it where two columns are equal. -/
structure JoinPart where
  /-- Whether a row that nothing is joined to stays, with empty columns. -/
  keepsAll : Bool
  table : Table
  row : Text
  left : ColumnName
  right : ColumnName
  deriving DecidableEq, Repr

structure RowSource where
  table : Table
  row : Text
  joins : List JoinPart
  deriving DecidableEq, Repr

inductive Expression
  | compared (left : Scalar) (comparison : Comparison) (right : Scalar)
  | like (value pattern : Scalar)
  | among (value : Scalar) (ps : List Parameter)
  | both (e f : Expression)
  | either (e f : Expression)
  | negation (e : Expression)
  | existence (rows : RowSource) (e : Expression)
  deriving DecidableEq, Repr

/-- Takes tokens off the front. -/
abbrev Reader (α : Type) := List Token → Option (α × List Token)

def expect : List Token → List Token → Option (List Token)
  | [], ts => some ts
  | _ :: _, [] => none
  | u :: us, t :: ts => if t = u then expect us ts else none

def columnName? : Reader ColumnName
  | .word r :: .mark '.' :: .word n :: ts => some (⟨r, n⟩, ts)
  | _ => none

def value? : Reader Parameter
  | .bound p :: ts => some (p, ts)
  | _ => none

/-- The branches of a case, each with a text to compare with and a text to take. -/
def branches : List Token → List (Text × Text) × List Token
  | .word w :: .quoted a :: .word v :: .quoted b :: ts =>
    if w = "WHEN".toList ∧ v = "THEN".toList then ((a, b) :: (branches ts).1, (branches ts).2)
    else ([], .word w :: .quoted a :: .word v :: .quoted b :: ts)
  | ts => ([], ts)

def byType? : Reader Scalar := fun ts => do
  let ts ← expect [keyword "json_type", .mark '('] ts
  let (document, ts) ← columnName? ts
  let ts ← expect [.mark ','] ts
  let (path, ts) ← value? ts
  let ts ← expect [.mark ')'] ts
  let (bs, ts) := branches ts
  let ts ← expect [keyword "ELSE", keyword "CAST", .mark '(', keyword "json_extract", .mark '('] ts
  let (other, ts) ← columnName? ts
  let ts ← expect [.mark ','] ts
  let (otherPath, ts) ← value? ts
  let ts ← expect [.mark ')', keyword "AS", keyword "TEXT", .mark ')', keyword "END"] ts
  some (.byType document path bs other otherPath, ts)

def scalar? : Reader Scalar
  | .bound p :: ts => some (.bound p, ts)
  | .quoted t :: ts => some (.text t, ts)
  | .word w :: ts =>
    if w = "CASE".toList then byType? ts
    else
      match Text.nat? w with
      | some n => some (.number n, ts)
      | none => (columnName? (.word w :: ts)).map fun r => (.column r.1, r.2)
  | _ => none

def comparison? (sign : Text) : Option Comparison :=
  if sign = "=".toList then some .eq
  else if sign = "<".toList then some .lt
  else if sign = "<=".toList then some .le
  else if sign = ">".toList then some .gt
  else if sign = ">=".toList then some .ge
  else none

def values? : Reader (List Parameter)
  | .bound p :: .mark ')' :: ts => some ([p], ts)
  | .bound p :: .mark ',' :: ts => (values? ts).map fun r => (p :: r.1, r.2)
  | _ => none

/-- Reads what is said of a value. -/
def test? (value : Scalar) : Reader Expression
  | .sign s :: ts => do
    let comparison ← comparison? s
    let (right, ts) ← scalar? ts
    some (.compared value comparison right, ts)
  | .word w :: ts =>
    if w = "LIKE".toList then do
      let (pattern, ts) ← scalar? ts
      let ts ← expect [keyword "ESCAPE", .quoted "\\".toList] ts
      some (.like value pattern, ts)
    else if w = "IN".toList then do
      let ts ← expect [.mark '('] ts
      let (ps, ts) ← values? ts
      some (.among value ps, ts)
    else none
  | _ => none

def table? : Reader (Table × Text)
  | .word t :: .word r :: ts => (Table.ofName? t).map fun t => ((t, r), ts)
  | _ => none

def joinPart? (keepsAll : Bool) : Reader JoinPart := fun ts => do
  let ((t, r), ts) ← table? ts
  let ts ← expect [keyword "ON"] ts
  let (left, ts) ← columnName? ts
  let ts ← expect [.sign "=".toList] ts
  let (right, ts) ← columnName? ts
  some (⟨keepsAll, t, r, left, right⟩, ts)

/-- Reads joined tables; of `n` tokens there are no more than `n` tables. -/
def joins? : Nat → Reader (List JoinPart)
  | n + 1, .word w :: ts =>
    if w = "JOIN".toList then do
      let (j, ts) ← joinPart? false ts
      (joins? n ts).map fun r => (j :: r.1, r.2)
    else if w = "LEFT".toList then do
      let ts ← expect [keyword "JOIN"] ts
      let (j, ts) ← joinPart? true ts
      (joins? n ts).map fun r => (j :: r.1, r.2)
    else some ([], .word w :: ts)
  | _, ts => some ([], ts)

def rowSource? : Reader RowSource := fun ts => do
  let ((t, r), ts) ← table? ts
  let (joins, ts) ← joins? ts.length ts
  some (⟨t, r, joins⟩, ts)

section Levels

variable (inner : Reader Expression)

def existence? : Reader Expression := fun ts => do
  let ts ← expect [.mark '(', keyword "SELECT", keyword "1", keyword "FROM"] ts
  let (rows, ts) ← rowSource? ts
  let ts ← expect [keyword "WHERE"] ts
  let (e, ts) ← inner ts
  let ts ← expect [.mark ')'] ts
  some (.existence rows e, ts)

def predicate? : Reader Expression
  | .mark '(' :: ts => do
    let (e, ts) ← inner ts
    let ts ← expect [.mark ')'] ts
    some (e, ts)
  | ts =>
    if ts.head? = some (keyword "EXISTS") then existence? inner ts.tail
    else (scalar? ts).bind fun r => test? r.1 r.2

def factor? : Reader Expression := fun ts =>
  if ts.head? = some (keyword "NOT") then
    (predicate? inner ts.tail).map fun r => (.negation r.1, r.2)
  else predicate? inner ts

/-- Reads what is joined to an expression by a word; of `n` tokens there are no more than `n`
parts. -/
def further? (part : Reader Expression) (w : Token) (join : Expression → Expression → Expression) :
    Nat → Expression → Reader Expression
  | 0, e, ts => some (e, ts)
  | n + 1, e, ts =>
    if ts.head? = some w then
      (part ts.tail).bind fun r => further? part w join n (join e r.1) r.2
    else some (e, ts)

def conjunction? : Reader Expression := fun ts =>
  (factor? inner ts).bind fun r =>
    further? (factor? inner) (keyword "AND") .both ts.length r.1 r.2

def disjunction? : Reader Expression := fun ts =>
  (conjunction? inner ts).bind fun r =>
    further? (conjunction? inner) (keyword "OR") .either ts.length r.1 r.2

end Levels

/-- Reads an expression with no more than `n` levels inside each other. -/
def expression? : Nat → Reader Expression
  | 0, _ => none
  | n + 1, ts => disjunction? (expression? n) ts

end SampleSearch.Sql

namespace SampleSearch

open Sql Sql.Token Fragment

def Column.columnName (c : Column) : ColumnName := ⟨c.source.alias, c.name⟩

/-- The names of the two truth values, which the text of a value has to keep. -/
def Document.truthNames : List (Text × Text) :=
  [("true".toList, "true".toList), ("false".toList, "false".toList)]

def Operand.scalar : Operand → Scalar
  | column c => .column c.columnName
  | document c path =>
    .byType c.columnName (.text path) Document.truthNames c.columnName (.text path)

def tagJoin : JoinPart :=
  ⟨false, .tags, "t".toList, ⟨"t".toList, "id".toList⟩, ⟨"ot".toList, "tag_id".toList⟩⟩

def Relation.rowSource : Relation → RowSource
  | tags => ⟨.taggings, "ot".toList, [tagJoin]⟩
  | comments => ⟨.comments, "cm".toList, []⟩
  | altNames => ⟨.altNames, "fa".toList, []⟩
  | attributes => ⟨.attributes, "a".toList, []⟩
  | permissions => ⟨.permissions, "p".toList, []⟩

def Check.expression (value : Scalar) : Check → Expression
  | compare comparison p => .compared value comparison (.bound p)
  | like pattern => .like value (.bound (.text pattern))
  | among p ps => .among value (p :: ps)

def Joint.link : Joint → Expression → Expression → Expression
  | and => .both
  | or => .either

namespace Condition

/-- One is compared with one or with zero. -/
def fixedExpression (b : Bool) : Expression :=
  .compared (.number 1) .eq (.number (if b then 1 else 0))

mutual

def expression : Condition → Expression
  | const b => fixedExpression b
  | compare o comparison l => .compared o.scalar comparison (.bound l.parameter)
  | like o pattern => .like o.scalar (.bound (.text pattern))
  | among _ [] => fixedExpression false
  | among o (l :: ls) => .among o.scalar ((l :: ls).map Literal.parameter)
  | all [] => fixedExpression true
  | all (c :: cs) => chained .and (expression c) cs
  | any [] => fixedExpression false
  | any (c :: cs) => chained .or (expression c) cs
  | negated c => .negation (expression c)
  | related r outer c =>
    .existence r.rowSource
      (.both (.compared (.column r.link.columnName) .eq (.column outer.columnName))
        (expression c))

/-- The operators of a chain lean to the left. -/
def chained (j : Joint) (first : Expression) : List Condition → Expression
  | [] => first
  | c :: cs => chained j (j.link first (expression c)) cs

end

end Condition

theorem scalar?_operandTokens (o : Operand) (rest : List Token) :
    scalar? (operandTokens o ++ rest) = some (o.scalar, rest) := by
  cases o with
  | column c => cases c <;> rfl
  | document c path => rfl

theorem values?_furtherTokens (p : Parameter) (ps : List Parameter) (rest : List Token) :
    values? (.bound p :: (Check.furtherTokens ps ++ rest)) = some (p :: ps, rest) := by
  induction ps generalizing p with
  | nil => rfl
  | cons q ps ih =>
    change (values? (.bound q :: (Check.furtherTokens ps ++ rest))).map _ = _
    rw [ih q]
    rfl

theorem test?_tokens (value : Scalar) (k : Check) (rest : List Token) :
    test? value (k.tokens ++ rest) = some (k.expression value, rest) := by
  cases k with
  | compare comparison p => cases comparison <;> rfl
  | like pattern => rfl
  | among p ps =>
    change (values? (.bound p :: (Check.furtherTokens ps ++ rest))).bind _ = _
    rw [values?_furtherTokens]
    rfl

theorem rowSource?_relationTokens (r : Relation) (rest : List Token) :
    rowSource? (relationTokens r ++ keyword "WHERE" :: rest) =
      some (r.rowSource, keyword "WHERE" :: rest) := by
  cases r <;> rfl

theorem expect_append (us ts : List Token) : expect us (us ++ ts) = some ts := by
  induction us with
  | nil => rfl
  | cons u us ih =>
    rw [List.cons_append, expect, if_pos rfl]
    exact ih

theorem further?_of_ne {part : Reader Expression} {w : Token}
    {join : Expression → Expression → Expression} {ts : List Token} (h : ts.head? ≠ some w)
    (n : Nat) (e : Expression) : further? part w join n e ts = some (e, ts) := by
  cases n with
  | zero => rfl
  | succ n => rw [further?, if_neg h]

def Joint.token : Joint → Token
  | and => keyword "AND"
  | or => keyword "OR"

def Joint.part? (inner : Reader Expression) : Joint → Reader Expression
  | and => factor? inner
  | or => conjunction? inner

/-- Whether no expression goes on in front of some tokens. -/
def Ends (ts : List Token) : Prop := ∀ j : Joint, ts.head? ≠ some j.token

theorem ends_nil : Ends [] := by
  intro j
  simp

theorem ends_cons {t : Token} (h : ∀ j : Joint, t ≠ j.token) (ts : List Token) :
    Ends (t :: ts) := by
  intro j
  rw [List.head?_cons]
  exact fun heq => h j (Option.some.inj heq)

theorem ends_mark (c : Char) (ts : List Token) : Ends (.mark c :: ts) :=
  ends_cons (fun j => by cases j <;> simp [Joint.token, keyword]) ts

section Levels

variable {n : Nat} {ts us rest : List Token} {e f : Expression}

theorem part?_of_factor? (j : Joint) {inner : Reader Expression}
    (hus : us.head? = some j.token ∨ Ends us) (h : factor? inner ts = some (e, us)) :
    j.part? inner ts = some (e, us) := by
  cases j with
  | and => exact h
  | or =>
    -- an operand that no AND follows is a conjunction by itself
    have hstop : us.head? ≠ some (keyword "AND") := by
      rcases hus with hus | hus
      · rw [hus]
        simp [Joint.token, keyword]
      · exact hus .and
    rw [Joint.part?, conjunction?, h, Option.bind_some, further?_of_ne hstop]

/-- What a chain is read to, from its first part and what is joined to that. -/
theorem expression?_of_further? (j : Joint) (hus : us.head? = some j.token ∨ Ends us)
    (hfirst : factor? (expression? n) ts = some (e, us)) (hrest : Ends rest)
    (hfurther : further? (j.part? (expression? n)) j.token j.link ts.length e us =
      some (f, rest)) : expression? (n + 1) ts = some (f, rest) := by
  have hpart := part?_of_factor? j hus hfirst
  rw [expression?, disjunction?]
  cases j with
  | and =>
    have hconjunction : conjunction? (expression? n) ts = some (f, rest) := by
      rw [conjunction?, hfirst, Option.bind_some]
      exact hfurther
    rw [hconjunction, Option.bind_some]
    exact further?_of_ne (hrest .or) _ _
  | or =>
    rw [show conjunction? (expression? n) ts = some (e, us) from hpart, Option.bind_some]
    exact hfurther

theorem expression?_of_factor? (h : factor? (expression? n) ts = some (e, rest))
    (hrest : Ends rest) : expression? (n + 1) ts = some (e, rest) := by
  apply expression?_of_further? .and (.inr hrest) h hrest
  exact further?_of_ne (hrest .and) _ _

theorem expression?_of_pair (hts : ts ≠ [])
    (h : factor? (expression? n) ts = some (e, keyword "AND" :: us))
    (hus : factor? (expression? n) us = some (f, rest)) (hrest : Ends rest) :
    expression? (n + 1) ts = some (.both e f, rest) := by
  apply expression?_of_further? .and (.inl rfl) h hrest
  have hword : (keyword "AND" :: us).head? = some Joint.and.token := rfl
  obtain ⟨k, hk⟩ := Nat.exists_eq_add_one.2 (List.length_pos_iff.2 hts)
  rw [hk, further?, if_pos hword]
  change (factor? (expression? n) us).bind _ = _
  rw [hus, Option.bind_some]
  exact further?_of_ne (hrest .and) _ _

end Levels

theorem head?_linksTokens (j : Joint) (cs : List Condition) (rest : List Token) :
    (Clause.linksTokens (Condition.links j cs) ++ rest).head? = some j.token ∨
      Ends (Clause.linksTokens (Condition.links j cs) ++ rest) := by
  cases cs with
  | nil => exact .inr (ends_mark ')' rest)
  | cons c cs => cases j <;> exact .inl rfl

theorem factor?_operandTokens (inner : Reader Expression) (o : Operand) (rest : List Token) :
    factor? inner (operandTokens o ++ rest) = test? o.scalar rest := by
  have hhead (w : String) (hw : w = "NOT" ∨ w = "EXISTS") :
      (operandTokens o ++ rest).head? ≠ some (keyword w) := by
    rcases hw with rfl | rfl <;> cases o with
    | column c =>
      cases c <;> simp [operandTokens, columnTokens, keyword, Column.source, Source.alias]
    | document c path => simp [operandTokens, keyword]
  have hpredicate : predicate? inner (operandTokens o ++ rest) =
      if (operandTokens o ++ rest).head? = some (keyword "EXISTS") then
        existence? inner (operandTokens o ++ rest).tail
      else (scalar? (operandTokens o ++ rest)).bind fun r => test? r.1 r.2 := by
    cases o <;> rfl
  rw [factor?, if_neg (hhead "NOT" (.inl rfl)), hpredicate, if_neg (hhead "EXISTS" (.inr rfl)),
    scalar?_operandTokens, Option.bind_some]

section Openings

variable {inner : Reader Expression} {ts rest : List Token} {e : Expression}
  (h : inner ts = some (e, .mark ')' :: rest))

include h

theorem factor?_parentheses : factor? inner (.mark '(' :: ts) = some (e, rest) := by
  change (inner ts).bind _ = _
  rw [h]
  rfl

theorem factor?_negation :
    factor? inner (keyword "NOT" :: .mark '(' :: ts) = some (.negation e, rest) := by
  change ((inner ts).bind _).map _ = _
  rw [h]
  rfl

theorem factor?_existence (r : Relation) :
    factor? inner ([keyword "EXISTS", .mark '(', keyword "SELECT", keyword "1", keyword "FROM"] ++
      (relationTokens r ++ keyword "WHERE" :: ts)) = some (.existence r.rowSource e, rest) := by
  change (rowSource? (relationTokens r ++ keyword "WHERE" :: ts)).bind _ = _
  rw [rowSource?_relationTokens]
  change (inner ts).bind _ = _
  rw [h]
  rfl

end Openings

theorem factor?_chain (j : Joint) {c : Condition} {cs : List Condition}
    (hfirst : ∀ {n}, c.clause.tokens.length ≤ n → ∀ rest,
      factor? (expression? n) (c.clause.tokens ++ rest) = some (c.expression, rest))
    (hfurther : ∀ {n}, (Clause.linksTokens (Condition.links j cs)).length ≤ n → ∀ e rest {k},
      (Clause.linksTokens (Condition.links j cs)).length ≤ k →
        further? (j.part? (expression? n)) j.token j.link k e
          (Clause.linksTokens (Condition.links j cs) ++ rest) =
          some (Condition.chained j e cs, .mark ')' :: rest))
    {n : Nat} (h : (Clause.chain c.clause (Condition.links j cs)).tokens.length ≤ n)
    (rest : List Token) :
    factor? (expression? n) ((Clause.chain c.clause (Condition.links j cs)).tokens ++ rest) =
      some (Condition.chained j c.expression cs, rest) := by
  simp only [Clause.tokens, List.length_append, List.length_singleton, List.append_assoc] at h ⊢
  obtain ⟨m, rfl⟩ : ∃ m, n = m + 1 := ⟨n - 1, by omega⟩
  apply factor?_parentheses
  apply expression?_of_further? j (head?_linksTokens j cs rest) (hfirst (by omega) _)
    (ends_mark ')' rest)
  apply hfurther (by omega)
  simp only [List.length_append]
  omega

theorem factor?_link (inner : Reader Expression) (a b : Column) (rest : List Token) :
    factor? inner (columnTokens a ++ (.sign ['='] :: (columnTokens b ++ rest))) =
      some (.compared (.column a.columnName) .eq (.column b.columnName), rest) := by
  have hright := scalar?_operandTokens (.column b) rest
  have htest : test? (.column a.columnName) (.sign ['='] :: (columnTokens b ++ rest)) =
      (scalar? (columnTokens b ++ rest)).bind fun r =>
        some (.compared (.column a.columnName) .eq r.1, r.2) := rfl
  rw [show columnTokens a = operandTokens (.column a) from rfl, factor?_operandTokens]
  change test? (.column a.columnName) _ = _
  rw [htest, show columnTokens b = operandTokens (.column b) from rfl, hright]
  rfl

namespace Condition

mutual

/-- A condition is read from its tokens wherever an operand of `AND` is read. -/
theorem factor?_tokens {c : Condition} {n : Nat} (h : c.clause.tokens.length ≤ n)
    (rest : List Token) :
    factor? (expression? n) (c.clause.tokens ++ rest) = some (c.expression, rest) := by
  cases c with
  | const b => cases b <;> rfl
  | compare o comparison l =>
    rw [clause, Clause.tokens, List.append_assoc, factor?_operandTokens, test?_tokens]
    rfl
  | like o pattern =>
    rw [clause, Clause.tokens, List.append_assoc, factor?_operandTokens, test?_tokens]
    rfl
  | among o ls =>
    cases ls with
    | nil => rfl
    | cons l ls =>
      rw [clause, Clause.tokens, List.append_assoc, factor?_operandTokens, test?_tokens]
      rfl
  | all cs =>
    cases cs with
    | nil => rfl
    | cons c cs => exact factor?_chain .and factor?_tokens (further?_links .and) h rest
  | any cs =>
    cases cs with
    | nil => rfl
    | cons c cs => exact factor?_chain .or factor?_tokens (further?_links .or) h rest
  | negated c =>
    simp only [clause, Clause.tokens, List.length_append, List.length_cons, List.length_nil,
      List.append_assoc] at h ⊢
    -- the parentheses take a level, for which they have tokens of their own
    obtain ⟨m, rfl⟩ : ∃ m, n = m + 1 := ⟨n - 1, by omega⟩
    have hinner := factor?_tokens (c := c) (n := m) (by omega) (.mark ')' :: rest)
    exact factor?_negation (expression?_of_factor? hinner (ends_mark ')' rest))
  | related r outer c =>
    simp only [clause, Clause.tokens, List.length_append, List.length_cons, List.length_nil,
      List.append_assoc, List.cons_append, List.nil_append] at h ⊢
    obtain ⟨m, rfl⟩ : ∃ m, n = m + 1 := ⟨n - 1, by omega⟩
    have hlink := factor?_link (expression? m) r.link outer
      (keyword "AND" :: (c.clause.tokens ++ .mark ')' :: rest))
    have hinner := factor?_tokens (c := c) (n := m) (by omega) (.mark ')' :: rest)
    have hpair := expression?_of_pair (List.cons_ne_nil _ _) hlink hinner (ends_mark ')' rest)
    exact factor?_existence hpair r

theorem further?_links (j : Joint) {cs : List Condition} {n : Nat}
    (hn : (Clause.linksTokens (links j cs)).length ≤ n) (e : Expression) (rest : List Token)
    {k : Nat} (hk : (Clause.linksTokens (links j cs)).length ≤ k) :
    further? (j.part? (expression? n)) j.token j.link k e
      (Clause.linksTokens (links j cs) ++ rest) = some (chained j e cs, .mark ')' :: rest) := by
  cases cs with
  | nil => exact further?_of_ne (ends_mark ')' rest j) k e
  | cons c cs =>
    simp only [links, Clause.linksTokens, List.length_append, List.length_singleton] at hn hk
    obtain ⟨m, rfl⟩ : ∃ m, k = m + 1 := ⟨k - 1, by omega⟩
    have hword : Token.word j.word = j.token := by cases j <;> rfl
    have hpart := part?_of_factor? j (head?_linksTokens j cs rest)
      (factor?_tokens (c := c) (n := n) (by omega) (Clause.linksTokens (links j cs) ++ rest))
    have hmore : further? (j.part? (expression? n)) j.token j.link m (j.link e c.expression)
        (Clause.linksTokens (links j cs) ++ rest) =
          some (chained j e (c :: cs), .mark ')' :: rest) :=
      further?_links j (by omega) _ rest (by omega)
    simp only [links, Clause.linksTokens, List.append_assoc]
    rw [List.singleton_append, further?, if_pos (by rw [List.head?_cons, hword]), List.tail_cons,
      hpart, Option.bind_some]
    exact hmore

end

end Condition

end SampleSearch
