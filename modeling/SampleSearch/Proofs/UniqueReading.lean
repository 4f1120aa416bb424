import SampleSearch.Condition.Truth
import SampleSearch.Sql.Fragment

/-!
# Unique reading of rendered conditions

What conditions are rendered as has a grammar of its own, in which a constant and an empty chain
are the same clause, and so are a conjunction and a disjunction of a single part. A clause can be
read off its text and its values, also where more text follows. So two conditions that are
rendered alike stand for one clause, and they have one truth value on every object.
-/

namespace SampleSearch

namespace Fragment

theorem append_assoc (f g h : Fragment) : f ++ g ++ h = f ++ (g ++ h) := by
  change Fragment.mk _ _ = Fragment.mk _ _
  simp

theorem plain_append_plain (s t : Text) : plain s ++ plain t = plain (s ++ t) := rfl

/-- A word between two spaces. -/
theorem plain_spaced (w : Text) (f : Fragment) :
    plain [' '] ++ (plain w ++ (plain [' '] ++ f)) = plain (' ' :: w ++ [' ']) ++ f := by
  rw [← append_assoc, ← append_assoc, plain_append_plain, plain_append_plain]
  rfl

theorem append_cancel {f g h : Fragment} (heq : f ++ g = f ++ h) : g = h := by
  have htext : g.text = h.text := List.append_cancel_left (congrArg Fragment.text heq)
  have hparameters : g.parameters = h.parameters :=
    List.append_cancel_left (congrArg Fragment.parameters heq)
  cases g
  cases h
  cases htext
  cases hparameters
  rfl

theorem placeholder_append_inj {p q : Parameter} {f g : Fragment}
    (h : placeholder p ++ f = placeholder q ++ g) : p = q ∧ f = g := by
  have hparameters : p :: f.parameters = q :: g.parameters := congrArg Fragment.parameters h
  obtain ⟨rfl, _⟩ := List.cons.inj hparameters
  exact ⟨rfl, append_cancel h⟩

/-- The first character of the text. -/
def lead? (f : Fragment) : Option Char := f.text.head?

/-- What ends the name of a column, a sign or a word. -/
def isBreak (x : Char) : Bool := x == ' ' || x == ','

theorem word_append_inj {s t : Text} {f g : Fragment} (hs : s.all fun x => !isBreak x)
    (ht : t.all fun x => !isBreak x) (hf : f.lead?.any isBreak) (hg : g.lead?.any isBreak)
    (h : plain s ++ f = plain t ++ g) : s = t ∧ f = g := by
  have hcut {s : Text} {f : Fragment} (hs : s.all fun x => !isBreak x)
      (hf : f.lead?.any isBreak) : (s ++ f.text).takeWhile (fun x => !isBreak x) = s := by
    rw [List.takeWhile_append_of_pos (by simpa using hs)]
    unfold lead? at hf
    cases hx : f.text with
    | nil => simp [hx] at hf
    | cons x u =>
      have hbreak : isBreak x = true := by simpa [hx] using hf
      simp [hbreak]
  have htext : s ++ f.text = t ++ g.text := congrArg Fragment.text h
  have hst : s = t := by rw [← hcut hs hf, htext, hcut ht hg]
  subst hst
  exact ⟨rfl, append_cancel h⟩

theorem columnText_append_inj {c d : Column} {f g : Fragment} (hf : f.lead?.any isBreak)
    (hg : g.lead?.any isBreak) (h : columnText c ++ f = columnText d ++ g) : c = d ∧ f = g := by
  have hfree (c : Column) : c.text.all fun x => !isBreak x := by cases c <;> decide
  obtain ⟨htext, heq⟩ := word_append_inj (hfree c) (hfree d) hf hg h
  exact ⟨Column.text_injective htext, heq⟩

theorem lead?_columnText (c : Column) (f : Fragment) :
    ∃ x, (columnText c ++ f).lead? = some x ∧ x.isLower = true := by
  cases c <;> exact ⟨_, rfl, rfl⟩

theorem columnText_append_ne_document {c d : Column} {path : Text} {f g : Fragment} :
    operand (.column c) ++ f ≠ operand (.document d path) ++ g := by
  intro h
  obtain ⟨x, hx, hlower⟩ := lead?_columnText c f
  have hlead : (columnText c ++ f).lead? = some 'C' := congrArg lead? h
  rw [hx, Option.some.injEq] at hlead
  subst hlead
  cases hlower

/-- An operand can be read where a space follows. -/
theorem operand_append_inj {o p : Operand} {f g : Fragment} (hf : f.lead? = some ' ')
    (hg : g.lead? = some ' ') (h : operand o ++ f = operand p ++ g) : o = p ∧ f = g := by
  cases o with
  | column c =>
    cases p with
    | column d =>
      obtain ⟨rfl, rfl⟩ := columnText_append_inj (by simp [hf, isBreak]) (by simp [hg, isBreak]) h
      exact ⟨rfl, rfl⟩
    | document d path => exact absurd h columnText_append_ne_document
  | document c path =>
    cases p with
    | column d => exact absurd h.symm columnText_append_ne_document
    | document d other =>
      simp only [operand, append_assoc] at h
      obtain ⟨rfl, hrest⟩ := columnText_append_inj rfl rfl (append_cancel h)
      obtain ⟨hpath, hrest⟩ := placeholder_append_inj (append_cancel hrest)
      cases hpath
      refine ⟨rfl, ?_⟩
      -- what is left of the operand repeats its column and its path
      exact append_cancel (append_cancel (append_cancel (append_cancel (append_cancel hrest))))

end Fragment

/-- What is checked of an operand. -/
inductive Check
  | compare (comparison : Comparison) (p : Parameter)
  | like (pattern : Text)
  | among (p : Parameter) (ps : List Parameter)
  deriving DecidableEq, Repr

inductive Joint
  | and
  | or
  deriving DecidableEq, Repr

mutual

/-- A condition as it is written. -/
inductive Clause
  | fixed (b : Bool)
  | check (o : Operand) (k : Check)
  | chain (first : Clause) (rest : Links)
  | negation (inner : Clause)
  | existence (r : Relation) (outer : Column) (inner : Clause)

/-- What follows the first part of a chain. -/
inductive Links
  | close
  | link (j : Joint) (next : Clause) (rest : Links)

end

namespace Check

open Fragment

def word : Check → Text
  | compare comparison _ => comparison.sign
  | like _ => "LIKE".toList
  | among _ _ => "IN".toList

/-- The values after the first one of a list, and its end. -/
def furtherValues : List Parameter → Fragment
  | [] => plain [')']
  | p :: ps => plain ", ".toList ++ placeholder p ++ furtherValues ps

def values : Check → Fragment
  | compare _ p => placeholder p
  | like pattern => placeholder (.text pattern) ++ plain " ESCAPE '\\'".toList
  | among p ps => plain ['('] ++ placeholder p ++ furtherValues ps

def fragment (k : Check) : Fragment := plain [' '] ++ plain k.word ++ plain [' '] ++ k.values

theorem furtherValues_append_inj {ps qs : List Parameter} {f g : Fragment}
    (h : furtherValues ps ++ f = furtherValues qs ++ g) : ps = qs ∧ f = g := by
  induction ps generalizing qs with
  | nil =>
    cases qs with
    | nil => exact ⟨rfl, append_cancel h⟩
    | cons q qs =>
      have hlead : some ')' = some ',' := congrArg lead? h
      cases hlead
  | cons p ps ih =>
    cases qs with
    | nil =>
      have hlead : some ',' = some ')' := congrArg lead? h
      cases hlead
    | cons q qs =>
      simp only [furtherValues, append_assoc] at h
      obtain ⟨rfl, hrest⟩ := placeholder_append_inj (append_cancel h)
      obtain ⟨rfl, rfl⟩ := ih hrest
      exact ⟨rfl, rfl⟩

theorem word_like_ne_in : "LIKE".toList ≠ "IN".toList := by decide

theorem sign_injective {a b : Comparison} (h : a.sign = b.sign) : a = b := by
  revert h
  cases a <;> cases b <;> decide

theorem sign_ne_like (a : Comparison) : a.sign ≠ "LIKE".toList := by cases a <;> decide

theorem sign_ne_in (a : Comparison) : a.sign ≠ "IN".toList := by cases a <;> decide

theorem values_append_inj {k l : Check} {f g : Fragment} (hword : k.word = l.word)
    (h : k.values ++ f = l.values ++ g) : k = l ∧ f = g := by
  cases k with
  | compare a p =>
    cases l with
    | compare b q =>
      obtain ⟨rfl, rfl⟩ := placeholder_append_inj h
      rw [sign_injective hword]
      exact ⟨rfl, rfl⟩
    | like pattern => exact absurd hword (sign_ne_like a)
    | among q qs => exact absurd hword (sign_ne_in a)
  | like pattern =>
    cases l with
    | compare b q => exact absurd hword.symm (sign_ne_like b)
    | like other =>
      simp only [values, append_assoc] at h
      obtain ⟨hpattern, hrest⟩ := placeholder_append_inj h
      cases hpattern
      exact ⟨rfl, append_cancel hrest⟩
    | among q qs => exact absurd hword word_like_ne_in
  | among p ps =>
    cases l with
    | compare b q => exact absurd hword.symm (sign_ne_in b)
    | like other => exact absurd hword.symm word_like_ne_in
    | among q qs =>
      simp only [values, append_assoc] at h
      obtain ⟨rfl, hrest⟩ := placeholder_append_inj (append_cancel h)
      obtain ⟨rfl, rfl⟩ := furtherValues_append_inj hrest
      exact ⟨rfl, rfl⟩

theorem fragment_append_inj {k l : Check} {f g : Fragment}
    (h : k.fragment ++ f = l.fragment ++ g) : k = l ∧ f = g := by
  have hfree (k : Check) : k.word.all fun x => !isBreak x := by
    cases k with
    | compare a p => cases a <;> rfl
    | like pattern => rfl
    | among p ps => rfl
  simp only [fragment, append_assoc] at h
  obtain ⟨hword, h⟩ := word_append_inj (hfree k) (hfree l) rfl rfl (append_cancel h)
  exact values_append_inj hword (append_cancel h)

end Check

def Joint.word : Joint → Text
  | and => "AND".toList
  | or => "OR".toList

namespace Clause

open Fragment

def digit : Bool → Char
  | true => '1'
  | false => '0'

def relationWords (r : Relation) : Text :=
  relationText r ++ " WHERE ".toList ++ r.link.text ++ " = ".toList

mutual

def fragment : Clause → Fragment
  | fixed b => plain "1 = ".toList ++ plain [digit b]
  | check o k => operand o ++ k.fragment
  | chain first rest => plain ['('] ++ fragment first ++ linksFragment rest
  | negation c => plain "NOT (".toList ++ fragment c ++ plain [')']
  | existence r outer c =>
    plain "EXISTS (SELECT 1 FROM ".toList ++ plain (relationWords r) ++ columnText outer ++
      plain " AND ".toList ++ fragment c ++ plain [')']

def linksFragment : Links → Fragment
  | .close => plain [')']
  | .link j c rest =>
    plain [' '] ++ plain j.word ++ plain [' '] ++ fragment c ++ linksFragment rest

end

/-- The first character of a clause that does not begin with an operand. -/
def opening? : Clause → Option Char
  | fixed _ => some '1'
  | check _ _ => none
  | chain _ _ => some '('
  | negation _ => some 'N'
  | existence _ _ _ => some 'E'

/-- No operand begins with one of these characters. -/
def isOpening (x : Char) : Bool := "1(NE".toList.contains x

theorem opening?_eq (c : Clause) (f : Fragment) :
    c.opening? = (c.fragment ++ f).lead?.filter isOpening := by
  cases c with
  | fixed b => rfl
  | check o k =>
    cases o with
    | column c => cases c <;> rfl
    | document c path => rfl
  | chain first rest => rfl
  | negation c => rfl
  | existence r outer c => rfl

theorem relation_eq_of_words {r s : Relation} {f g : Fragment}
    (h : plain (relationWords r) ++ f = plain (relationWords s) ++ g) : r = s := by
  have hlead (r : Relation) (f : Fragment) :
      (plain (relationWords r) ++ f).lead? = (relationText r).head? := by cases r <;> rfl
  have hfirst : (relationText r).head? = (relationText s).head? := by
    rw [← hlead r f, h, hlead s g]
  revert hfirst
  cases r <;> cases s <;> decide

theorem word_injective {i j : Joint} (h : i.word = j.word) : i = j := by
  revert h
  cases i <;> cases j <;> decide

mutual

/-- A clause determines where it ends. -/
theorem fragment_append_inj {c d : Clause} {f g : Fragment}
    (h : c.fragment ++ f = d.fragment ++ g) : c = d ∧ f = g := by
  have hopening : c.opening? = d.opening? := by rw [opening?_eq c f, h, opening?_eq d g]
  cases c with
  | fixed a =>
    cases d with
    | fixed b =>
      simp only [fragment, append_assoc] at h
      have hrest := append_cancel h
      have hdigit : some (digit a) = some (digit b) := congrArg lead? hrest
      have hab : a = b := by
        revert hdigit
        cases a <;> cases b <;> decide
      subst hab
      exact ⟨rfl, append_cancel hrest⟩
    | _ => cases hopening
  | check o k =>
    cases d with
    | check p l =>
      simp only [fragment, append_assoc] at h
      obtain ⟨rfl, hrest⟩ := operand_append_inj rfl rfl h
      obtain ⟨rfl, rfl⟩ := Check.fragment_append_inj hrest
      exact ⟨rfl, rfl⟩
    | _ => cases hopening
  | chain first rest =>
    cases d with
    | chain other more =>
      simp only [fragment, append_assoc] at h
      obtain ⟨rfl, hrest⟩ := fragment_append_inj (append_cancel h)
      obtain ⟨rfl, rfl⟩ := linksFragment_append_inj hrest
      exact ⟨rfl, rfl⟩
    | _ => cases hopening
  | negation c =>
    cases d with
    | negation d =>
      simp only [fragment, append_assoc] at h
      obtain ⟨rfl, hrest⟩ := fragment_append_inj (append_cancel h)
      exact ⟨rfl, append_cancel hrest⟩
    | _ => cases hopening
  | existence r outer c =>
    cases d with
    | existence s other d =>
      simp only [fragment, append_assoc] at h
      have hwords := append_cancel h
      obtain rfl := relation_eq_of_words hwords
      obtain ⟨rfl, hinner⟩ := columnText_append_inj rfl rfl (append_cancel hwords)
      obtain ⟨rfl, hrest⟩ := fragment_append_inj (append_cancel hinner)
      exact ⟨rfl, append_cancel hrest⟩
    | _ => cases hopening

theorem linksFragment_append_inj {k l : Links} {f g : Fragment}
    (h : linksFragment k ++ f = linksFragment l ++ g) : k = l ∧ f = g := by
  cases k with
  | close =>
    cases l with
    | close => exact ⟨rfl, append_cancel h⟩
    | link j c rest =>
      have hlead : some ')' = some ' ' := congrArg lead? h
      cases hlead
  | link i c rest =>
    cases l with
    | close =>
      have hlead : some ' ' = some ')' := congrArg lead? h
      cases hlead
    | link j d more =>
      have hfree (j : Joint) : j.word.all fun x => !isBreak x := by cases j <;> rfl
      simp only [linksFragment, append_assoc] at h
      obtain ⟨hword, hnext⟩ := word_append_inj (hfree i) (hfree j) rfl rfl (append_cancel h)
      obtain rfl := word_injective hword
      obtain ⟨rfl, hrest⟩ := fragment_append_inj (append_cancel hnext)
      obtain ⟨rfl, rfl⟩ := linksFragment_append_inj hrest
      exact ⟨rfl, rfl⟩

end

end Clause

namespace Condition

open Fragment

mutual

def clause : Condition → Clause
  | const b => .fixed b
  | compare o comparison l => .check o (.compare comparison l.parameter)
  | like o pattern => .check o (.like pattern)
  | among _ [] => .fixed false
  | among o (l :: ls) => .check o (.among l.parameter (ls.map Literal.parameter))
  | all [] => .fixed true
  | all (c :: cs) => .chain (clause c) (links .and cs)
  | any [] => .fixed false
  | any (c :: cs) => .chain (clause c) (links .or cs)
  | negated c => .negation (clause c)
  | related r outer c => .existence r outer (clause c)

def links (j : Joint) : List Condition → Links
  | [] => .close
  | c :: cs => .link j (clause c) (links j cs)

end

theorem joined_values (l : Literal) (ls : List Literal) :
    joined ", ".toList ((l :: ls).map fun l => placeholder l.parameter) ++ plain [')'] =
      placeholder l.parameter ++ Check.furtherValues (ls.map Literal.parameter) := by
  induction ls generalizing l with
  | nil => rfl
  | cons m ms ih =>
    simp only [List.map_cons, joined, append_assoc, Check.furtherValues] at ih ⊢
    rw [ih]

mutual

theorem fragment_clause (c : Condition) : c.clause.fragment = ofCondition c := by
  cases c with
  | const b => cases b <;> rfl
  | compare o comparison l =>
    simp only [clause, Clause.fragment, Check.fragment, ofCondition, Check.word, Check.values,
      append_assoc, plain_spaced]
  | like o pattern =>
    simp only [clause, Clause.fragment, Check.fragment, ofCondition, Check.word, Check.values,
      append_assoc]
    rfl
  | among o ls =>
    cases ls with
    | nil => rfl
    | cons l ls =>
      simp only [clause, Clause.fragment, Check.fragment, ofCondition, Check.word, Check.values,
        append_assoc, joined_values]
      rfl
  | all cs =>
    cases cs with
    | nil => rfl
    | cons c cs =>
      simp only [clause, Clause.fragment, ofCondition, ofConditions, parenthesized, append_assoc,
        fragment_clause c]
      rw [← joined_ofConditions .and _ cs]
      rfl
  | any cs =>
    cases cs with
    | nil => rfl
    | cons c cs =>
      simp only [clause, Clause.fragment, ofCondition, ofConditions, parenthesized, append_assoc,
        fragment_clause c]
      rw [← joined_ofConditions .or _ cs]
      rfl
  | negated c => simp only [clause, Clause.fragment, ofCondition, fragment_clause c]
  | related r outer c =>
    simp only [clause, Clause.fragment, ofCondition, fragment_clause c, columnText,
      Clause.relationWords, plain_append_plain, List.append_assoc]

theorem joined_ofConditions (j : Joint) (f : Fragment) (cs : List Condition) :
    joined (' ' :: j.word ++ [' ']) (f :: ofConditions cs) ++ plain [')'] =
      f ++ Clause.linksFragment (links j cs) := by
  cases cs with
  | nil => rfl
  | cons c cs =>
    simp only [ofConditions, joined, links, Clause.linksFragment, append_assoc,
      fragment_clause c]
    rw [joined_ofConditions j (ofCondition c) cs, plain_spaced]

end

/-- Conditions are rendered alike exactly if they are written as one clause. -/
theorem ofCondition_eq_iff {c d : Condition} :
    ofCondition c = ofCondition d ↔ c.clause = d.clause := by
  constructor
  · intro h
    have hclauses : c.clause.fragment ++ plain [] = d.clause.fragment ++ plain [] := by
      rw [fragment_clause, fragment_clause, h]
    exact (Clause.fragment_append_inj hclauses).1
  · intro h
    rw [← fragment_clause c, h, fragment_clause d]

end Condition

/-- The literal that is bound as a parameter. -/
def Parameter.literal : Parameter → Literal
  | int n => .int n
  | text t => .text t

theorem Literal.cell_literal (l : Literal) : l.parameter.literal.cell = l.cell := by cases l <;> rfl

def Check.condition (o : Operand) : Check → Condition
  | compare comparison p => .compare o comparison p.literal
  | like pattern => .like o pattern
  | among p ps => .among o ((p :: ps).map Parameter.literal)

def Joint.join : Joint → Truth → Truth → Truth
  | and => Truth.both
  | or => Truth.either

namespace Clause

mutual

def truth (db : Database) (s : Scope) : Clause → Truth
  | fixed b => .ofBool b
  | check o k => (k.condition o).truth db s
  | chain first rest => linksTruth db s (truth db s first) rest
  | negation c => (truth db s c).flip
  | existence r outer c =>
    .ofBool ((db.relatedRows r).any fun row =>
      Condition.belongs r outer (row.enter s) && truth db (row.enter s) c == .yes)

def linksTruth (db : Database) (s : Scope) (first : Truth) : Links → Truth
  | .close => first
  | .link j c rest => j.join first (linksTruth db s (truth db s c) rest)

end

end Clause

namespace Condition

variable {db : Database}

theorem compareTruth?_literal (s : Scope) (o : Operand) (comparison : Comparison) (l : Literal) :
    compareTruth? s o comparison l.parameter.literal = compareTruth? s o comparison l := by
  unfold compareTruth?
  rw [l.cell_literal]

theorem amongTruth?_literals (s : Scope) (o : Operand) (ls : List Literal) :
    amongTruth? s o ((ls.map Literal.parameter).map Parameter.literal) = amongTruth? s o ls := by
  have hcells (value : Cell) :
      amongTruth o ((ls.map Literal.parameter).map Parameter.literal) value =
        amongTruth o ls value := by
    simp only [amongTruth, List.any_map, Function.comp_def, Literal.cell_literal]
  have hempty : ((ls.map Literal.parameter).map Parameter.literal).isEmpty = ls.isEmpty := by
    simp
  unfold amongTruth?
  rw [hempty]
  simp only [funext hcells]

mutual

theorem truth_clause (s : Scope) (c : Condition) : c.clause.truth db s = c.truth db s := by
  cases c with
  | const b => simp only [clause, Clause.truth, truth]
  | compare o comparison l =>
    simp only [clause, Clause.truth, Check.condition, truth, compareTruth?_literal]
  | like o pattern => simp only [clause, Clause.truth, Check.condition, truth]
  | among o ls =>
    cases ls with
    | nil => rfl
    | cons l ls =>
      have hvalues := amongTruth?_literals s o (l :: ls)
      rw [List.map_cons] at hvalues
      simp only [clause, Clause.truth, Check.condition, truth, hvalues]
  | all cs =>
    cases cs with
    | nil => rfl
    | cons c cs =>
      simp only [clause, Clause.truth, truth, truthOfAll, truth_clause s c]
      exact linksTruth_and s (truth db s c) cs
  | any cs =>
    cases cs with
    | nil => rfl
    | cons c cs =>
      simp only [clause, Clause.truth, truth, truthOfAny, truth_clause s c]
      exact linksTruth_or s (truth db s c) cs
  | negated c => simp only [clause, Clause.truth, truth, truth_clause s c]
  | related r outer c =>
    have hinner (s : Scope) : c.clause.truth db s = c.truth db s := truth_clause s c
    simp only [clause, Clause.truth, truth, hinner]

theorem linksTruth_and (s : Scope) (first : Truth) (cs : List Condition) :
    Clause.linksTruth db s first (links .and cs) = first.both (truthOfAll db s cs) := by
  cases cs with
  | nil => cases first <;> rfl
  | cons c cs =>
    simp only [links, Clause.linksTruth, truthOfAll, truth_clause s c,
      linksTruth_and s (truth db s c) cs]
    rfl

theorem linksTruth_or (s : Scope) (first : Truth) (cs : List Condition) :
    Clause.linksTruth db s first (links .or cs) = first.either (truthOfAny db s cs) := by
  cases cs with
  | nil => cases first <;> rfl
  | cons c cs =>
    simp only [links, Clause.linksTruth, truthOfAny, truth_clause s c,
      linksTruth_or s (truth db s c) cs]
    rfl

end

/-- Conditions that are rendered as one text with the same values have one truth value, on every
object of every database. -/
theorem truth_eq_of_ofCondition_eq {c d : Condition}
    (h : Fragment.ofCondition c = Fragment.ofCondition d) (db : Database) (s : Scope) :
    c.truth db s = d.truth db s := by
  rw [← truth_clause s c, ofCondition_eq_iff.1 h, truth_clause s d]

/-- Uploaded before a new year, with constants, a list without values and a moment. -/
def beforeNewYear : Condition :=
  .all [.const true, .any [.compare (.column .objectUploadTime) .lt
    (.moment ⟨⟨2021, 1, 1⟩, 0, 0, 0⟩)], .negated (.among (.column .objectId) [])]

/-- The same by chains without parts, another chain of one part and a text. -/
def beforeNewYearText : Condition :=
  .all [.all [], .all [.compare (.column .objectUploadTime) .lt
    (.text "2021-01-01 00:00:00".toList)], .negated (.any [])]

theorem truth_eq_of_ofCondition_eq_beforeNewYear :
    Fragment.ofCondition beforeNewYear = Fragment.ofCondition beforeNewYearText ∧
      ∀ db s, beforeNewYear.truth db s = beforeNewYearText.truth db s := by
  have hrendered : Fragment.ofCondition beforeNewYear = Fragment.ofCondition beforeNewYearText := by
    decide
  exact ⟨hrendered, truth_eq_of_ofCondition_eq hrendered⟩

end Condition

end SampleSearch
