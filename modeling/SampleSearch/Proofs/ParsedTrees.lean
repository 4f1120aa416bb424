import SampleSearch.Proofs.ProtectedCharacters
import SampleSearch.Query.Parser

/-!
# Trees of parsed queries

A query is parsed to a tree of a certain shape. Alternatives have conjunctions as parts and these
have operands, at least two of them. An operand is a field, or a word, phrase, range, regular
expression or group with modifiers, or it stands behind a prefix operator. Groups and prefix
operators have operands of a smaller depth inside.
-/

namespace SampleSearch

/-- Whether all that a consumer is done with has a property. -/
def Consumer.Yields {α : Type} (p : Consumer α) (P : α → Prop) : Prop :=
  ∀ ⦃s a r⦄, p.run s = .done a r → P a

namespace Query

open Lexeme

mutual

/-- The ends of all ranges in a query. -/
def rangeEnds : Query → List Text
  | all parts => rangeEndsOfAll parts
  | any parts => rangeEndsOfAll parts
  | negated q => rangeEnds q
  | prohibited q => rangeEnds q
  | required q => rangeEnds q
  | field _ q => rangeEnds q
  | group q => rangeEnds q
  | fieldGroup q => rangeEnds q
  | boost q _ => rangeEnds q
  | range r => [r.low, r.high]
  | word _ => []
  | phrase _ => []
  | fuzzy _ _ => []
  | proximity _ _ => []
  | regex _ => []

def rangeEndsOfAll : List Query → List Text
  | [] => []
  | q :: qs => rangeEnds q ++ rangeEndsOfAll qs

end

theorem mem_rangeEndsOfAll {e : Text} {qs : List Query} :
    e ∈ rangeEndsOfAll qs ↔ ∃ q ∈ qs, e ∈ q.rangeEnds := by
  induction qs with
  | nil => simp [rangeEndsOfAll]
  | cons q qs ih => simp [rangeEndsOfAll, ih]

/-- One part alone, or two parts or more that are combined. -/
def IsSeparated (P : Query → Prop) (combine : List Query → Query) (q : Query) : Prop :=
  P q ∨ ∃ parts, 2 ≤ parts.length ∧ (∀ p ∈ parts, P p) ∧ q = combine parts

def IsConjunction (P : Query → Prop) : Query → Prop := IsSeparated P .all

def IsDisjunction (P : Query → Prop) : Query → Prop := IsSeparated (IsConjunction P) .any

/-- Whether a text is made of digits and points. -/
def IsNumeral (f : Text) : Prop := ∀ c ∈ f, (c.isDigit || c == '.') = true

def IsDegree (d : Option Text) : Prop := ∀ n, d = some n → n ≠ [] ∧ IsNumeral n

/-- Words that are not taken for a prefix operator or a regular expression. -/
def OpensOperand (w : Text) : Prop := ∀ c ∈ w.head?, c ∉ ['!', '-', '+', '/']

def prefixOperators : List (Query → Query) := [.negated, .prohibited, .required]

theorem mem_prefixOperators {wrap : Query → Query} :
    wrap ∈ prefixOperators ↔ wrap = .negated ∨ wrap = .prohibited ∨ wrap = .required := by
  simp [prefixOperators]

section

variable (E : Text → Prop)

/-- Values, where `E` holds of the ends of ranges. -/
inductive IsLeaf : Query → Prop
  | word {w : Text} : IsWord w → isKeyword w = false → w.head? ≠ some '/' → IsLeaf (.word w)
  | phrase {c : Text} : IsEnclosed '"' c → IsLeaf (.phrase c)
  | regex {p : Text} : IsEnclosed '/' p → IsLeaf (.regex p)
  | range {r : Range} : E r.low → E r.high → IsLeaf (.range r)

/-- What modifiers make of a tree: at most a tilde and then a number of boosts. -/
inductive IsModified (base : Query → Prop) : Nat → Query → Prop
  | plain {q : Query} : base q → IsModified base 0 q
  | fuzzy {v : Text} {d : Option Text} : base (.word v) → IsDegree d →
      IsModified base 0 (.fuzzy v d)
  | proximity {c : Text} {d : Option Text} : base (.phrase c) → IsDegree d →
      IsModified base 0 (.proximity c d)
  | boost {n : Nat} {q : Query} {f : Text} : IsModified base n q → n < maxNesting → f ≠ [] →
      IsNumeral f → IsModified base (n + 1) (.boost q f)

variable (P : Query → Prop)

/-- Values of a field in front of their modifiers, where `P` holds of the operands in groups. -/
inductive IsValue : Query → Prop
  | leaf {q : Query} : IsLeaf E q → IsValue q
  | fieldGroup {q : Query} : IsDisjunction P q → IsValue (.fieldGroup q)

/-- Operands in front of their modifiers, apart from fields. -/
inductive IsAtom : Query → Prop
  | leaf {q : Query} : IsLeaf E q → (∀ w, q = .word w → OpensOperand w) → IsAtom q
  | group {q : Query} : IsDisjunction P q → IsAtom (.group q)

inductive IsField : Query → Prop
  | field {name : Text} {n : Nat} {v : Query} : IsWord name → OpensOperand name →
      IsModified (IsValue E P) n v → IsField (.field name v)

inductive IsOperandWith : Query → Prop
  | prefixed {wrap : Query → Query} {q : Query} : wrap ∈ prefixOperators → P q →
      IsOperandWith (wrap q)
  | field {q : Query} : IsField E P q → IsOperandWith q
  | modified {n : Nat} {q : Query} : IsModified (IsAtom E P) n q → IsOperandWith q

/-- Operands nested at most a number of levels deep. -/
def IsOperand : Nat → Query → Prop
  | 0 => IsOperandWith E fun _ => False
  | depth + 1 => IsOperandWith E (IsOperand depth)

end

section

variable {P : Query → Prop} {p : Consumer Query} {next : Text → Option Text}
  {next_le : ∀ {s t}, next s = some t → t.length ≤ s.length} {combine : List Query → Query}

theorem forall_of_repeated (hp : p.Yields P) {s : Text}
    {qs : List Query} {r : Text} (h : p.repeated next next_le s = .done qs r) :
    ∀ q ∈ qs, P q := by
  fun_induction Consumer.repeated p next next_le s generalizing qs with
  | case1 s hn =>
    cases h
    simp
  | case2 => cases h
  | case3 s t hn a r' hrun hlt ih =>
    obtain ⟨as, has, rfl⟩ := Outcome.map_eq_done.1 h
    intro q hq
    rcases List.mem_cons.1 hq with rfl | hq
    · exact hp hrun
    · exact ih has q hq

theorem yields_separated (hp : p.Yields P) :
    (p.separated next next_le combine).Yields (IsSeparated P combine) := by
  intro s q r h
  obtain ⟨a, t, ha, h⟩ := Outcome.andThen_eq_done.1 h
  obtain ⟨as, has, h⟩ := Outcome.map_eq_done.1 h
  have hall := forall_of_repeated hp has
  cases as with
  | nil =>
    cases h
    exact .inl (hp ha)
  | cons b as =>
    cases h
    refine .inr ⟨a :: b :: as, by simp, ?_, rfl⟩
    intro c hc
    rcases List.mem_cons.1 hc with rfl | hc
    · exact hp ha
    · exact hall c hc

theorem yields_disjunction (hp : p.Yields P) : (disjunction p).Yields (IsDisjunction P) :=
  yields_separated (yields_separated hp)

end

theorem isNumeral_splitNumber (s : Text) : IsNumeral (splitNumber s).1 :=
  List.all_eq_true.1 List.all_takeWhile

/-- Whether no modifier follows. -/
def StopsModifiers (s : Text) : Prop := ∀ c ∈ s.head?, c ≠ '~' ∧ c ≠ '^'

theorem modifiers_of_stops {s : Text} (h : StopsModifiers s) (n : Nat) (q : Query) :
    modifiers n q s = .done q s := by
  unfold modifiers
  split
  · simp [StopsModifiers] at h
  · simp [StopsModifiers] at h
  · rfl

theorem stops_of_modifiers {n : Nat} {p : Query} {s : Text} {q : Query} {r : Text}
    (h : modifiers n p s = .done q r) : StopsModifiers r := by
  fun_induction modifiers n p s with
  | case1 n p t number q' hq ih => exact ih h
  | case2 => simp at h
  | case3 => simp at h
  | case4 => simp at h
  | case5 n p t number _ _ ih => exact ih h
  | case6 n p s htilde hcaret =>
    cases h
    intro c hc
    obtain ⟨t, rfl⟩ := List.head?_eq_some_iff.1 hc
    constructor
    · rintro rfl
      exact htilde t rfl
    · rintro rfl
      exact hcaret t rfl

theorem isModified_of_withTilde? {base : Query → Prop} {n : Nat} {p q : Query} {d : Text}
    (hp : IsModified base n p) (hd : IsNumeral d) (h : withTilde? d p = some q) :
    IsModified base n q := by
  have hdegree : IsDegree (if d.isEmpty then none else some d) := by
    intro f hf
    split at hf
    · cases hf
    · rename_i hne
      cases hf
      exact ⟨by simpa using hne, hd⟩
  cases p with
  | word v =>
    cases h
    cases hp with
    | plain hv => exact .fuzzy hv hdegree
  | phrase c =>
    cases h
    cases hp with
    | plain hc => exact .proximity hc hdegree
  | _ => cases h

theorem isModified_of_modifiers {base : Query → Prop} {n : Nat} {p : Query} {s : Text} {q : Query}
    {r : Text} (hp : IsModified base n p) (h : modifiers n p s = .done q r) :
    ∃ m, IsModified base m q := by
  fun_induction modifiers n p s with
  | case1 n p t number q' hq ih =>
    exact ih (isModified_of_withTilde? hp (isNumeral_splitNumber t) hq) h
  | case2 => simp at h
  | case3 => simp at h
  | case4 => simp at h
  | case5 n p t number hne hn ih =>
    refine ih (.boost hp ?_ ?_ (isNumeral_splitNumber t)) h
    · omega
    · simpa using hne
  | case6 n p s _ _ =>
    cases h
    exact ⟨n, hp⟩

section

variable {ends : Consumer Text} {E : Text → Prop}

theorem isRange_of_rangeRest (hE : ends.Yields E) {b : Bool} {s : Text}
    {q : Query} {r : Text} (h : rangeRest ends b s = .done q r) :
    ∃ range : Range, q = .range range ∧ E range.low ∧ E range.high := by
  obtain ⟨low, t, hlow, h⟩ := Outcome.andThen_eq_done.1 h
  simp only at h
  split at h
  · obtain ⟨high, u, hhigh, h⟩ := Outcome.andThen_eq_done.1 h
    unfold closeRange at h
    split at h
    · cases h
      exact ⟨_, rfl, hE hlow, hE hhigh⟩
    · cases h
      exact ⟨_, rfl, hE hlow, hE hhigh⟩
    · simp at h
  · simp at h

theorem isWord_of_plainWord {s : Text} {q : Query} {r : Text} (h : plainWord s = .done q r) :
    ∃ w, q = .word w ∧ IsWord w ∧ isKeyword w = false ∧ s = w ++ r := by
  obtain ⟨w, t, hw, h⟩ := Outcome.andThen_eq_done.1 h
  obtain ⟨rfl, hword, -⟩ := isWord_of_readWord hw
  split at h
  · simp at h
  · rename_i hkey
    cases h
    exact ⟨w, rfl, hword, by simpa using hkey, rfl⟩

theorem isLeaf_of_leaf (hE : ends.Yields E) {s : Text} {q : Query}
    {r : Text} (h : leaf ends s = .done q r) : IsLeaf E q ∧ ∀ w, q = .word w → s = w ++ r := by
  unfold leaf at h
  split at h
  · obtain ⟨c, hc, rfl⟩ := Outcome.map_eq_done.1 h
    exact ⟨.phrase (isEnclosed_of_readDelimited hc).2, by simp⟩
  · obtain ⟨p, hp, rfl⟩ := Outcome.map_eq_done.1 h
    exact ⟨.regex (isEnclosed_of_readDelimited hp).2, by simp⟩
  · obtain ⟨range, rfl, hlow, hhigh⟩ := isRange_of_rangeRest hE h
    exact ⟨.range hlow hhigh, by simp⟩
  · obtain ⟨range, rfl, hlow, hhigh⟩ := isRange_of_rangeRest hE h
    exact ⟨.range hlow hhigh, by simp⟩
  · rename_i hslash _ _
    obtain ⟨w, rfl, hword, hkey, rfl⟩ := isWord_of_plainWord h
    refine ⟨.word hword hkey fun hhead => ?_, ?_⟩
    · obtain ⟨v, rfl⟩ := List.head?_eq_some_iff.1 hhead
      exact hslash _ rfl
    · rintro _ ⟨⟩
      rfl

theorem head_of_prefixOperator? {c : Char} {s : Text} (h : prefixOperator? (c :: s) = none) :
    c ∉ ['!', '-', '+'] := by
  unfold prefixOperator? at h
  split at h
  · cases h
  · intro hc
    simp only [List.mem_cons, List.not_mem_nil, or_false] at hc
    rcases hc with rfl | rfl | rfl <;> simp at h

theorem opensOperand_of_append {w r : Text} (hw : IsWord w) (h : prefixOperator? (w ++ r) = none)
    (hslash : w.head? ≠ some '/') : OpensOperand w := by
  obtain ⟨c, v, rfl, -⟩ := hw.bare.head
  have hc := head_of_prefixOperator? h
  simp only [List.head?_cons, ne_eq, Option.some.injEq] at hslash
  simp only [OpensOperand, List.head?_cons, Option.mem_def, Option.some.injEq, forall_eq']
  simp only [List.mem_cons, List.not_mem_nil, or_false, not_or] at hc ⊢
  exact ⟨hc.1, hc.2.1, hc.2.2, hslash⟩

variable {P : Query → Prop} {inner : Option (Consumer Query)}

theorem isDisjunction_of_groupRest (hP : ∀ p, inner = some p → p.Yields P)
    {opening s : Text} {q : Query} {r : Text} (h : groupRest inner opening s = .done q r) :
    IsDisjunction P q := by
  unfold groupRest at h
  split at h
  · simp at h
  · rename_i p
    split at h
    · simp at h
    · obtain ⟨q', t, hq, h⟩ := Outcome.andThen_eq_done.1 h
      unfold closeGroup at h
      split at h
      · cases h
        exact yields_disjunction (hP p rfl) hq
      · simp at h

theorem isValue_of_fieldBase (hE : ends.Yields E) (hP : ∀ p, inner = some p → p.Yields P)
    {s : Text} {q : Query} {r : Text} (h : fieldBase ends inner s = .done q r) :
    IsValue E P q := by
  unfold fieldBase at h
  split at h
  · simp at h
  · obtain ⟨g, hg, rfl⟩ := Outcome.map_eq_done.1 h
    exact .fieldGroup (isDisjunction_of_groupRest hP hg)
  · split at h
    · simp at h
    · exact .leaf (isLeaf_of_leaf hE h).1

theorem isModified_of_fieldRest (hE : ends.Yields E)
    (hP : ∀ p, inner = some p → p.Yields P) {name s : Text} {q : Query}
    {r : Text} (h : fieldRest ends inner name s = .done q r) :
    (∃ n v, IsModified (IsValue E P) n v ∧ q = .field name v) ∧ StopsModifiers r := by
  obtain ⟨v, hv, rfl⟩ := Outcome.map_eq_done.1 h
  obtain ⟨b, t, hb, hm⟩ := Outcome.andThen_eq_done.1 hv
  obtain ⟨n, hn⟩ := isModified_of_modifiers (.plain (isValue_of_fieldBase hE hP hb)) hm
  exact ⟨⟨n, v, hn, rfl⟩, stops_of_modifiers hm⟩

theorem isAtom_or_isField_of_primary (hE : ends.Yields E)
    (hP : ∀ p, inner = some p → p.Yields P) {s : Text} {q : Query}
    {r : Text} (h : primary ends inner s = .done q r) (hs : prefixOperator? s = none) :
    IsAtom E P q ∨ IsField E P q ∧ StopsModifiers r := by
  unfold primary at h
  split at h
  · simp at h
  · obtain ⟨g, hg, rfl⟩ := Outcome.map_eq_done.1 h
    exact .inl (.group (isDisjunction_of_groupRest hP hg))
  · rename_i c t _
    split at h
    · rename_i hopens
      obtain ⟨hleaf, hword⟩ := isLeaf_of_leaf hE h
      refine .inl (.leaf hleaf ?_)
      rintro w rfl
      have hw := hword w rfl
      cases hleaf with
      | word hw' hkey hslash => exact opensOperand_of_append hw' (hw ▸ hs) hslash
    · rename_i hopens
      split at h
      · simp at h
      · obtain ⟨w, u, hw, h⟩ := Outcome.andThen_eq_done.1 h
        obtain ⟨hcw, hword, -⟩ := isWord_of_readWord hw
        have hslash : w.head? ≠ some '/' := by
          intro hhead
          obtain ⟨v, rfl⟩ := List.head?_eq_some_iff.1 hhead
          cases hcw
          exact hopens rfl
        have hstart : OpensOperand w := opensOperand_of_append hword (hcw ▸ hs) hslash
        split at h
        · obtain ⟨⟨n, v, hv, rfl⟩, hstops⟩ := isModified_of_fieldRest hE hP h
          exact .inr ⟨.field hword hstart hv, hstops⟩
        · split at h
          · simp at h
          · rename_i hkey
            cases h
            refine .inl (.leaf (.word hword (by simpa using hkey) hslash) ?_)
            rintro _ ⟨⟩
            exact hstart

theorem yields_operandWith (hE : ends.Yields E) (hP : ∀ p, inner = some p → p.Yields P) :
    (operandWith ends inner).Yields (IsOperandWith E P) := by
  intro s q r h
  simp only [operandWith, operandRun] at h
  split at h
  · rename_i wrap t hwrap
    split at h
    · simp at h
    · rename_i p
      obtain ⟨q', hq, rfl⟩ := Outcome.map_eq_done.1 h
      refine .prefixed ?_ (hP p rfl hq)
      unfold prefixOperator? at hwrap
      split at hwrap
      · cases hwrap
        simp [prefixOperators]
      · split at hwrap <;> cases hwrap <;> simp [prefixOperators]
  · rename_i hsign
    obtain ⟨q', t, hq, h⟩ := Outcome.andThen_eq_done.1 h
    rcases isAtom_or_isField_of_primary hE hP hq hsign with hatom | ⟨hfield, hstops⟩
    · obtain ⟨n, hn⟩ := isModified_of_modifiers (.plain hatom) h
      exact .modified hn
    · rw [modifiers_of_stops hstops] at h
      cases h
      exact .field hfield

theorem yields_operand (hE : ends.Yields E) (depth : Nat) :
    (operand ends depth).Yields (IsOperand E depth) := by
  induction depth with
  | zero => exact yields_operandWith hE (by simp)
  | succ depth ih =>
    apply yields_operandWith hE
    rintro p ⟨⟩
    exact ih

/-- The shape of every tree that a query is parsed to. -/
theorem isDisjunction_of_parseWith (hE : ends.Yields E) {s : Text}
    {q : Query} (h : parseWith ends s = .ok q) : IsDisjunction (IsOperand E maxNesting) q := by
  unfold parseWith at h
  split at h
  · rename_i q' r ho
    cases h
    simp only [outcome] at ho
    split at ho
    · simp at ho
    · obtain ⟨q', t, hq, ho⟩ := Outcome.andThen_eq_done.1 ho
      unfold closeQuery at ho
      split at ho
      · cases ho
        exact yields_disjunction (yields_operand hE _) hq
      · simp at ho
  · cases h

end

section

variable {E : Text → Prop} {P : Query → Prop}

theorem IsLeaf.rangeEnds {q : Query} (h : IsLeaf E q) : ∀ e ∈ q.rangeEnds, E e := by
  cases h with
  | range hlow hhigh =>
    intro e he
    simp only [Query.rangeEnds, List.mem_cons, List.not_mem_nil, or_false] at he
    rcases he with rfl | rfl
    · exact hlow
    · exact hhigh
  | _ => simp [Query.rangeEnds]

theorem IsModified.rangeEnds {base : Query → Prop} (hbase : ∀ b, base b → ∀ e ∈ b.rangeEnds, E e)
    {n : Nat} {q : Query} (h : IsModified base n q) : ∀ e ∈ q.rangeEnds, E e := by
  induction h with
  | plain hb => exact hbase _ hb
  | fuzzy _ _ => simp [Query.rangeEnds]
  | proximity _ _ => simp [Query.rangeEnds]
  | boost _ _ _ _ ih => exact ih

theorem IsSeparated.rangeEnds {combine : List Query → Query}
    (hcombine : ∀ qs, (combine qs).rangeEnds = rangeEndsOfAll qs)
    (hP : ∀ q, P q → ∀ e ∈ q.rangeEnds, E e) {q : Query} (h : IsSeparated P combine q) :
    ∀ e ∈ q.rangeEnds, E e := by
  rcases h with hq | ⟨parts, -, hparts, rfl⟩
  · exact hP q hq
  · intro e he
    rw [hcombine, mem_rangeEndsOfAll] at he
    obtain ⟨p, hp, he⟩ := he
    exact hP p (hparts p hp) e he

theorem IsDisjunction.rangeEnds (hP : ∀ q, P q → ∀ e ∈ q.rangeEnds, E e) {q : Query}
    (h : IsDisjunction P q) : ∀ e ∈ q.rangeEnds, E e :=
  IsSeparated.rangeEnds (fun _ => rfl) (fun _ => IsSeparated.rangeEnds (fun _ => rfl) hP) h

theorem IsOperandWith.rangeEnds (hP : ∀ q, P q → ∀ e ∈ q.rangeEnds, E e) {q : Query}
    (h : IsOperandWith E P q) : ∀ e ∈ q.rangeEnds, E e := by
  cases h with
  | prefixed hwrap hq =>
    intro e he
    rcases mem_prefixOperators.1 hwrap with rfl | rfl | rfl <;> exact hP _ hq e he
  | field hfield =>
    obtain ⟨-, -, hv⟩ := hfield
    refine hv.rangeEnds fun b hb => ?_
    cases hb with
    | leaf hleaf => exact hleaf.rangeEnds
    | fieldGroup hgroup => exact hgroup.rangeEnds hP
  | modified hmod =>
    refine hmod.rangeEnds fun b hb => ?_
    cases hb with
    | leaf hleaf _ => exact hleaf.rangeEnds
    | group hgroup => exact hgroup.rangeEnds hP

theorem IsOperand.rangeEnds {depth : Nat} {q : Query} (h : IsOperand E depth q) :
    ∀ e ∈ q.rangeEnds, E e := by
  induction depth generalizing q with
  | zero => exact IsOperandWith.rangeEnds (by simp) h
  | succ depth ih => exact IsOperandWith.rangeEnds (fun _ hq => ih hq) h

end

end Query

end SampleSearch
