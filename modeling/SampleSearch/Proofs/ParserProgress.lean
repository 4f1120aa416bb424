import SampleSearch.Proofs.PrintedParts
import SampleSearch.Proofs.ReadPositions
import SampleSearch.Proofs.RoundTrip
import SampleSearch.Proofs.WrittenDates

/-!
# Progress of the parser

A round of a loop that goes on leaves less of the text than it was given, and operands inside of
others are read behind at least one character. So the parser stops on every text, and would also
stop without its limit on nesting: this limit only decides which texts are refused. Where a text is
refused, the place told is one between two of its characters.
-/

namespace SampleSearch

/-- What is left of a text behind at least one character. -/
structure Text.IsBehind (r s : Text) : Prop where
  suffix : r <:+ s
  shorter : r.length < s.length

theorem Text.IsBehind.of_suffix {r s t : Text} (h : IsBehind r s) (hs : s <:+ t) : IsBehind r t :=
  ⟨h.suffix.trans hs, Nat.lt_of_lt_of_le h.shorter hs.length_le⟩

theorem Text.isBehind_cons {r s : Text} (h : r <:+ s) (c : Char) : IsBehind r (c :: s) :=
  ⟨h.trans (List.suffix_cons c s), Nat.lt_succ_of_le h.length_le⟩

namespace Query

open Lexeme Outcome Text

section

variable {p : Consumer Query} {next : Text → Option Text}
  {next_le : ∀ {s t}, next s = some t → t.length ≤ s.length}

theorem isBehind_of_next (hp : p.StaysInside) (hnext : ∀ s u, next s = some u → u <:+ s)
    {s u : Text} (hu : next s = some u) {q : Query} {r : Text} (hr : p.run u = .done q r) :
    IsBehind r s := by
  have hin := hp u
  rw [hr] at hin
  exact IsBehind.of_suffix ⟨hin, p.shorter hr⟩ (hnext s u hu)

end

/-- Whether a loop over characters is over in a text or goes on behind those that it has read. -/
def ReadsOn (split : Text → Option (Text × Text)) : Prop :=
  ∀ s, split s = none ∨ (∃ r, r <:+ s ∧ split s = some ([], r)) ∨
    ∃ front r, front ≠ [] ∧ s = front ++ r ∧
      split s = (split r).map fun p => (front ++ p.1, p.2)

theorem readsOn_splitWord? : ReadsOn splitWord? := by
  intro s
  fun_cases splitWord? s with
  | case1 => exact .inr (.inl ⟨[], List.suffix_rfl, rfl⟩)
  | case2 => exact .inl rfl
  | case3 c s => exact .inr (.inr ⟨['\\', c], s, by simp, rfl, rfl⟩)
  | case4 c s _ _ hb => exact .inr (.inl ⟨c :: s, List.suffix_rfl, rfl⟩)
  | case5 c s _ _ hb => exact .inr (.inr ⟨[c], s, by simp, rfl, rfl⟩)

theorem readsOn_splitDelimited? (d : Char) : ReadsOn (splitDelimited? d) := by
  intro s
  fun_cases splitDelimited? d s with
  | case1 => exact .inl rfl
  | case2 => exact .inl rfl
  | case3 c s => exact .inr (.inr ⟨['\\', c], s, by simp, rfl, rfl⟩)
  | case4 c s _ _ hd => exact .inr (.inl ⟨s, List.suffix_cons c s, rfl⟩)
  | case5 c s _ _ hd => exact .inr (.inr ⟨[c], s, by simp, rfl, rfl⟩)

theorem readsOn_span (f : Char → Bool) :
    ReadsOn fun s => some (s.takeWhile f, s.dropWhile f) := by
  intro s
  cases s with
  | nil => exact .inr (.inl ⟨[], List.suffix_rfl, rfl⟩)
  | cons c s =>
    by_cases hc : f c = true
    · exact .inr (.inr ⟨[c], s, by simp, rfl, by simp [hc]⟩)
    · exact .inr (.inl ⟨c :: s, List.suffix_rfl, by simp [hc]⟩)

/-- What the next modifier makes of an operand and of the number of its boosts, if there is one. -/
def modifierRound (boosts : Nat) (q : Query) (s : Text) : Option (Outcome (Nat × Query)) :=
  match s with
  | '~' :: t =>
    match withTilde? (splitNumber t).1 q with
    | some q => some (.done (boosts, q) (splitNumber t).2)
    | none => some (.fail .misplacedTilde (splitNumber t).2)
  | '^' :: t =>
    if (splitNumber t).1.isEmpty then some (.fail .missingBoost (splitNumber t).2)
    else if maxNesting < boosts + 1 then some (.fail .tooDeep (splitNumber t).2)
    else some (.done (boosts + 1, .boost q (splitNumber t).1) (splitNumber t).2)
  | _ => none

theorem modifiers_eq_of_round (n : Nat) (q : Query) (s : Text) :
    modifiers n q s = match modifierRound n q s with
      | none => .done q s
      | some o => o.andThen fun p r => modifiers p.1 p.2 r := by
  fun_cases modifierRound n q s with
  | case1 t q' hq => rw [modifiers, hq]; rfl
  | case2 t hq => rw [modifiers, hq]; rfl
  | case3 t hempty => rw [modifiers, if_pos hempty]; rfl
  | case4 t hempty hn => rw [modifiers, if_neg hempty, if_pos hn]; rfl
  | case5 t hempty hn => rw [modifiers, if_neg hempty, if_neg hn]; rfl
  | case6 _ htilde hcaret =>
    rw [modifiers]
    · exact htilde
    · exact hcaret

theorem isBehind_of_modifierRound {n : Nat} {q : Query} {s : Text} {p : Nat × Query} {r : Text}
    (h : modifierRound n q s = some (.done p r)) : IsBehind r s := by
  fun_cases modifierRound n q s with
  | case1 t q' hq =>
    rw [modifierRound, hq] at h
    cases h
    exact isBehind_cons (splitNumber_suffix t) _
  | case5 t hempty hn =>
    rw [modifierRound, if_neg hempty, if_neg hn] at h
    cases h
    exact isBehind_cons (splitNumber_suffix t) _
  | _ => simp_all [modifierRound]

/-- Whether two consumers do the same on every end of a text. -/
def AgreeInside (p p' : Consumer Query) (s : Text) : Prop := ∀ r, r <:+ s → p.run r = p'.run r

/-- Whether two consumers do the same behind the first character of a text. -/
def AgreeBehind (p p' : Consumer Query) (s : Text) : Prop :=
  ∀ r, IsBehind r s → p.run r = p'.run r

section

variable {p p' : Consumer Query} {s t : Text}

theorem AgreeInside.mono (h : AgreeInside p p' s) (ht : t <:+ s) : AgreeInside p p' t :=
  fun r hr => h r (hr.trans ht)

theorem AgreeBehind.mono (h : AgreeBehind p p' s) (ht : t <:+ s) : AgreeBehind p p' t :=
  fun r hr => h r (hr.of_suffix ht)

theorem AgreeBehind.agreeInside (h : AgreeBehind p p' s) (ht : IsBehind t s) :
    AgreeInside p p' t :=
  fun r hr => h r ⟨hr.trans ht.suffix, Nat.lt_of_le_of_lt hr.length_le ht.shorter⟩

section

variable {next : Text → Option Text}
  {next_le : ∀ {s t}, next s = some t → t.length ≤ s.length} {combine : List Query → Query}
  (hp : p.StaysInside) (hnext : ∀ s u, next s = some u → u <:+ s)

include hp hnext

theorem repeated_congr (h : AgreeInside p p' s) :
    p.repeated next next_le s = p'.repeated next next_le s := by
  fun_induction Consumer.repeated p next next_le s with
  | case1 s hn => rw [repeated_of_none hn]
  | case2 s u hn fault left hrun =>
    rw [repeated_of_some hn, ← h u (hnext s u hn), hrun, Outcome.andThen_stopped]
  | case3 s u hn a r hrun hlt ih =>
    have hr := (isBehind_of_next hp hnext hn hrun).suffix
    rw [repeated_of_some hn, ← h u (hnext s u hn), hrun, Outcome.andThen_done, ih (h.mono hr)]

theorem separated_congr (h : AgreeInside p p' s) :
    (p.separated next next_le combine).run s = (p'.separated next next_le combine).run s := by
  have hin := hp s
  simp only [Consumer.separated, ← h s List.suffix_rfl]
  cases hrun : p.run s with
  | stopped fault left => rw [Outcome.andThen_stopped, Outcome.andThen_stopped]
  | done a r =>
    rw [hrun] at hin
    rw [Outcome.andThen_done, Outcome.andThen_done, repeated_congr hp hnext (h.mono hin)]

end

theorem isBehind_of_prefixOperator? {wrap : Query → Query} {r : Text}
    (h : prefixOperator? s = some (wrap, r)) : IsBehind r s := by
  unfold prefixOperator? at h
  split at h
  · rename_i hkeyword
    cases h
    rw [atKeyword, Bool.and_eq_true, List.isPrefixOf_iff_prefix] at hkeyword
    have hlen : 3 ≤ s.length := hkeyword.1.length_le
    exact ⟨List.drop_suffix _ _, by rw [List.length_drop]; omega⟩
  · split at h <;> cases h <;> exact isBehind_cons List.suffix_rfl _

variable (hp : p.StaysInside)

include hp

theorem disjunction_congr (h : AgreeInside p p' s) :
    (disjunction p).run s = (disjunction p').run s := by
  refine separated_congr (staysInside_conjunction hp) (fun _ _ => nextAlternative_suffix) ?_
  exact fun r hr => separated_congr hp (fun _ _ => nextConjunct_suffix) (h.mono hr)

theorem groupRest_congr (h : AgreeInside p p' s) (opening : Text) :
    groupRest (some p) opening s = groupRest (some p') opening s := by
  simp only [groupRest]
  split
  · rfl
  · rw [disjunction_congr hp (h.mono (skipBlank_suffix s))]

variable {ends : Consumer Text}

theorem fieldBase_congr (h : AgreeBehind p p' s) :
    fieldBase ends (some p) s = fieldBase ends (some p') s := by
  unfold fieldBase
  split
  · rfl
  · rename_i t
    have ht : IsBehind t ('(' :: t) := isBehind_cons List.suffix_rfl _
    rw [groupRest_congr hp (h.agreeInside ht)]
  · rfl

theorem fieldRest_congr (h : AgreeBehind p p' s) (name : Text) :
    fieldRest ends (some p) name s = fieldRest ends (some p') name s := by
  rw [fieldRest, fieldRest, fieldBase_congr hp (h.mono (skipBlank_suffix s))]

theorem primary_congr (h : AgreeBehind p p' s) :
    primary ends (some p) s = primary ends (some p') s := by
  unfold primary
  split
  · rfl
  · rename_i t
    have ht : IsBehind t ('(' :: t) := isBehind_cons List.suffix_rfl _
    rw [groupRest_congr hp (h.agreeInside ht)]
  · rename_i c t _
    split
    · rfl
    · split
      · rfl
      · have hin := isInside_readWord (c :: t)
        cases hread : readWord (c :: t) with
        | stopped fault left => rw [Outcome.andThen_stopped, Outcome.andThen_stopped]
        | done w r =>
          rw [hread] at hin
          rw [Outcome.andThen_done, Outcome.andThen_done]
          split
          · rename_i r
            have hr : r <:+ c :: t := (List.suffix_cons ':' r).trans hin
            exact fieldRest_congr hp (h.mono hr) w
          · rfl

/-- Operands inside of an operand are read behind at least one of its characters. -/
theorem operandRun_congr (h : AgreeBehind p p' s) :
    operandRun ends (some p) s = operandRun ends (some p') s := by
  have hskip := h.mono (skipBlank_suffix s)
  simp only [operandRun]
  split
  · rename_i wrap r hwrap
    rw [hskip r (isBehind_of_prefixOperator? hwrap)]
  · rw [primary_congr hp hskip]

end

/-- A limit that is no less than the length of the text is never noticed. -/
theorem operand_run_eq {ends : Consumer Text} (hends : ends.StaysInside) {m n : Nat} {s : Text}
    (hm : s.length ≤ m) (hn : s.length ≤ n) :
    (operand ends m).run s = (operand ends n).run s := by
  -- Each level takes at least one character, so the text is used up before the smaller limit.
  induction m generalizing n s with
  | zero =>
    obtain rfl := List.eq_nil_of_length_eq_zero (Nat.le_zero.1 hm)
    cases n <;> rfl
  | succ m ih =>
    cases n with
    | zero =>
      obtain rfl := List.eq_nil_of_length_eq_zero (Nat.le_zero.1 hn)
      rfl
    | succ n =>
      refine operandRun_congr (staysInside_operand hends m) fun r hr => ?_
      have hlt := hr.shorter
      exact ih (by omega) (by omega)

theorem eq_quoted_append_of_leaf {s : Text} {q : Query} {r : Text}
    (h : leaf anyEnd ('"' :: s) = .done q r) :
    ∃ c, q = .phrase c ∧ '"' :: s = quoted c ++ r := by
  obtain ⟨c, hc, rfl⟩ := Outcome.map_eq_done.1 h
  obtain ⟨rfl, -⟩ := isEnclosed_of_readDelimited hc
  exact ⟨c, rfl, by simp [quoted]⟩

theorem eq_regex_append_of_leaf {s : Text} {q : Query} {r : Text}
    (h : leaf anyEnd ('/' :: s) = .done q r) :
    ∃ p, q = .regex p ∧ '/' :: s = (Query.regex p).text ++ r := by
  obtain ⟨p, hp, rfl⟩ := Outcome.map_eq_done.1 h
  obtain ⟨rfl, -⟩ := isEnclosed_of_readDelimited hp
  exact ⟨p, rfl, by simp [text]⟩

theorem eq_append_of_endpoint {s t r : Text} (h : endpoint s = .done t r) :
    s = quoted t ++ r ∨ s = t ++ r := by
  unfold endpoint at h
  split at h
  · obtain ⟨rfl, -⟩ := isEnclosed_of_readDelimited h
    exact .inl (by simp [quoted])
  · obtain ⟨rfl, -⟩ := isWord_of_readWord h
    exact .inr rfl

/-- Loops consume: a round that goes on leaves less of the text. -/
structure RoundsConsume : Prop where
  blanks : ReadsOn fun s => some (s.takeWhile isBlank, skipBlank s)
  words : ReadsOn splitWord?
  delimited : ∀ d, ReadsOn (splitDelimited? d)
  numbers : ReadsOn fun s => some (splitNumber s)
  conjuncts : ∀ depth s u q r, nextConjunct s = some u → (operand anyEnd depth).run u = .done q r →
    IsBehind r s
  alternatives : ∀ depth s u q r, nextAlternative s = some u →
    (conjunction (operand anyEnd depth)).run u = .done q r → IsBehind r s
  modifiers : ∀ n q s, (Query.modifiers n q s = match modifierRound n q s with
      | none => .done q s
      | some o => o.andThen fun p r => Query.modifiers p.1 p.2 r) ∧
    ∀ p r, modifierRound n q s = some (.done p r) → IsBehind r s

theorem roundsConsume : RoundsConsume where
  blanks := readsOn_span isBlank
  words := readsOn_splitWord?
  delimited := readsOn_splitDelimited?
  numbers := readsOn_span fun c => c.isDigit || c == '.'
  conjuncts depth _ _ _ _ hu hr := isBehind_of_next (staysInside_operand staysInside_anyEnd depth)
    (fun _ _ => nextConjunct_suffix) hu hr
  alternatives depth _ _ _ _ hu hr := isBehind_of_next
    (staysInside_conjunction (staysInside_operand staysInside_anyEnd depth))
    (fun _ _ => nextAlternative_suffix) hu hr
  modifiers n q s := ⟨modifiers_eq_of_round n q s, fun _ _ => isBehind_of_modifierRound⟩

/-- Recursion consumes: what is read inside of an operand stands behind some of its characters, and
recursion would end without a limit. -/
structure RecursionConsumes : Prop where
  inner : ∀ depth p s, AgreeBehind (operand anyEnd depth) p s →
    (operand anyEnd (depth + 1)).run s = operandRun anyEnd (some p) s
  limit : ∀ m n s, s.length ≤ m → s.length ≤ n →
    (operand anyEnd m).run s = (operand anyEnd n).run s

theorem recursionConsumes : RecursionConsumes where
  inner depth _ _ h := operandRun_congr (staysInside_operand staysInside_anyEnd depth) h
  limit _ _ _ hm hn := operand_run_eq staysInside_anyEnd hm hn

/-- Every part of the parser stops inside of its text, and a group inside of the text from its
opening parenthesis on. -/
structure StopsInside : Prop where
  disjunctions : ∀ depth, (disjunction (operand anyEnd depth)).StaysInside
  conjunctions : ∀ depth, (conjunction (operand anyEnd depth)).StaysInside
  operands : ∀ depth, (operand anyEnd depth).StaysInside
  groups : ∀ depth s, (groupRest (some (operand anyEnd depth)) ('(' :: s) s).IsInside ('(' :: s)
  fields : ∀ depth name s, (fieldRest anyEnd (some (operand anyEnd depth)) name s).IsInside s
  leaves : ∀ s, (leaf anyEnd s).IsInside s
  endpoints : ∀ s, (endpoint s).IsInside s
  words : ∀ s, (readWord s).IsInside s
  modifiers : ∀ n q s, (modifiers n q s).IsInside s

theorem stopsInside : StopsInside := by
  have hoperand := staysInside_operand staysInside_anyEnd
  have hinner : ∀ depth p, some (operand anyEnd depth) = some p → p.StaysInside := by
    rintro depth p ⟨⟩
    exact hoperand depth
  exact {
    disjunctions := fun depth => staysInside_disjunction (hoperand depth)
    conjunctions := fun depth => staysInside_conjunction (hoperand depth)
    operands := hoperand
    groups := fun depth s =>
      isInside_groupRest (hinner depth) List.suffix_rfl (List.suffix_cons '(' s)
    fields := fun depth => isInside_fieldRest staysInside_anyEnd (hinner depth)
    leaves := isInside_leaf staysInside_anyEnd
    endpoints := isInside_endpoint
    words := isInside_readWord
    modifiers := isInside_modifiers }

/-- What is taken out of a text is a part of it. -/
structure TakesParts : Prop where
  phrase : ∀ s q r, leaf anyEnd ('"' :: s) = .done q r →
    ∃ c, q = .phrase c ∧ '"' :: s = quoted c ++ r
  regex : ∀ s q r, leaf anyEnd ('/' :: s) = .done q r →
    ∃ p, q = .regex p ∧ '/' :: s = (Query.regex p).text ++ r
  endpoint : ∀ s t r, endpoint s = .done t r → s = quoted t ++ r ∨ s = t ++ r
  word : ∀ s w r, readWord s = .done w r → s = w ++ r ∧ w ≠ []
  number : ∀ s, s = (splitNumber s).1 ++ (splitNumber s).2

theorem takesParts : TakesParts where
  phrase _ _ _ h := eq_quoted_append_of_leaf h
  regex _ _ _ h := eq_regex_append_of_leaf h
  endpoint _ _ _ h := eq_append_of_endpoint h
  word _ _ _ h := by
    obtain ⟨hs, hword, -⟩ := isWord_of_readWord h
    exact ⟨hs, hword.bare.1⟩
  number _ := List.takeWhile_append_dropWhile.symm

/-- Whether an error is a parse error that tells and prints the place between two parts of a text.
-/
structure TellsPlace (e : SearchError) (fault : SyntaxFault) (before after : Text) : Prop where
  kind : e.report.kind = .parse
  offset : e.report.offset = some before.length
  le_length : before.length ≤ (before ++ after).length
  printed : ∃ digits, e.report.message = fault.text ++ " (at character ".toList ++ digits ++ [')'] ∧
    Text.nat? digits = some before.length

theorem nat?_ofNat (n : Nat) : Text.nat? (Text.ofNat n) = some n := by
  have hpad : Text.padded 0 n = Text.ofNat n := by simp [Text.padded]
  have hdigits := Text.isDigit_padded 0 n
  have hvalue := Text.digitsValue_padded 0 n
  rw [hpad] at hdigits hvalue
  have hpos : 0 < (Text.ofNat n).length := Nat.length_toDigits_pos
  rw [Text.nat?_of_isDigit hpos hdigits, hvalue]

theorem tellsPlace_badSyntax (fault : SyntaxFault) (before after : Text) :
    TellsPlace (.badSyntax fault before.length) fault before after where
  kind := rfl
  offset := rfl
  le_length := by simp
  printed := ⟨Text.ofNat before.length, rfl, nat?_ofNat before.length⟩

/-- A query that is refused is refused at a place of its text. -/
theorem parse_of_outcome_stopped {t : Text} {fault : SyntaxFault} {left : Nat}
    (h : outcome anyEnd t = .stopped fault left) :
    ∃ before after, t = before ++ after ∧ after.length = left ∧
      parse t = .error (.badSyntax fault before.length) := by
  have hin := isInside_outcome staysInside_anyEnd t
  rw [h] at hin
  obtain ⟨after, ⟨before, rfl⟩, hlen⟩ := hin
  have hplace : (before ++ after).length - left = before.length := by simp [← hlen]
  exact ⟨before, after, rfl, hlen, by simp only [parse, parseWith, h, hplace]⟩

/-- The parser stops on every text with a tree or with an error that tells a place of the text. -/
theorem parse_stops (t : Text) :
    RoundsConsume ∧ RecursionConsumes ∧ StopsInside ∧ TakesParts ∧
      ((∃ q, parse t = .ok q) ∨ ∃ e fault before after, t = before ++ after ∧
        outcome anyEnd t = .stopped fault after.length ∧ parse t = .error e ∧
        TellsPlace e fault before after) := by
  refine ⟨roundsConsume, recursionConsumes, stopsInside, takesParts, ?_⟩
  cases ho : outcome anyEnd t with
  | done q r => exact .inl ⟨q, by rw [parse, parseWith, ho]⟩
  | stopped fault left =>
    obtain ⟨before, after, ht, rfl, hparse⟩ := parse_of_outcome_stopped ho
    exact .inr ⟨_, fault, before, after, ht, rfl, hparse, tellsPlace_badSyntax _ _ _⟩

/-- A round over operands, and a group that is not closed, which is told at its parenthesis. -/
theorem parse_stops_unclosedGroup :
    nextConjunct " b (c".toList = some "b (c".toList ∧
      (operand anyEnd maxNesting).run "b (c".toList = .done (.word "b".toList) " (c".toList ∧
      IsBehind " (c".toList " b (c".toList ∧
      ∃ e before after, "a b (c".toList = before ++ after ∧
        parse "a b (c".toList = .error e ∧ before.length = 4 ∧
        TellsPlace e .unclosedGroup before after := by
  have hnext : nextConjunct " b (c".toList = some "b (c".toList := by decide
  have hrun : (operand anyEnd maxNesting).run "b (c".toList =
      .done (.word "b".toList) " (c".toList := by decide +kernel
  have hstopped : outcome anyEnd "a b (c".toList = .stopped .unclosedGroup 2 := by decide +kernel
  obtain ⟨hrounds, -, -, -, hresult⟩ := parse_stops "a b (c".toList
  refine ⟨hnext, hrun, hrounds.conjuncts _ _ _ _ _ hnext hrun, ?_⟩
  rcases hresult with ⟨q, hq⟩ | ⟨e, fault, before, after, ht, ho, hparse, hplace⟩
  · rw [parse, parseWith, hstopped] at hq
    cases hq
  · rw [hstopped] at ho
    have hlen := congrArg List.length ht
    simp only [List.length_append] at hlen
    injection ho with hfault hafter
    subst hfault
    refine ⟨e, before, after, ht, hparse, ?_, hplace⟩
    have htotal : "a b (c".toList.length = 6 := rfl
    omega

end Query

end SampleSearch
