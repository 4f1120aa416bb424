import SampleSearch.Proofs.BoundKinds
import SampleSearch.Proofs.Literals

/-!
# Points as ranges

The range from a value to the same value says what the value says alone. For numbers, moments and
values in documents it is accepted if the value is, and it is then true, false and unknown of the
same objects, and looks into the same documents.

The converse fails for numbers: the ends of a range of numbers may have escapes, a number that
stands alone may not.
-/

namespace SampleSearch

namespace Text

theorem unescape_of_notMem {value : Text} (h : '\\' ∉ value) : unescape value = value := by
  induction value with
  | nil => rfl
  | cons c s ih =>
    rw [List.mem_cons, not_or] at h
    have hpieces : ∃ p : Piece, pieces (c :: s) = p :: pieces s ∧ p.char = c := by
      by_cases hs : c = '*'
      · subst hs
        exact ⟨.anyRun, rfl, rfl⟩
      · by_cases hq : c = '?'
        · subst hq
          exact ⟨.anyOne, rfl, rfl⟩
        · exact ⟨.literal c, pieces_plain (Ne.symm h.1) hs hq s, rfl⟩
    obtain ⟨p, hp, hc⟩ := hpieces
    rw [unescape, hp, List.map_cons, hc]
    exact congrArg (c :: ·) (ih h.2)

theorem nat?_of_mem {value : Text} (h : '\\' ∈ value) : nat? value = none := by
  have hall : value.all Char.isDigit = false := by
    rw [List.all_eq_false]
    exact ⟨'\\', h, by decide⟩
  simp [nat?, hall]

end Text

namespace Cell

/-- Neither on one side of a bound nor on the other is at it. -/
theorem stands_ge_both_le (c bound : Cell) :
    (c.stands .ge bound).both (c.stands .le bound) = c.stands .eq bound := by
  unfold stands
  cases c.compare? bound with
  | none => rfl
  | some o => cases o <;> rfl

end Cell

namespace Condition

/-- Whether two conditions can be decided for the same objects and have the same truth on them. -/
structure MeansSame (e e' : Condition) : Prop where
  isReadable : ∀ db s, e.isReadable db s = e'.isReadable db s
  truth : ∀ db s, e.truth db s = e'.truth db s

theorem MeansSame.refl (e : Condition) : e.MeansSame e := ⟨fun _ _ => rfl, fun _ _ => rfl⟩

theorem equals_meansSame_closed (o : Operand) (l : Literal) :
    (equals o l).MeansSame (conjoin [compare o .ge l, compare o .le l]) where
  isReadable db s := by
    simp [equals, isReadable, allReadable]
  truth db s := by
    rw [truth_conjoin, truthOfAll, truthOfAll, truthOfAll, truth_compare, truth_compare,
      Truth.both_yes, Cell.stands_ge_both_le, equals, truth_compare]

theorem equals_meansSame_orEqual (o : Operand) (l : Literal) :
    (equals o l).MeansSame (conjoin ([any [compare o .gt l, equals o l]] ++
      [any [compare o .lt l, equals o l]])) where
  isReadable db s := by
    simp [equals, isReadable, allReadable]
  truth db s := by
    rw [truth_conjoin, truthOfAll_append, Leaf.truth_orEqual o .gt .ge l Leaf.gt_either_eq,
      Leaf.truth_orEqual o .lt .le l Leaf.lt_either_eq, Cell.stands_ge_both_le, equals,
      truth_compare]

end Condition

def Range.point (value : Text) : Range := ⟨value, value, true, true⟩

def Strategy.takesRanges : Strategy → Bool
  | .integer _ => true
  | .moment _ => true
  | .document _ => true
  | _ => false

namespace Leaf

variable {path value : Text} {c : Column} {f : ResolvedField} {d : Directory} {v : Viewer}

theorem isUnbounded_eq_false (hplain : Text.hasWildcards value = false) :
    isUnbounded value = false := by
  rw [isUnbounded, beq_eq_false_iff_ne]
  rintro rfl
  cases hplain

theorem condition_integer_term (hf : f.strategy = .integer c) :
    (term value).condition d v f =
      (integer? f.path value).map fun n => .equals (.column c) (.int n) := by
  obtain ⟨path, kind, strategy, residual⟩ := f
  cases hf
  change (integer? path value >>= fun n => .ok (Condition.equals (.column c) (.int n))) = _
  cases integer? path value <;> rfl

theorem condition_integer_range (hf : f.strategy = .integer c) (r : Range) :
    (range r).condition d v f = integerRange f.path c r := by
  obtain ⟨path, kind, strategy, residual⟩ := f
  cases hf
  rfl

theorem integerRange_point (hplain : Text.hasWildcards value = false) :
    integerRange path c (.point value) = (integer? path (Text.unescape value)).map fun n =>
      .conjoin [.compare (.column c) .ge (.int n), .compare (.column c) .le (.int n)] := by
  rw [integerRange, Range.point, integerBound, integerBound, isUnbounded_eq_false hplain]
  cases integer? path (Text.unescape value) <;> rfl

theorem momentRange_point (hplain : Text.hasWildcards value = false) :
    momentRange path c (.point value) = momentTerm path c value := by
  rw [momentRange, Range.point, momentLow, momentHigh, isUnbounded_eq_false hplain, momentTerm,
    hplain]
  cases window? path (Text.unescape value) <;> rfl

theorem documentRange_point (o : Operand) (hplain : Text.hasWildcards value = false) :
    (textCondition o value).MeansSame (documentRange o (.point value)) := by
  have hbound : ∀ strict, documentBound o strict true value =
      [.any [.compare o strict (.text (Text.unescape value)),
        .equals o (.text (Text.unescape value))]] := by
    intro strict
    rw [documentBound, isUnbounded_eq_false hplain]
    rfl
  rw [textCondition, hplain, documentRange, Range.point, hbound, hbound]
  exact Condition.equals_meansSame_orEqual o _

theorem integer?_unescape (h : '\\' ∉ value) :
    integer? path (Text.unescape value) = integer? path value := by
  rw [Text.unescape_of_notMem h]

theorem kind_of_integer? {x : SearchError} (h : integer? path value = .error x) :
    x.kind = .unsupportedGrammar := by
  unfold integer? at h
  split at h
  · cases h
    rfl
  · split at h
    · cases h
    · cases h
      rfl

theorem notMem_of_integer? {n : Int} (h : integer? path value = .ok n) : '\\' ∉ value := by
  intro hmem
  rw [integer?, Text.nat?_of_mem hmem] at h
  cases h

theorem kind_of_window? {x : SearchError} (h : window? path value = .error x) :
    x.kind = .unsupportedGrammar := by
  unfold window? at h
  split at h
  · cases h
    rfl
  · cases h

theorem kind_of_momentTerm (hplain : Text.hasWildcards value = false) {x : SearchError}
    (h : momentTerm path c value = .error x) : x.kind = .unsupportedGrammar := by
  rw [momentTerm, hplain, if_neg Bool.false_ne_true] at h
  exact kind_of_window? (error_of_bind_ok h)

theorem labels_of_documentOperand {residual : List Text} {x : SearchError}
    (h : documentOperand c residual = .error x) : labels? residual = .error x :=
  error_of_bind_ok h

/-- Why a value is refused for a field: its form is not in the grammar, or a label of the path may
not be named. -/
def Refuses (f : ResolvedField) (x : SearchError) : Prop :=
  x.kind = .unsupportedGrammar ∨ labels? f.residual = .error x

/-- Whether a value has no escapes if the field is a number. -/
def IsBareNumber (f : ResolvedField) (value : Text) : Prop :=
  ∀ c, f.strategy = .integer c → '\\' ∉ value

section

variable (hf : f.strategy.takesRanges = true) (hplain : Text.hasWildcards value = false)

include hf hplain

theorem exists_point_of_term {e : Condition} (h : (term value).condition d v f = .ok e) :
    IsBareNumber f value ∧
      ∃ e', (range (.point value)).condition d v f = .ok e' ∧ e.MeansSame e' := by
  obtain ⟨path, kind, strategy, residual⟩ := f
  cases strategy with
  | integer c =>
    rw [condition_integer_term rfl] at h
    obtain ⟨n, hn, rfl⟩ := map_eq_ok_iff.1 h
    have hbare := notMem_of_integer? hn
    refine ⟨fun _ _ => hbare, _, ?_, Condition.equals_meansSame_closed _ _⟩
    rw [condition_integer_range rfl, integerRange_point hplain, integer?_unescape hbare, hn]
    rfl
  | moment c =>
    refine ⟨nofun, e, ?_, .refl e⟩
    change momentRange path c _ = _
    rw [momentRange_point hplain]
    exact h
  | document c =>
    obtain ⟨o, ho, h⟩ := bind_eq_ok_iff.1 h
    cases h
    refine ⟨nofun, _, ?_, documentRange_point o hplain⟩
    exact bind_eq_ok_iff.2 ⟨o, ho, rfl⟩
  | _ => cases hf

/-- If the range of a value is accepted, so is the value, unless it is an escaped number. -/
theorem exists_term_of_point (hbare : IsBareNumber f value) {e' : Condition}
    (h : (range (.point value)).condition d v f = .ok e') :
    ∃ e, (term value).condition d v f = .ok e := by
  obtain ⟨path, kind, strategy, residual⟩ := f
  cases strategy with
  | integer c =>
    rw [condition_integer_range rfl, integerRange_point hplain,
      integer?_unescape (hbare c rfl)] at h
    obtain ⟨n, hn, -⟩ := map_eq_ok_iff.1 h
    rw [condition_integer_term rfl, hn]
    exact ⟨_, rfl⟩
  | moment c =>
    change momentRange path c _ = _ at h
    rw [momentRange_point hplain] at h
    exact ⟨e', h⟩
  | document c =>
    obtain ⟨o, ho, -⟩ := bind_eq_ok_iff.1 h
    exact ⟨_, bind_eq_ok_iff.2 ⟨o, ho, rfl⟩⟩
  | _ => cases hf

theorem refuses_of_term {x : SearchError} (h : (term value).condition d v f = .error x) :
    Refuses f x := by
  obtain ⟨path, kind, strategy, residual⟩ := f
  cases strategy with
  | integer c =>
    rw [condition_integer_term rfl, map_eq_error_iff] at h
    exact .inl (kind_of_integer? h)
  | moment c => exact .inl (kind_of_momentTerm hplain h)
  | document c => exact .inr (labels_of_documentOperand (error_of_bind_ok h))
  | _ => cases hf

theorem refuses_of_point {x : SearchError}
    (h : (range (.point value)).condition d v f = .error x) : Refuses f x := by
  obtain ⟨path, kind, strategy, residual⟩ := f
  cases strategy with
  | integer c =>
    rw [condition_integer_range rfl, integerRange_point hplain, map_eq_error_iff] at h
    exact .inl (kind_of_integer? h)
  | moment c =>
    change momentRange path c _ = _ at h
    rw [momentRange_point hplain] at h
    exact .inl (kind_of_momentTerm hplain h)
  | document c => exact .inr (labels_of_documentOperand (error_of_bind_ok h))
  | _ => cases hf

end

/-- Nothing is known of a value that is missing in a document. -/
theorem truth_term_of_within_empty (hf : f.strategy = .document c)
    (hplain : Text.hasWildcards value = false) {e : Condition}
    (h : (term value).condition d v f = .ok e) {db : Database} {s : Scope}
    (hempty : (s c).within (f.residual.map Text.unescape) = .empty) :
    e.truth db s = .unknown := by
  obtain ⟨path, kind, strategy, residual⟩ := f
  cases hf
  obtain ⟨o, ho, h⟩ := bind_eq_ok_iff.1 h
  cases h
  obtain ⟨rfl, hfree⟩ := documentOperand_eq_ok ho
  rw [textCondition, hplain, if_neg Bool.false_ne_true, Condition.equals,
    Condition.truth_compare, Operand.cellIn_document hfree, hempty]
  rfl

end Leaf

theorem head?_segments {first : Text} {rest : List Text} {t : Text}
    (h : segments t = first :: rest) (hne : first ≠ []) : first.head? = t.head? := by
  cases t with
  | nil =>
    cases h
    rfl
  | cons c t =>
    rw [segments] at h
    split at h
    · cases h
      exact absurd rfl hne
    · split at h <;> cases h <;> rfl

theorem Kind.head_of_ofAlias {name : Text} {k : Kind} (h : ofAlias name = some k) :
    name.head?.all Char.isAlpha = true := by
  unfold ofAlias at h
  by_cases hobject : name = "object".toList
  · exact hobject ▸ rfl
  by_cases hfile : name = "file".toList
  · exact hfile ▸ rfl
  by_cases hconfig : name = "static".toList ∨ name = "config".toList
  · rcases hconfig with rfl | rfl <;> rfl
  by_cases hblob : name = "blob".toList
  · exact hblob ▸ rfl
  rw [if_neg hobject, if_neg hfile, if_neg hconfig, if_neg hblob] at h
  cases h

theorem FieldEntry.head_of_find? {kind : Kind} {name : Text} {e : FieldEntry}
    (h : find? kind name = some e) : name.head?.all Char.isAlpha = true := by
  have hall : ∀ e ∈ tables.flatten, e.name.head?.all Char.isAlpha = true := by decide
  obtain ⟨hmem, -, rfl⟩ := find?_eq_some h
  exact hall e hmem

namespace Query

open Lexeme

/-- The path of a field begins with a letter, and so with no prefix operator. -/
theorem opensOperand_of_resolve {name : Text} {b : Binding} {f : ResolvedField}
    (h : ResolvedField.resolve name b = .ok f) : OpensOperand name := by
  obtain ⟨hfull, field, residual, e, hsplit, he, -⟩ := ResolvedField.exists_entry_of_resolve h
  have hletter : name.head?.all Char.isAlpha = true := by
    cases hparts : segments name with
    | nil => exact absurd hparts (segments_ne_nil name)
    | cons first rest =>
      rw [hparts] at hfull hsplit
      have hne : first ≠ [] := by
        rintro rfl
        simp at hfull
      rw [← head?_segments hparts hne]
      rw [ResolvedField.splitKind] at hsplit
      cases hkind : Kind.ofAlias first with
      | some k => exact Kind.head_of_ofAlias hkind
      | none =>
        simp only [hkind, Prod.mk.injEq, List.cons.injEq] at hsplit
        obtain ⟨-, rfl, -⟩ := hsplit
        exact FieldEntry.head_of_find? he
  intro c hc hmem
  rw [hc, Option.all_some] at hletter
  simp only [List.mem_cons, List.not_mem_nil, or_false] at hmem
  rcases hmem with rfl | rfl | rfl | rfl <;> cases hletter

def ofPoint (name value : Text) : Query := .field name (.range (.point value))

def pointText (name value : Text) : Text :=
  name ++ ":[".toList ++ value ++ " TO ".toList ++ value ++ [']']

variable {name value : Text} {b b' : Binding} {f : ResolvedField} {d : Directory} {v : Viewer}

theorem parse_pointText (hname : IsWord name) (hopens : OpensOperand name) (hvalue : IsWord value) :
    parse (pointText name value) = .ok (ofPoint name value) := by
  have hbare : (range (.point value)).HasBareEnds := by
    intro e he
    obtain rfl : e = value := by simpa [rangeEnds, Range.point] using he
    exact hvalue.bare
  have hleaf : IsLeaf Enclosed (range (.point value)) := .range hvalue.isEnclosed hvalue.isEnclosed
  have htext : pointText name value = name ++ ':' :: (range (.point value)).text := by
    simp [pointText, text, rangeText, Range.point]
  rw [htext]
  exact parse_field_of_hasBareEnds hname hopens hleaf hbare

theorem compile_ofPoint (hresolve : ResolvedField.resolve name b = .ok f)
    (hbind : Kind.bind b f.kind = .ok b') :
    (ofPoint name value).compile d v b =
      ((Leaf.range (.point value)).condition d v f).map fun e => (e, b') :=
  compile_field (.range (.point value)) hresolve hbind (by rw [compileIn]; rfl)

/-- A word without wild cards for a field of numbers, moments or values in documents is accepted if
and only if the range from it to itself is, unless it is an escaped number. Both are refused for
their form or for a label of the path. If they are accepted they mean the same, and nothing is
known of a value that is missing in a document. -/
theorem point_range_means_term (hname : IsWord name)
    (hresolve : ResolvedField.resolve name b = .ok f) (hbind : Kind.bind b f.kind = .ok b')
    (hf : f.strategy.takesRanges = true) (hvalue : IsWord value)
    (hkeyword : isKeyword value = false) (hslash : value.head? ≠ some '/')
    (hplain : Text.hasWildcards value = false) :
    (parse (termText name value) = .ok (ofTerm name value) ∧
      parse (pointText name value) = .ok (ofPoint name value)) ∧
    ((∃ r, (ofTerm name value).compile d v b = .ok r) ↔
      (∃ r, (ofPoint name value).compile d v b = .ok r) ∧ Leaf.IsBareNumber f value) ∧
    (∀ x, (ofTerm name value).compile d v b = .error x ∨
      (ofPoint name value).compile d v b = .error x → Leaf.Refuses f x) ∧
    ∀ e k e' k', (ofTerm name value).compile d v b = .ok (e, k) →
      (ofPoint name value).compile d v b = .ok (e', k') →
      k = k' ∧ e.MeansSame e' ∧
        ∀ c db (s : Scope), f.strategy = .document c →
          (s c).within (f.residual.map Text.unescape) = .empty → e.truth db s = .unknown := by
  have hopens := opensOperand_of_resolve hresolve
  refine ⟨⟨parse_termText hname hopens hvalue hkeyword hslash,
    parse_pointText hname hopens hvalue⟩, ?_⟩
  rw [compile_ofTerm hresolve hbind, compile_ofPoint hresolve hbind]
  simp only [map_eq_ok_iff, map_eq_error_iff]
  refine ⟨⟨?_, ?_⟩, ?_, ?_⟩
  · rintro ⟨-, e, he, -⟩
    obtain ⟨hbare, e', he', -⟩ := Leaf.exists_point_of_term hf hplain he
    exact ⟨⟨_, e', he', rfl⟩, hbare⟩
  · rintro ⟨⟨-, e', he', -⟩, hbare⟩
    obtain ⟨e, he⟩ := Leaf.exists_term_of_point hf hplain hbare he'
    exact ⟨_, e, he, rfl⟩
  · rintro x (hx | hx)
    · exact Leaf.refuses_of_term hf hplain hx
    · exact Leaf.refuses_of_point hf hplain hx
  · rintro e k e' k' ⟨_, he, ⟨⟩⟩ ⟨_, he', ⟨⟩⟩
    obtain ⟨-, point, hpoint, hsame⟩ := Leaf.exists_point_of_term hf hplain he
    obtain rfl : point = e' := Except.ok.inj (hpoint.symm.trans he')
    exact ⟨rfl, hsame, fun c db s hc hempty =>
      Leaf.truth_term_of_within_empty hc hplain he hempty⟩

def portPath : Text := "static.cfg.port".toList

def escapedStar : Text := "\\*".toList

/-- An escaped star is a point like any other. -/
theorem point_range_means_term_escapedStar :
    parse "static.cfg.port:[\\* TO \\*]".toList = .ok (ofPoint portPath escapedStar) ∧
      ∃ e e', (ofTerm portPath escapedStar).compile Database.blank.directory
            (.ofUser ⟨1, ['u']⟩) none = .ok (e, some .config) ∧
        (ofPoint portPath escapedStar).compile Database.blank.directory
            (.ofUser ⟨1, ['u']⟩) none = .ok (e', some .config) ∧
        e.MeansSame e' ∧ e.truth .blank (fun _ => .empty) = .unknown := by
  have hresolve : ResolvedField.resolve portPath none =
      .ok ⟨portPath, .config, .document .configDocument, ["port".toList]⟩ := rfl
  have hvalue : IsWord escapedStar := ⟨by decide, rfl⟩
  obtain ⟨⟨-, hparse⟩, -, -, hsame⟩ := point_range_means_term
    (d := Database.blank.directory) (v := .ofUser ⟨1, ['u']⟩) ⟨by decide, rfl⟩ hresolve rfl rfl
    hvalue rfl (by decide) rfl
  obtain ⟨-, hmeans, hunknown⟩ := hsame _ (some .config) _ (some .config) rfl rfl
  exact ⟨hparse, _, _, rfl, rfl, hmeans, hunknown .configDocument .blank _ rfl rfl⟩

def sizePath : Text := "file.size".toList

def escapedFive : Text := "\\5".toList

/-- A number with an escape is refused, though the range from it to itself is not. -/
theorem escaped_number_is_refused :
    parse "file.size:\\5".toList = .ok (ofTerm sizePath escapedFive) ∧
      parse "file.size:[\\5 TO \\5]".toList = .ok (ofPoint sizePath escapedFive) ∧
      (ofTerm sizePath escapedFive).compile Database.blank.directory (.ofUser ⟨1, ['u']⟩) none =
        .error (.notNumeric sizePath escapedFive) ∧
      (ofPoint sizePath escapedFive).compile Database.blank.directory (.ofUser ⟨1, ['u']⟩) none =
        .ok (.all [.compare (.column .fileSize) .ge (.int 5),
          .compare (.column .fileSize) .le (.int 5)], some .file) := by
  have hname : IsWord sizePath := ⟨by decide, rfl⟩
  have hopens : OpensOperand sizePath := opensOperand_of_resolve (b := none) rfl
  have hvalue : IsWord escapedFive := ⟨by decide, rfl⟩
  have hresolve : ResolvedField.resolve sizePath none =
      .ok ⟨sizePath, .file, .integer .fileSize, []⟩ := rfl
  have hbind : Kind.bind none .file = .ok (some .file) := rfl
  have hterm : Leaf.integer? sizePath escapedFive = .error (.notNumeric sizePath escapedFive) := by
    rw [Leaf.integer?, Text.nat?_of_mem (by decide)]
  have hpoint : Leaf.integer? sizePath (Text.unescape escapedFive) = .ok 5 := by
    have hnumber : Text.nat? (Text.unescape escapedFive) = some 5 := rfl
    rw [Leaf.integer?, hnumber]
    exact if_pos (by decide)
  refine ⟨?_, ?_, ?_, ?_⟩
  · have htext : "file.size:\\5".toList = termText sizePath escapedFive := rfl
    rw [htext, parse_termText hname hopens hvalue rfl (by decide)]
  · have htext : "file.size:[\\5 TO \\5]".toList = pointText sizePath escapedFive := rfl
    rw [htext, parse_pointText hname hopens hvalue]
  · rw [compile_ofTerm hresolve hbind, Leaf.condition_integer_term rfl, hterm]
    rfl
  · rw [compile_ofPoint hresolve hbind, Leaf.condition_integer_range rfl,
      Leaf.integerRange_point rfl, hpoint]
    rfl

end Query

end SampleSearch
