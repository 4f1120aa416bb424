import SampleSearch.Proofs.StatementLimits

/-!
# Values and placeholders

Every value of a statement is bound to a placeholder of its own, and the text around the
placeholders depends on the shape of the condition alone. What a user writes into a query therefore
never becomes part of the text of a statement.
-/

namespace SampleSearch

/-- The operand without its path. -/
def Operand.skeleton : Operand → Operand
  | column c => .column c
  | document c _ => .document c []

namespace Condition

mutual

/-- A condition with all values, patterns and paths blanked. -/
def skeleton : Condition → Condition
  | const b => const b
  | compare o comparison _ => compare o.skeleton comparison (.int 0)
  | like o _ => like o.skeleton []
  | among o ls => among o.skeleton (ls.map fun _ => .int 0)
  | all parts => all (skeletons parts)
  | any parts => any (skeletons parts)
  | negated c => negated (skeleton c)
  | related r outer c => related r outer (skeleton c)

def skeletons : List Condition → List Condition
  | [] => []
  | c :: cs => skeleton c :: skeletons cs

end

/-- Conditions that differ in values, patterns and paths only. -/
def SameShape (c d : Condition) : Prop := c.skeleton = d.skeleton

end Condition

namespace Fragment

/-- There are as many placeholders in the text as there are values. -/
def IsBound (f : Fragment) : Prop := f.text.count '?' = f.parameters.length

theorem isBound_plain {t : Text} (h : t.count '?' = 0) : (plain t).IsBound := h

theorem isBound_placeholder (p : Parameter) : (placeholder p).IsBound := rfl

theorem IsBound.append {f g : Fragment} (hf : f.IsBound) (hg : g.IsBound) : (f ++ g).IsBound := by
  unfold IsBound at hf hg ⊢
  rw [text_append, parameters_append, List.count_append, List.length_append, hf, hg]

theorem IsBound.append_plain {f : Fragment} (hf : f.IsBound) {t : Text} (h : t.count '?' = 0) :
    (f ++ plain t).IsBound := hf.append (isBound_plain h)

theorem IsBound.append_placeholder {f : Fragment} (hf : f.IsBound) (p : Parameter) :
    (f ++ placeholder p).IsBound := hf.append (isBound_placeholder p)

theorem isBound_joined {separator : Text} (hs : separator.count '?' = 0) {fs : List Fragment}
    (h : ∀ f ∈ fs, f.IsBound) : (joined separator fs).IsBound := by
  induction fs with
  | nil => rfl
  | cons f fs ih =>
    rw [List.forall_mem_cons] at h
    cases fs with
    | nil => exact h.1
    | cons g gs => exact (h.1.append_plain hs).append (ih h.2)

theorem IsBound.parenthesized {f : Fragment} (h : f.IsBound) : (parenthesized f).IsBound :=
  ((isBound_plain (by decide)).append h).append_plain (by decide)

theorem count_columnText (c : Column) : c.text.count '?' = 0 := by cases c <;> decide

theorem count_relationText (r : Relation) : (relationText r).count '?' = 0 := by
  cases r <;> decide

theorem count_sign (c : Comparison) : (' ' :: c.sign ++ [' ']).count '?' = 0 := by
  cases c <;> decide

theorem isBound_operand (o : Operand) : (operand o).IsBound := by
  cases o with
  | column c => exact isBound_plain (count_columnText c)
  | document c path =>
    have hcolumn : (columnText c).IsBound := isBound_plain (count_columnText c)
    exact (isBound_plain (by decide)).append hcolumn |>.append_plain (by decide)
      |>.append_placeholder _ |>.append_plain (by decide) |>.append hcolumn
      |>.append_plain (by decide) |>.append_placeholder _ |>.append_plain (by decide)

mutual

theorem isBound_ofCondition (c : Condition) : (ofCondition c).IsBound := by
  cases c with
  | const b => cases b <;> exact isBound_plain (by decide)
  | compare o comparison l =>
    exact ((isBound_operand o).append_plain (count_sign comparison)).append_placeholder _
  | like o pattern =>
    exact ((isBound_operand o).append_plain (by decide)).append_placeholder _
      |>.append_plain (by decide)
  | among o ls =>
    cases ls with
    | nil => exact isBound_plain (by decide)
    | cons l ls =>
      have hvalues :
          (joined ", ".toList ((l :: ls).map fun l => placeholder l.parameter)).IsBound :=
        isBound_joined (by decide) (by simp [isBound_placeholder])
      exact ((isBound_operand o).append_plain (by decide)).append hvalues
        |>.append_plain (by decide)
  | all cs =>
    cases cs with
    | nil => exact isBound_plain (by decide)
    | cons c cs => exact (isBound_joined (by decide) (isBound_ofConditions (c :: cs))).parenthesized
  | any cs =>
    cases cs with
    | nil => exact isBound_plain (by decide)
    | cons c cs => exact (isBound_joined (by decide) (isBound_ofConditions (c :: cs))).parenthesized
  | negated c =>
    exact ((isBound_plain (by decide)).append (isBound_ofCondition c)).append_plain (by decide)
  | related r outer c =>
    have hhead : (plain ("EXISTS (SELECT 1 FROM ".toList ++ relationText r ++ " WHERE ".toList ++
        r.link.text ++ " = ".toList ++ outer.text ++ " AND ".toList)).IsBound := by
      apply isBound_plain
      simp only [List.count_append, count_relationText, count_columnText]
      decide
    exact (hhead.append (isBound_ofCondition c)).append_plain (by decide)

theorem isBound_ofConditions (cs : List Condition) : ∀ f ∈ ofConditions cs, f.IsBound := by
  cases cs with
  | nil => simp [ofConditions]
  | cons c cs =>
    rw [ofConditions, List.forall_mem_cons]
    exact ⟨isBound_ofCondition c, isBound_ofConditions cs⟩

end

theorem count_selectedColumns : selectedColumns.count '?' = 0 := by
  unfold selectedColumns
  rewrite [String.toList_append, String.toList_append, String.toList_append, String.toList_append]
  decide +kernel

theorem count_objectRows : objectRows.count '?' = 0 := by
  unfold objectRows
  rewrite [String.toList_append, String.toList_append, String.toList_append]
  decide +kernel

theorem isBound_filtered {head : Text} (h : head.count '?' = 0) (c : Condition) :
    (filtered head c).IsBound := by
  refine (isBound_plain ?_).append (isBound_ofCondition c)
  rw [List.count_append, List.count_append, List.count_append, h, count_objectRows]
  decide

theorem isBound_selection (p : Plan) : (selection p).IsBound := by
  have hhead : ("SELECT DISTINCT ".toList ++ selectedColumns).count '?' = 0 := by
    rw [List.count_append, count_selectedColumns]
    decide
  have horder : ("\nORDER BY ".toList ++ orderText p.sort ++ "\nLIMIT ".toList).count '?' = 0 := by
    cases p.sort <;> decide
  exact (isBound_filtered hhead p.condition).append_plain horder |>.append_placeholder _

theorem isBound_counting (p : Plan) : (counting p).IsBound :=
  isBound_filtered (by decide) p.condition

theorem isBound_positionLookup (dhash : Text) (v : Viewer) : (positionLookup dhash v).IsBound :=
  ((isBound_plain (by decide)).append_placeholder _).append_plain (by decide) |>.append
    (isBound_ofCondition v.access)

theorem text_operand_skeleton (o : Operand) : (operand o.skeleton).text = (operand o).text := by
  cases o <;> rfl

theorem text_placeholder (p : Parameter) : (placeholder p).text = ['?'] := rfl

theorem text_parenthesized (f : Fragment) : (parenthesized f).text = '(' :: f.text ++ [')'] := rfl

theorem text_chain_congr (separator : Text) {fs gs : List Fragment}
    (h : fs.map Fragment.text = gs.map Fragment.text) :
    (parenthesized (joined separator fs)).text = (parenthesized (joined separator gs)).text := by
  rw [text_parenthesized, text_parenthesized, text_joined, text_joined, h]

mutual

theorem text_ofCondition_skeleton (c : Condition) :
    (ofCondition c.skeleton).text = (ofCondition c).text := by
  cases c with
  | const b => simp only [Condition.skeleton]
  | compare o comparison l =>
    simp only [Condition.skeleton, ofCondition, text_append, text_operand_skeleton,
      text_placeholder]
  | like o pattern =>
    simp only [Condition.skeleton, ofCondition, text_append, text_operand_skeleton,
      text_placeholder]
  | among o ls =>
    cases ls with
    | nil => rfl
    | cons l ls =>
      simp only [Condition.skeleton, List.map_cons, ofCondition, text_append, text_joined,
        text_operand_skeleton, List.map_map, Function.comp_def, text_placeholder]
  | all cs =>
    have hparts := text_ofConditions_skeletons cs
    cases cs with
    | nil => rfl
    | cons c cs => exact text_chain_congr _ hparts
  | any cs =>
    have hparts := text_ofConditions_skeletons cs
    cases cs with
    | nil => rfl
    | cons c cs => exact text_chain_congr _ hparts
  | negated c =>
    simp only [Condition.skeleton, ofCondition, text_append, text_ofCondition_skeleton c]
  | related r outer c =>
    simp only [Condition.skeleton, ofCondition, text_append, text_ofCondition_skeleton c]

theorem text_ofConditions_skeletons (cs : List Condition) :
    (ofConditions (Condition.skeletons cs)).map Fragment.text =
      (ofConditions cs).map Fragment.text := by
  cases cs with
  | nil => rfl
  | cons c cs =>
    simp only [Condition.skeletons, ofConditions, List.map_cons, text_ofCondition_skeleton c,
      text_ofConditions_skeletons cs]

end

theorem text_ofCondition_congr {c d : Condition} (h : c.SameShape d) :
    (ofCondition c).text = (ofCondition d).text := by
  rw [← text_ofCondition_skeleton c, h, text_ofCondition_skeleton d]

theorem text_filtered_congr (head : Text) {c d : Condition} (h : c.SameShape d) :
    (filtered head c).text = (filtered head d).text := by
  rw [filtered, filtered, text_append, text_append, text_ofCondition_congr h]

theorem text_selection_congr {p q : Plan} (h : p.condition.SameShape q.condition)
    (hsort : p.sort = q.sort) : (selection p).text = (selection q).text := by
  simp only [selection, text_append, text_placeholder, text_filtered_congr _ h, hsort]

theorem text_counting_congr {p q : Plan} (h : p.condition.SameShape q.condition) :
    (counting p).text = (counting q).text := by
  simp only [counting, text_filtered_congr _ h]

theorem text_positionLookup_congr (dhash other : Text) (v : Viewer) :
    (positionLookup dhash v).text = (positionLookup other v).text := by
  simp only [positionLookup, text_append, text_placeholder]

/-- The text of a statement has a placeholder for every value, and nothing else of the values:
conditions of one shape have one text, and so have the statements of plans with such conditions,
whatever their limits, and the look-ups of any two hashes. -/
theorem text_carries_no_values :
    (∀ c, (ofCondition c).IsBound) ∧
    (∀ c d, c.SameShape d → (ofCondition c).text = (ofCondition d).text) ∧
    (∀ p, (selection p).IsBound ∧ (counting p).IsBound) ∧
    (∀ p q : Plan, p.condition.SameShape q.condition → p.sort = q.sort →
      (selection p).text = (selection q).text ∧ (counting p).text = (counting q).text) ∧
    (∀ dhash v, (positionLookup dhash v).IsBound) ∧
    ∀ dhash other v, (positionLookup dhash v).text = (positionLookup other v).text :=
  ⟨isBound_ofCondition, fun _ _ => text_ofCondition_congr,
    fun p => ⟨isBound_selection p, isBound_counting p⟩,
    fun _ _ h hsort => ⟨text_selection_congr h hsort, text_counting_congr h⟩,
    isBound_positionLookup, text_positionLookup_congr⟩

/-- A value that looks like a piece of a statement does not get into its text. -/
theorem text_carries_no_values_quote :
    (Condition.among (.document .configDocument "$.\"a\"".toList)
        [.text "' OR 1 = 1".toList, .int 3]).SameShape
      (.among (.document .configDocument "$".toList) [.int 0, .text ['?']]) ∧
    (ofCondition (.among (.document .configDocument "$.\"a\"".toList)
        [.text "' OR 1 = 1".toList, .int 3])).text =
      (ofCondition (.among (.document .configDocument "$".toList) [.int 0, .text ['?']])).text :=
  ⟨rfl, text_carries_no_values.2.1 _ _ rfl⟩

end Fragment

end SampleSearch
