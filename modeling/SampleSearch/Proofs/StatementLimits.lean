import SampleSearch.Sql.Limits

/-!
# Limits of statements

Whether a search is accepted depends on the size of its condition alone: the text and the number
of values of the fragment, the heights and the stack. Conditions of one size can stand for each
other at the end of a conjunction, and the conditions of any two pivots have one size. A search
with a small condition is accepted.
-/

namespace SampleSearch

theorem Text.octets_append (s t : Text) : octets (s ++ t) = octets s ++ octets t := by
  induction s with
  | nil => rfl
  | cons c s ih => rw [List.cons_append, octets_cons, octets_cons, ih, List.append_assoc]

theorem Text.length_octets_le (t : Text) : t.octets.length ≤ 4 * t.length := by
  induction t with
  | nil => simp
  | cons c t ih =>
    have hone : (octetsOf c.toNat).length ≤ 4 := by
      unfold octetsOf
      repeat' split
      all_goals simp
    rw [octets_cons, List.length_append, List.length_cons]
    omega

namespace Fragment

theorem text_joined (separator : Text) (fs : List Fragment) :
    (joined separator fs).text = Text.joined separator (fs.map Fragment.text) := by
  induction fs with
  | nil => rfl
  | cons f fs ih =>
    cases fs with
    | nil => simp [joined, Text.joined]
    | cons g gs =>
      have hjoin : Text.joined separator ((f :: g :: gs).map Fragment.text) =
          f.text ++ separator ++ Text.joined separator ((g :: gs).map Fragment.text) := by
        simp [Text.joined, List.intercalate]
      rw [hjoin, ← ih]
      rfl

theorem parameters_joined (separator : Text) (fs : List Fragment) :
    (joined separator fs).parameters = fs.flatMap Fragment.parameters := by
  induction fs with
  | nil => rfl
  | cons f fs ih =>
    cases fs with
    | nil => simp [joined]
    | cons g gs =>
      have hjoin : (joined separator (f :: g :: gs)).parameters =
          f.parameters ++ [] ++ (joined separator (g :: gs)).parameters := rfl
      rw [hjoin, ih, List.append_nil]
      rfl

theorem ofConditions_eq_map (cs : List Condition) : ofConditions cs = cs.map ofCondition := by
  induction cs with
  | nil => rfl
  | cons c cs ih => rw [ofConditions, ih, List.map_cons]

end Fragment

namespace Condition

theorem chainHeight_append (h : Nat) (cs ds : List Condition) :
    chainHeight h (cs ++ ds) = chainHeight (chainHeight h cs) ds := by
  induction cs generalizing h with
  | nil => rfl
  | cons c cs ih => rw [List.cons_append, chainHeight, chainHeight, ih]

theorem innerHeightOfAll_append (cs ds : List Condition) :
    innerHeightOfAll (cs ++ ds) = max (innerHeightOfAll cs) (innerHeightOfAll ds) := by
  induction cs with
  | nil => simp [innerHeightOfAll]
  | cons c cs ih => rw [List.cons_append, innerHeightOfAll, innerHeightOfAll, ih, Nat.max_assoc]

theorem chainStackSize_append (cs ds : List Condition) :
    chainStackSize (cs ++ ds) = max (chainStackSize cs) (chainStackSize ds) := by
  induction cs with
  | nil => simp [chainStackSize]
  | cons c cs ih => rw [List.cons_append, chainStackSize, chainStackSize, ih, Nat.max_assoc]

/-- Conditions that the limits do not tell apart. -/
structure SameSize (c d : Condition) : Prop where
  text : (Fragment.ofCondition c).text = (Fragment.ofCondition d).text
  parameters : (Fragment.ofCondition c).parameters.length =
    (Fragment.ofCondition d).parameters.length
  height : c.height = d.height
  innerHeight : c.innerHeight = d.innerHeight
  stackSize : c.stackSize = d.stackSize

/-- Parts of one size can stand for each other at the end of a conjunction. -/
theorem SameSize.all_append {c d : Condition} (h : SameSize c d) (cs : List Condition) :
    SameSize (.all (cs ++ [c])) (.all (cs ++ [d])) := by
  have htext : ((cs ++ [c]).map Fragment.ofCondition).map Fragment.text =
      ((cs ++ [d]).map Fragment.ofCondition).map Fragment.text := by
    simp [h.text]
  have hparameters : (((cs ++ [c]).map Fragment.ofCondition).flatMap Fragment.parameters).length =
      (((cs ++ [d]).map Fragment.ofCondition).flatMap Fragment.parameters).length := by
    simp [h.parameters]
  have hinner : innerHeightOfAll (cs ++ [c]) = innerHeightOfAll (cs ++ [d]) := by
    simp only [innerHeightOfAll_append, innerHeightOfAll, h.innerHeight]
  cases cs with
  | nil =>
    constructor
    · simp [Fragment.ofCondition, Fragment.ofConditions, Fragment.joined, Fragment.parenthesized,
        h.text]
    · simp [Fragment.ofCondition, Fragment.ofConditions, Fragment.joined, Fragment.parenthesized,
        h.parameters]
    · simp [Condition.height, chainHeight, h.height]
    · simpa only [Condition.innerHeight] using hinner
    · simp [Condition.stackSize, chainStackSize, h.stackSize]
  | cons b cs =>
    constructor
    · simp only [List.cons_append, Fragment.ofCondition, Fragment.parenthesized,
        Fragment.text_append, Fragment.text_joined, Fragment.ofConditions_eq_map]
      simp only [List.cons_append] at htext
      rw [htext]
    · simp only [List.cons_append, Fragment.ofCondition, Fragment.parenthesized,
        Fragment.parameters_append, Fragment.parameters_joined, Fragment.ofConditions_eq_map,
        List.length_append]
      simp only [List.cons_append] at hparameters
      rw [hparameters]
    · simp only [List.cons_append, Condition.height, chainHeight_append, chainHeight, h.height]
    · simpa only [Condition.innerHeight] using hinner
    · simp only [List.cons_append, Condition.stackSize, chainStackSize_append, chainStackSize,
        h.stackSize]

end Condition

namespace Fragment

theorem isAccepted_congr {f g : Fragment} {leading : Nat} {c d : Condition}
    (h : c.SameSize d) (htext : f.text = g.text)
    (hparameters : f.parameters.length = g.parameters.length) :
    f.isAccepted leading c = g.isAccepted leading d := by
  have hjoined : c.joinedHeight = d.joinedHeight := by
    rw [Condition.joinedHeight, Condition.joinedHeight, h.height]
  rw [isAccepted, isAccepted, htext, hparameters, hjoined, h.innerHeight, h.stackSize]

/-- Whether a search is accepted depends on the size of its condition. -/
theorem searchIsAccepted_congr {kind : Kind} {c d : Condition} {sort : SortOrder} {limit : Nat}
    (h : c.SameSize d) :
    searchIsAccepted ⟨kind, c, sort, limit⟩ = searchIsAccepted ⟨kind, d, sort, limit⟩ := by
  have hcounting : (counting ⟨kind, c, sort, limit⟩).isAccepted leadingParts c =
      (counting ⟨kind, d, sort, limit⟩).isAccepted leadingParts d := by
    apply isAccepted_congr h
    · simp only [counting, filtered, text_append, h.text]
    · simp only [counting, filtered, parameters_append, List.length_append, h.parameters]
  have hselection : (selection ⟨kind, c, sort, limit⟩).isAccepted leadingParts c =
      (selection ⟨kind, d, sort, limit⟩).isAccepted leadingParts d := by
    apply isAccepted_congr h
    · simp only [selection, filtered, text_append, h.text]
    · simp only [selection, filtered, parameters_append, List.length_append, h.parameters]
  rw [searchIsAccepted, searchIsAccepted, hcounting, hselection]

theorem sameSize_afterPosition (sort : SortOrder) (p p' : Position) :
    (Plan.afterPosition sort p).SameSize (Plan.afterPosition sort p') := by
  cases sort <;> exact ⟨rfl, rfl, rfl, rfl, rfl⟩

/-- What stands in front of the condition of a selection. -/
def selectionHead : Text :=
  "SELECT DISTINCT ".toList ++ selectedColumns ++ "\nFROM ".toList ++ objectRows ++
    "\nWHERE ".toList

/-- What stands in front of the condition that is counted. -/
def countingHead : Text :=
  "SELECT COUNT(*) ".toList ++ "\nFROM ".toList ++ objectRows ++ "\nWHERE ".toList

theorem length_selectedColumns : selectedColumns.length ≤ 250 := by
  unfold selectedColumns
  rewrite [String.toList_append, String.toList_append, String.toList_append, String.toList_append]
  decide +kernel

theorem length_objectRows : objectRows.length ≤ 150 := by
  unfold objectRows
  rewrite [String.toList_append, String.toList_append, String.toList_append]
  decide +kernel

theorem length_heads : selectionHead.length ≤ 500 ∧ countingHead.length ≤ 500 := by
  have hcolumns := length_selectedColumns
  have hrows := length_objectRows
  have hwords : "SELECT DISTINCT ".toList.length ≤ 20 ∧ "SELECT COUNT(*) ".toList.length ≤ 20 ∧
      "\nFROM ".toList.length ≤ 10 ∧ "\nWHERE ".toList.length ≤ 10 := by decide
  unfold selectionHead countingHead
  rewrite [List.length_append, List.length_append, List.length_append, List.length_append,
    List.length_append, List.length_append, List.length_append]
  omega

theorem length_orderText (sort : SortOrder) : (orderText sort).length ≤ 40 := by
  cases sort <;> decide +kernel

end Fragment

namespace Plan

/-- Whether the condition of a plan is neither too high nor too deep. -/
def fits (p : Plan) : Bool :=
  p.condition.joinedHeight + p.condition.innerHeight ≤ Fragment.maxHeight &&
    Fragment.leadingParts + p.condition.stackSize ≤ Fragment.maxStackSize

/-- Whether a plan fits and has a condition that is far from being too long. -/
def isSmall (p : Plan) : Bool :=
  p.fits && (Fragment.ofCondition p.condition).text.octets.length ≤ 100000 &&
    (Fragment.ofCondition p.condition).parameters.length ≤ 10000

end Plan

namespace Fragment

theorem fits_of_searchIsAccepted {p : Plan} (h : searchIsAccepted p = true) : p.fits = true := by
  rw [searchIsAccepted, Bool.and_eq_true] at h
  have hcounting := h.1
  simp only [isAccepted, Bool.and_eq_true] at hcounting
  obtain ⟨⟨_, hheight⟩, hstack⟩ := hcounting
  rw [Plan.fits, Bool.and_eq_true]
  exact ⟨hheight, hstack⟩

/-- A search with a small condition is accepted. -/
theorem searchIsAccepted_of_isSmall {p : Plan} (h : p.isSmall = true) :
    searchIsAccepted p = true := by
  simp only [Plan.isSmall, Plan.fits, Bool.and_eq_true, decide_eq_true_eq] at h
  obtain ⟨⟨⟨hheight, hstack⟩, htext⟩, hparameters⟩ := h
  have hocts : ∀ t : Text, t.octets.length ≤ 4 * t.length := Text.length_octets_le
  have hheads := length_heads
  have hcounting : (counting p).text.octets.length ≤ maxLength ∧
      (counting p).parameters.length ≤ maxParameters := by
    have htext' : (counting p).text = countingHead ++ (ofCondition p.condition).text := rfl
    have hparameters' : (counting p).parameters = (ofCondition p.condition).parameters := rfl
    have h := hocts countingHead
    rw [htext', hparameters', Text.octets_append, List.length_append, maxLength, maxParameters]
    omega
  have hselection : (selection p).text.octets.length ≤ maxLength ∧
      (selection p).parameters.length ≤ maxParameters := by
    have htext' : (selection p).text = selectionHead ++ (ofCondition p.condition).text ++
        ("\nORDER BY ".toList ++ orderText p.sort ++ "\nLIMIT ".toList) ++ ['?'] := rfl
    have hparameters' : (selection p).parameters =
        (ofCondition p.condition).parameters ++ [] ++ [limitParameter p.limit] := rfl
    have h := hocts selectionHead
    have htail := hocts ("\nORDER BY ".toList ++ orderText p.sort ++ "\nLIMIT ".toList)
    have horder := length_orderText p.sort
    have hone := hocts ['?']
    rw [htext', hparameters', Text.octets_append, Text.octets_append, Text.octets_append]
    simp only [List.length_append, List.length_cons, List.length_nil, maxLength, maxParameters]
    simp only [List.length_append, List.length_cons, List.length_nil] at htail hone
    have hwords : "\nORDER BY ".toList.length ≤ 20 ∧ "\nLIMIT ".toList.length ≤ 20 := by decide
    omega
  simp only [searchIsAccepted, isAccepted, hcounting, hselection, hheight, hstack, decide_true,
    Bool.and_self]

end Fragment

end SampleSearch
