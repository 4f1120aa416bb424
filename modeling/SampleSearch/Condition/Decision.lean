import SampleSearch.Condition.Truth

/-! # Deciding conditions

Whether a condition is true, or false, is decided from left to right and only as far as the answer
needs it. A malformed document that is reached on the way leaves the condition undecided, one that
is not reached does no harm, and neither does a pattern that is too long.
-/

namespace SampleSearch

variable {α : Type}

/-- Whether one of a list has a property, up to the first that has it or is undecided. -/
def someHolds? (p : α → Option Bool) : List α → Option Bool
  | [] => some false
  | a :: as =>
    match p a with
    | none => none
    | some true => some true
    | some false => someHolds? p as

/-- The members of a list that have a property, none of which may be undecided. -/
def selectWith? (p : α → Option Bool) : List α → Option (List α)
  | [] => some []
  | a :: as =>
    match p a with
    | none => none
    | some chosen => (selectWith? p as).map fun rest => if chosen then a :: rest else rest

theorem someHolds?_of_decided {p : α → Option Bool} {q : α → Bool} {as : List α}
    (h : ∀ a ∈ as, p a = some (q a)) : someHolds? p as = some (as.any q) := by
  induction as with
  | nil => rfl
  | cons a as ih =>
    have ha := h a (by simp)
    have has := ih fun b hb => h b (List.mem_cons_of_mem a hb)
    cases hq : q a <;> simp [someHolds?, ha, hq, has]

theorem selectWith?_of_decided {p : α → Option Bool} {q : α → Bool} {as : List α}
    (h : ∀ a ∈ as, p a = some (q a)) : selectWith? p as = some (as.filter q) := by
  induction as with
  | nil => rfl
  | cons a as ih =>
    have ha := h a (by simp)
    have has := ih fun b hb => h b (List.mem_cons_of_mem a hb)
    cases hq : q a <;> simp [selectWith?, ha, hq, has]

namespace Condition

def attained (wanted : Bool) (truth : Option Truth) : Option Bool :=
  truth.map fun t => t == .ofBool wanted

mutual

/-- Whether a condition has a wanted truth, true or false. -/
def attains? (db : Database) (wanted : Bool) (s : Scope) : Condition → Option Bool
  | const b => some (b == wanted)
  | compare o c l => attained wanted (compareTruth? s o c l)
  | like o pattern => attained wanted (likeTruth? s o pattern)
  | among o literals => attained wanted (amongTruth? s o literals)
  | all parts => if wanted then allAttain? db wanted s parts else anyAttains? db wanted s parts
  | any parts => if wanted then anyAttains? db wanted s parts else allAttain? db wanted s parts
  | negated c => attains? db (!wanted) s c
  | related r outer c =>
    (someHolds? (fun row =>
      if belongs r outer (row.enter s) then attains? db true (row.enter s) c else some false)
      (db.relatedRows r)).map fun found => found == wanted

def allAttain? (db : Database) (wanted : Bool) (s : Scope) : List Condition → Option Bool
  | [] => some true
  | c :: cs =>
    match attains? db wanted s c with
    | none => none
    | some false => some false
    | some true => allAttain? db wanted s cs

def anyAttains? (db : Database) (wanted : Bool) (s : Scope) : List Condition → Option Bool
  | [] => some false
  | c :: cs =>
    match attains? db wanted s c with
    | none => none
    | some true => some true
    | some false => anyAttains? db wanted s cs

end

end Condition

end SampleSearch
