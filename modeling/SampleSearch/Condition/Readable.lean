import SampleSearch.Condition.Decision

/-! # Readable conditions

A condition is readable for an object if no pattern is too long and every document that it looks
into can be read. Such a condition is decided, and the decision is its truth.
-/

namespace SampleSearch.Condition

mutual

/-- Whether nothing can keep a condition from being decided. -/
def isReadable (db : Database) (s : Scope) : Condition → Bool
  | const _ => true
  | compare o _ _ => (o.value? s).isSome
  | like o pattern => pattern.octets.length ≤ maxPatternSize && (o.value? s).isSome
  | among o _ => (o.value? s).isSome
  | all parts => allReadable db s parts
  | any parts => allReadable db s parts
  | negated c => isReadable db s c
  | related r outer c =>
    (db.relatedRows r).all fun row =>
      !belongs r outer (row.enter s) || isReadable db (row.enter s) c

def allReadable (db : Database) (s : Scope) : List Condition → Bool
  | [] => true
  | c :: cs => isReadable db s c && allReadable db s cs

end

variable {db : Database} {s : Scope}

theorem allReadable_iff {cs : List Condition} :
    allReadable db s cs = true ↔ ∀ c ∈ cs, isReadable db s c = true := by
  induction cs with
  | nil => simp [allReadable]
  | cons c cs ih => simp [allReadable, ih]

theorem truthOfAll_eq_yes {cs : List Condition} :
    truthOfAll db s cs = .yes ↔ ∀ c ∈ cs, truth db s c = .yes := by
  induction cs with
  | nil => simp [truthOfAll]
  | cons c cs ih => simp [truthOfAll, Truth.both_eq_yes, ih]

theorem truthOfAny_eq_yes {cs : List Condition} :
    truthOfAny db s cs = .yes ↔ ∃ c ∈ cs, truth db s c = .yes := by
  induction cs with
  | nil => simp [truthOfAny]
  | cons c cs ih => simp [truthOfAny, Truth.either_eq_yes, ih]

mutual

theorem attains?_of_isReadable {s : Scope} (wanted : Bool) {c : Condition}
    (h : isReadable db s c = true) :
    attains? db wanted s c = some (truth db s c == .ofBool wanted) := by
  cases c with
  | const b => cases b <;> cases wanted <;> simp [attains?, truth, Truth.ofBool]
  | compare o c l =>
    obtain ⟨v, hv⟩ := Option.isSome_iff_exists.1 (show (o.value? s).isSome = true from h)
    simp [attains?, truth, compareTruth?, hv, attained]
  | like o pattern =>
    obtain ⟨hp, ho⟩ : pattern.octets.length ≤ maxPatternSize ∧ (o.value? s).isSome := by
      simpa [isReadable] using h
    obtain ⟨v, hv⟩ := Option.isSome_iff_exists.1 ho
    simp [attains?, truth, likeTruth?, hv, attained, Nat.not_lt.2 hp]
  | among o ls =>
    obtain ⟨v, hv⟩ := Option.isSome_iff_exists.1 (show (o.value? s).isSome = true from h)
    unfold attains? truth amongTruth?
    split <;> simp [hv, attained]
  | all cs =>
    have hcs : allReadable db s cs = true := by simpa [isReadable] using h
    cases wanted with
    | true => simpa [attains?, truth, Truth.ofBool] using allAttain?_yes hcs
    | false => simpa [attains?, truth, Truth.ofBool] using anyAttains?_no hcs
  | any cs =>
    have hcs : allReadable db s cs = true := by simpa [isReadable] using h
    cases wanted with
    | true => simpa [attains?, truth, Truth.ofBool] using anyAttains?_yes hcs
    | false => simpa [attains?, truth, Truth.ofBool] using allAttain?_no hcs
  | negated c =>
    have hc : isReadable db s c = true := by simpa [isReadable] using h
    rw [attains?, truth, attains?_of_isReadable (!wanted) hc]
    cases truth db s c <;> cases wanted <;> rfl
  | related r outer c =>
    have hr : ∀ row ∈ db.relatedRows r,
        belongs r outer (row.enter s) = false ∨ isReadable db (row.enter s) c = true := by
      simpa [isReadable] using h
    rw [attains?, truth]
    rw [someHolds?_of_decided (q := fun row =>
      belongs r outer (row.enter s) && truth db (row.enter s) c == .yes)]
    · cases List.any (db.relatedRows r) _ <;> cases wanted <;> rfl
    · intro row hrow
      cases hb : belongs r outer (row.enter s)
      · simp
      · have hc := (hr row hrow).resolve_left (by simp [hb])
        simp [attains?_of_isReadable true hc, Truth.ofBool]

theorem allAttain?_yes {s : Scope} {cs : List Condition} (h : allReadable db s cs = true) :
    allAttain? db true s cs = some (truthOfAll db s cs == .yes) := by
  cases cs with
  | nil => rfl
  | cons c cs =>
    obtain ⟨hc, hcs⟩ : isReadable db s c = true ∧ allReadable db s cs = true := by
      simpa [allReadable] using h
    rw [allAttain?, attains?_of_isReadable true hc, allAttain?_yes hcs, truthOfAll]
    cases truth db s c <;> cases truthOfAll db s cs <;> rfl

theorem allAttain?_no {s : Scope} {cs : List Condition} (h : allReadable db s cs = true) :
    allAttain? db false s cs = some (truthOfAny db s cs == .no) := by
  cases cs with
  | nil => rfl
  | cons c cs =>
    obtain ⟨hc, hcs⟩ : isReadable db s c = true ∧ allReadable db s cs = true := by
      simpa [allReadable] using h
    rw [allAttain?, attains?_of_isReadable false hc, allAttain?_no hcs, truthOfAny]
    cases truth db s c <;> cases truthOfAny db s cs <;> rfl

theorem anyAttains?_yes {s : Scope} {cs : List Condition} (h : allReadable db s cs = true) :
    anyAttains? db true s cs = some (truthOfAny db s cs == .yes) := by
  cases cs with
  | nil => rfl
  | cons c cs =>
    obtain ⟨hc, hcs⟩ : isReadable db s c = true ∧ allReadable db s cs = true := by
      simpa [allReadable] using h
    rw [anyAttains?, attains?_of_isReadable true hc, anyAttains?_yes hcs, truthOfAny]
    cases truth db s c <;> cases truthOfAny db s cs <;> rfl

theorem anyAttains?_no {s : Scope} {cs : List Condition} (h : allReadable db s cs = true) :
    anyAttains? db false s cs = some (truthOfAll db s cs == .no) := by
  cases cs with
  | nil => rfl
  | cons c cs =>
    obtain ⟨hc, hcs⟩ : isReadable db s c = true ∧ allReadable db s cs = true := by
      simpa [allReadable] using h
    rw [anyAttains?, attains?_of_isReadable false hc, anyAttains?_no hcs, truthOfAll]
    cases truth db s c <;> cases truthOfAll db s cs <;> rfl

end

end SampleSearch.Condition
