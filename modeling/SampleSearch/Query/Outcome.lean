import SampleSearch.Error

/-! # Outcomes of parsing

A parser gets the rest of a query. It is done with a value and what is left behind it, or it is
stopped with a fault at the place where a number of characters is left. A consumer takes at least
one character whenever it is done, so it can be repeated.
-/

namespace SampleSearch

inductive Outcome (α : Type)
  | done (value : α) (rest : Text)
  | stopped (fault : SyntaxFault) (left : Nat)
  deriving DecidableEq, Repr

namespace Outcome

variable {α β : Type}

/-- Stops in front of a text. -/
def fail (fault : SyntaxFault) (s : Text) : Outcome α := stopped fault s.length

def andThen (o : Outcome α) (f : α → Text → Outcome β) : Outcome β :=
  match o with
  | done a r => f a r
  | stopped fault left => stopped fault left

def map (f : α → β) (o : Outcome α) : Outcome β := o.andThen fun a r => done (f a) r

@[simp] theorem andThen_done (a : α) (r : Text) (f : α → Text → Outcome β) :
    (done a r).andThen f = f a r := rfl

@[simp] theorem andThen_stopped (fault : SyntaxFault) (left : Nat) (f : α → Text → Outcome β) :
    (stopped fault left).andThen f = stopped fault left := rfl

@[simp] theorem map_done (f : α → β) (a : α) (r : Text) : (done a r).map f = done (f a) r := rfl

@[simp] theorem map_stopped (f : α → β) (fault : SyntaxFault) (left : Nat) :
    (stopped fault left).map f = stopped fault left := rfl

@[simp] theorem fail_ne_done (fault : SyntaxFault) (s : Text) (a : α) (r : Text) :
    fail fault s ≠ done a r := by simp [fail]

theorem andThen_eq_done {o : Outcome α} {f : α → Text → Outcome β} {b : β} {r : Text} :
    o.andThen f = done b r ↔ ∃ a t, o = done a t ∧ f a t = done b r := by
  cases o with
  | done a t =>
    constructor
    · intro h
      exact ⟨a, t, rfl, h⟩
    · rintro ⟨a', t', h, hf⟩
      cases h
      exact hf
  | stopped => simp [andThen]

theorem map_eq_done {o : Outcome α} {f : α → β} {b : β} {r : Text} :
    o.map f = done b r ↔ ∃ a, o = done a r ∧ f a = b := by
  cases o with
  | done a t =>
    constructor
    · intro h
      cases h
      exact ⟨a, rfl, rfl⟩
    · rintro ⟨a', h, rfl⟩
      cases h
      rfl
  | stopped => simp [map]

end Outcome

structure Consumer (α : Type) where
  run : Text → Outcome α
  shorter : ∀ {s a r}, run s = .done a r → r.length < s.length

namespace Consumer

variable {α : Type}

/-- Runs a consumer at each place that `next` finds, until it finds none. -/
def repeated (p : Consumer α) (next : Text → Option Text)
    (next_le : ∀ {s t}, next s = some t → t.length ≤ s.length) (s : Text) : Outcome (List α) :=
  match hn : next s with
  | none => .done [] s
  | some t =>
    match hp : p.run t with
    | .stopped fault left => .stopped fault left
    | .done a r =>
      have : r.length < s.length := Nat.lt_of_lt_of_le (p.shorter hp) (next_le hn)
      (repeated p next next_le r).map (a :: ·)
termination_by s.length

theorem repeated_le (p : Consumer α) (next : Text → Option Text)
    (next_le : ∀ {s t}, next s = some t → t.length ≤ s.length) {s : Text} {as : List α} {r : Text}
    (h : p.repeated next next_le s = .done as r) : r.length ≤ s.length := by
  fun_induction repeated p next next_le s generalizing as with
  | case1 s hn => simp_all
  | case2 => simp at h
  | case3 s t hn a r' hp hlt ih =>
    obtain ⟨bs, hb, _⟩ := Outcome.map_eq_done.1 h
    exact Nat.le_trans (ih hb) (Nat.le_of_lt hlt)

/-- One or more parts with separators between them. A single part stands for itself. -/
def separated (p : Consumer α) (next : Text → Option Text)
    (next_le : ∀ {s t}, next s = some t → t.length ≤ s.length) (combine : List α → α) :
    Consumer α where
  run s := (p.run s).andThen fun a r =>
    (p.repeated next next_le r).map fun as => if as.isEmpty then a else combine (a :: as)
  shorter h := by
    obtain ⟨a, t, ha, h⟩ := Outcome.andThen_eq_done.1 h
    obtain ⟨as, has, _⟩ := Outcome.map_eq_done.1 h
    exact Nat.lt_of_le_of_lt (repeated_le p next next_le has) (p.shorter ha)

end Consumer

end SampleSearch
