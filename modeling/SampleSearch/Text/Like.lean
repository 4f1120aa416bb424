import SampleSearch.Text.Octets

/-! # Pattern matching of the database

In a pattern a percent sign matches any run of characters, an underscore matches exactly one, and
a backslash makes the next character stand for itself. The whole text has to match, and letters
match in their own case only. A backslash with nothing behind it matches no text.

Texts end in front of their first zero character here, and code points that are no characters, the
halves of surrogate pairs and the two at the end of the basic plane, are not told apart: they all
match the replacement character and each other. The text is matched against one slot of the
pattern after the other, keeping all that may be left of it; that is the same as trying every way
to spell it.
-/

namespace SampleSearch

/-- The replacement character stands for what is no character. -/
def glyph (code : Nat) : Nat :=
  if (0xD800 ≤ code && code < 0xE000) || code == 0xFFFE || code == 0xFFFF then 0xFFFD else code

def glyphs (codes : List Nat) : List Nat := (codes.takeWhile (· != 0)).map glyph

inductive Slot
  | one (g : Nat)
  | anyOne
  | anyRun
  | never
  deriving DecidableEq, Repr

namespace Slot

/-- The slots of a pattern; 37 is the percent sign, 92 the backslash and 95 the underscore. -/
def ofGlyphs : List Nat → List Slot
  | [] => []
  | [92] => [never]
  | 92 :: g :: r => one g :: ofGlyphs r
  | 37 :: r => anyRun :: ofGlyphs r
  | 95 :: r => anyOne :: ofGlyphs r
  | g :: r => one g :: ofGlyphs r

def rests : Slot → List Nat → List (List Nat)
  | one g, d :: s => if g = d then [s] else []
  | one _, [] => []
  | anyOne, _ :: s => [s]
  | anyOne, [] => []
  | anyRun, s => Text.suffixes s
  | never, _ => []

def spell : List Slot → List Nat → Bool
  | [], s => s.isEmpty
  | p :: ps, s => (rests p s).any (spell ps)

/-- What may be left behind a slot, the longest first. All of it are ends of the first, so that any
run leaves the ends of the first. -/
def step : List (List Nat) → Slot → List (List Nat)
  | [], _ => []
  | longest :: _, anyRun => Text.suffixes longest
  | left, p => left.flatMap (rests p)

def matched (ps : List Slot) (s : List Nat) : Bool := (ps.foldl step [s]).any List.isEmpty

/-- Every member of a list is an end of those in front of it. -/
def Nested (left : List (List Nat)) : Prop := left.Pairwise fun a b => b <:+ a

theorem nested_suffixes (s : List Nat) : Nested (Text.suffixes s) := by
  induction s with
  | nil => simp [Nested, Text.suffixes]
  | cons c s ih =>
    refine List.pairwise_cons.2 ⟨fun t ht => ?_, ih⟩
    exact (Text.mem_suffixes.1 ht).trans (List.suffix_cons c s)

theorem suffix_of_mem_rests {p : Slot} {a t : List Nat} (h : t ∈ rests p a) : t <:+ a := by
  cases p with
  | one g =>
    cases a with
    | nil => simp [rests] at h
    | cons d s =>
      simp only [rests] at h
      split at h
      · rw [List.mem_singleton.1 h]
        exact List.suffix_cons d s
      · simp at h
  | anyOne =>
    cases a with
    | nil => simp [rests] at h
    | cons d s =>
      rw [List.mem_singleton.1 h]
      exact List.suffix_cons d s
  | anyRun => exact Text.mem_suffixes.1 h
  | never => simp [rests] at h

/-- A slot that is no run leaves one rest at most, so it keeps the order of ends. -/
theorem suffix_of_rests {p : Slot} (hp : p ≠ anyRun) {a b s t : List Nat} (hab : b <:+ a)
    (hs : s ∈ rests p a) (ht : t ∈ rests p b) : t <:+ s := by
  have tail : ∀ {c : Nat} {r u : List Nat}, b <:+ c :: r → u ∈ rests p b → u <:+ r := by
    intro c r u hb hu
    rcases List.suffix_cons_iff.1 hb with rfl | h
    · cases p with
      | one g =>
        simp only [rests] at hu
        split at hu
        · exact (List.mem_singleton.1 hu).symm ▸ List.suffix_refl r
        · simp at hu
      | anyOne => exact (List.mem_singleton.1 hu).symm ▸ List.suffix_refl r
      | anyRun => exact absurd rfl hp
      | never => simp [rests] at hu
    · exact (suffix_of_mem_rests hu).trans h
  cases a with
  | nil => cases p <;> simp_all [rests]
  | cons c r =>
    have hs' : s = r := by
      cases p with
      | one g =>
        simp only [rests] at hs
        split at hs
        · exact List.mem_singleton.1 hs
        · simp at hs
      | anyOne => exact List.mem_singleton.1 hs
      | anyRun => exact absurd rfl hp
      | never => simp [rests] at hs
    rw [hs']
    exact tail hab ht

theorem nested_rests {p : Slot} (hp : p ≠ anyRun) (a : List Nat) : Nested (rests p a) := by
  cases p with
  | one g =>
    cases a with
    | nil => simp [Nested, rests]
    | cons d s =>
      simp only [Nested, rests]
      split <;> simp
  | anyOne => cases a <;> simp [Nested, rests]
  | anyRun => exact absurd rfl hp
  | never => simp [Nested, rests]

theorem nested_flatMap {p : Slot} (hp : p ≠ anyRun) {left : List (List Nat)} (h : Nested left) :
    Nested (left.flatMap (rests p)) := by
  induction left with
  | nil => simp [Nested]
  | cons a left ih =>
    obtain ⟨ha, hl⟩ := List.pairwise_cons.1 h
    rw [List.flatMap_cons]
    refine List.pairwise_append.2 ⟨nested_rests hp a, ih hl, fun s hs t ht => ?_⟩
    obtain ⟨b, hb, htb⟩ := List.mem_flatMap.1 ht
    exact suffix_of_rests hp (ha b hb) hs htb

theorem nested_step {left : List (List Nat)} (h : Nested left) (p : Slot) :
    Nested (step left p) := by
  cases left with
  | nil => simp [step, Nested]
  | cons a left =>
    cases p with
    | one g => exact nested_flatMap (by simp) h
    | anyOne => exact nested_flatMap (by simp) h
    | anyRun => exact nested_suffixes a
    | never => exact nested_flatMap (by simp) h

theorem mem_step {left : List (List Nat)} (h : Nested left) (p : Slot) (t : List Nat) :
    t ∈ step left p ↔ ∃ a ∈ left, t ∈ rests p a := by
  cases left with
  | nil => simp [step]
  | cons a left =>
    cases p with
    | one g => exact List.mem_flatMap
    | anyOne => exact List.mem_flatMap
    | anyRun =>
      constructor
      · intro ht
        exact ⟨a, by simp, ht⟩
      · rintro ⟨b, hb, ht⟩
        rcases List.mem_cons.1 hb with rfl | hb
        · exact ht
        · exact Text.mem_suffixes.2
            ((Text.mem_suffixes.1 ht).trans ((List.pairwise_cons.1 h).1 b hb))
    | never => exact List.mem_flatMap

theorem any_foldl_step (ps : List Slot) {left : List (List Nat)} (h : Nested left) :
    (ps.foldl step left).any List.isEmpty = left.any (spell ps) := by
  induction ps generalizing left with
  | nil => rfl
  | cons p ps ih =>
    rw [List.foldl_cons, ih (nested_step h p), Bool.eq_iff_iff]
    simp only [List.any_eq_true, spell, mem_step h p]
    constructor
    · rintro ⟨t, ⟨a, ha, ht⟩, hs⟩
      exact ⟨a, ha, t, ht, hs⟩
    · rintro ⟨a, ha, t, ht, hs⟩
      exact ⟨t, ⟨a, ha, ht⟩, hs⟩

theorem matched_eq_spell (ps : List Slot) (s : List Nat) : matched ps s = spell ps s := by
  rw [matched, any_foldl_step ps (by simp [Nested])]
  simp

end Slot

def Text.like (pattern : Text) (codes : List Nat) : Bool :=
  Slot.matched (Slot.ofGlyphs (glyphs pattern.codes)) (glyphs codes)

def maxPatternSize : Nat := 50000

example : Text.like "a\\_%".toList (Text.codes "a_bc".toList) = true := by decide
example : Text.like "a\\_%".toList (Text.codes "axbc".toList) = false := by decide
example : Text.like "%\uFFFD".toList [0x61, 0xD800] = true := by decide

end SampleSearch
