/-! # Blank characters

The characters with the White_Space property of Unicode: 25 code points, which is more than the
six ASCII ones.
-/

namespace SampleSearch

/-- Ranges of code points, both ends included, that are white space. -/
def blankRanges : List (Nat × Nat) :=
  [(0x0009, 0x000D), (0x0020, 0x0020), (0x0085, 0x0085), (0x00A0, 0x00A0), (0x1680, 0x1680),
   (0x2000, 0x200A), (0x2028, 0x2029), (0x202F, 0x202F), (0x205F, 0x205F), (0x3000, 0x3000)]

def isBlank (c : Char) : Bool :=
  blankRanges.any fun r => r.1 ≤ c.toNat && c.toNat ≤ r.2

example : (blankRanges.map fun r => r.2 + 1 - r.1).sum = 25 := by decide

theorem isBlank_of_isWhitespace {c : Char} (h : c.isWhitespace = true) : isBlank c = true := by
  simp only [Char.isWhitespace, Bool.or_eq_true, decide_eq_true_eq] at h
  rcases h with ((rfl | rfl) | rfl) | rfl <;> decide

/-- Drops the blank characters at the front. -/
def skipBlank (s : List Char) : List Char := s.dropWhile isBlank

theorem length_skipBlank_le (s : List Char) : (skipBlank s).length ≤ s.length :=
  (List.dropWhile_suffix _).length_le

@[simp] theorem skipBlank_nil : skipBlank [] = [] := rfl

theorem skipBlank_cons (c : Char) (s : List Char) :
    skipBlank (c :: s) = if isBlank c then skipBlank s else c :: s := by
  simp only [skipBlank, List.dropWhile_cons]

end SampleSearch
