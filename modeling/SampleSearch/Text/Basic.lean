/-! # Texts

A text is a list of code points, so lengths, offsets and the order of texts are those of lists.
The numerals read here are ASCII digits only.
-/

namespace SampleSearch

abbrev Text := List Char

namespace Text

def ofNat (n : Nat) : Text := Nat.toDigits 10 n

def ofInt : Int → Text
  | .ofNat n => ofNat n
  | .negSucc n => '-' :: ofNat (n + 1)

def padded (width n : Nat) : Text :=
  List.replicate (width - (ofNat n).length) '0' ++ ofNat n

/-- Number written by a list of ASCII digits. -/
def digitsValue (digits : Text) : Nat :=
  digits.foldl (fun n c => 10 * n + (c.toNat - '0'.toNat)) 0

@[simp] theorem digitsValue_nil : digitsValue [] = 0 := rfl

def nat? (t : Text) : Option Nat :=
  if !t.isEmpty && t.all Char.isDigit then some (digitsValue t) else none

theorem nat?_nil : nat? [] = none := rfl

def joined (separator : Text) (parts : List Text) : Text :=
  separator.intercalate parts

def quoted (t : Text) : Text := '\'' :: t ++ ['\'']

/-- What may be left of a list after some run at its front, the longest first. -/
def suffixes {α : Type} : List α → List (List α)
  | [] => [[]]
  | c :: s => (c :: s) :: suffixes s

theorem mem_suffixes {α : Type} {t s : List α} : t ∈ suffixes s ↔ t <:+ s := by
  induction s with
  | nil => simp [suffixes]
  | cons c s ih => simp [suffixes, ih, List.suffix_cons_iff]

def maxSigned64 : Nat := 9223372036854775807

end Text

end SampleSearch
