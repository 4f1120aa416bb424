import SampleSearch.Text.Basic

/-! # Octets of texts

The UTF-8 form of a text, one octet for a code point below 128 and up to four for the others, and
the reading of one code point off a list of octets, which need not be a form of any text.
-/

namespace SampleSearch

namespace Text

def codes (t : Text) : List Nat := t.map Char.toNat

def octetsOf (n : Nat) : List Nat :=
  if n < 0x80 then [n]
  else if n < 0x800 then [0xC0 + n / 64, 0x80 + n % 64]
  else if n < 0x10000 then [0xE0 + n / 4096, 0x80 + n / 64 % 64, 0x80 + n % 64]
  else [0xF0 + n / 262144, 0x80 + n / 4096 % 64, 0x80 + n / 64 % 64, 0x80 + n % 64]

def octets (t : Text) : List Nat := t.codes.flatMap octetsOf

@[simp] theorem octets_nil : octets [] = [] := rfl

@[simp] theorem octets_cons (c : Char) (t : Text) :
    octets (c :: t) = octetsOf c.toNat ++ octets t := by
  simp [octets, codes]

theorem octetsOf_length_pos (n : Nat) : 0 < (octetsOf n).length := by
  unfold octetsOf
  repeat' split
  all_goals simp

end Text

def isContinuation (b : Nat) : Bool := 0x80 ≤ b && b < 0xC0

/-- What the first octet of a code point contributes. -/
def leadingBits (b : Nat) : Nat :=
  if b < 0xC0 then b else if b < 0xE0 then b % 32 else if b < 0xF0 then b % 16 else b % 8

/-- Reads a code point: its first octet and up to three that go on with it. -/
def readCode : List Nat → Nat × List Nat
  | [] => (0, [])
  | b :: r =>
    if b < 0xC0 then (b, r)
    else
      let more := (r.take 3).takeWhile isContinuation
      (more.foldl (fun n c => n * 64 + c % 64) (leadingBits b), r.drop more.length)

theorem length_readCode_lt (b : Nat) (r : List Nat) :
    (readCode (b :: r)).2.length < (b :: r).length := by
  simp only [readCode]
  split
  · simp
  · simp only [List.length_drop, List.length_cons]
    omega

example : readCode (Text.octets ['é', 'x']) = (0xE9, [0x78]) := by decide

end SampleSearch
