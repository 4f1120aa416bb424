import SampleSearch.Text.Octets

/-! # Escapes of stored documents

What an escape in a string, in the name of a member or in the label of a path stands for. The
escapes of a document have been checked when it was read; those of a label have not, so they are
read octet by octet whatever they hold: letters beyond the hexadecimal ones count as digits too, and
an escape without a meaning stands for a code point of its own. The end of a line under a backslash
stands for nothing and goes together with what follows it.
-/

namespace SampleSearch.Escape

/-- What an escape without a meaning stands for. -/
def stray : Nat := 0x99999

def digit (b : Nat) : Nat := (b + 9 * (b / 64 % 2)) % 16

def digits (bs : List Nat) : Nat := bs.foldl (fun n b => n * 16 + digit b) 0

def isHigh (n : Nat) : Bool := 0xD800 ≤ n && n < 0xDC00

def isLow (n : Nat) : Bool := 0xDC00 ≤ n && n < 0xE000

def pair (high low : Nat) : Nat := (high - 0xD800) * 1024 + (low - 0xDC00) + 0x10000

/-- Reads the digits behind `\u`, and a second escape if the two form a pair of surrogates. -/
def unicode : List Nat → Nat × List Nat
  | a :: b :: c :: d :: 0x5C :: 0x75 :: e :: f :: g :: h :: r =>
    let high := digits [a, b, c, d]
    let low := digits [e, f, g, h]
    if isHigh high && isLow low then (pair high low, r)
    else (high, 0x5C :: 0x75 :: e :: f :: g :: h :: r)
  | a :: b :: c :: d :: r => (digits [a, b, c, d], r)
  | _ => (stray, [])

def joinLines : List Nat → List Nat
  | 0x5C :: 0x0A :: r => joinLines r
  | 0x5C :: 0x0D :: 0x0A :: r => joinLines r
  | 0x5C :: 0x0D :: r => joinLines r
  | 0x5C :: 0xE2 :: 0x80 :: 0xA8 :: r => joinLines r
  | 0x5C :: 0xE2 :: 0x80 :: 0xA9 :: r => joinLines r
  | r => r

def simple : List Nat → Nat × List Nat
  | [] => (stray, [])
  | b :: r =>
    if b = 0x75 then unicode r
    else if b = 0x62 then (0x08, r)
    else if b = 0x66 then (0x0C, r)
    else if b = 0x6E then (0x0A, r)
    else if b = 0x72 then (0x0D, r)
    else if b = 0x74 then (0x09, r)
    else if b = 0x76 then (0x0B, r)
    else if b = 0x30 then (0, r)
    else if b = 0x27 || b = 0x22 || b = 0x2F || b = 0x5C then (b, r)
    else if b = 0x78 then
      match r with
      | h :: l :: r => (digits [h, l], r)
      | _ => (stray, [])
    else if b = 0xE2 then (stray, [])
    else (stray, r)

/-- Reads one code point, escaped or not. An end of a line at the very end stands for zero. -/
def next (s : List Nat) : Nat × List Nat :=
  match joinLines s with
  | [] => (0, [])
  | 0x5C :: r => simple r
  | r => readCode r

def unitsWithin : Nat → List Nat → List (Bool × Nat)
  | 0, _ => []
  | _, [] => []
  | n + 1, b :: s =>
    let p := next (b :: s)
    (b == 0x5C, p.1) :: unitsWithin n p.2

def units (t : Text) : List (Bool × Nat) := unitsWithin t.octets.length t.octets

/-- What a name or a label stands for; it ends in front of the first zero. -/
def name (t : Text) : List Nat := ((units t).map Prod.snd).takeWhile (· != 0)

/-- What a string stands for. Escapes without a meaning vanish. -/
def value (t : Text) : List Nat :=
  ((units t).filter fun u => !(u.1 && u.2 == stray)).map Prod.snd

example : name "a\\u0041\\x42\\q".toList = [0x61, 0x41, 0x42, stray] := by decide +kernel
example : value "\\ud83d\\ude00\\\n".toList = [0x1F600, 0] := by decide +kernel

end SampleSearch.Escape
