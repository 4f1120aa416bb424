import SampleSearch.Json.Value

/-! # Numbers of JSON texts

A number without fraction and exponent is whole if it fits 64 bits, signed below zero and unsigned
above. All others are floating point: the leading digits that fit an unsigned 64-bit number are
multiplied or divided by a power of ten, each step rounded to double precision. Digits behind them
count only by their place. A number too large for double precision is refused.
-/

namespace SampleSearch.Json

def maxUnsigned64 : Nat := 18446744073709551615

/-- Appends digits as long as the number fits 64 bits, and counts them. -/
def accumulate (significand count : Nat) : Text → Nat × Nat
  | [] => (significand, count)
  | c :: s =>
    let n := significand * 10 + Text.digitsValue [c]
    if maxUnsigned64 < n then (significand, count) else accumulate n (count + 1) s

def powerOfTen? (k : Nat) : Option Dyadic := Dyadic.ofNat? (Nat.pow 10 k)

/-- `n * 10 ^ e` in double precision. -/
def scaled? (n : Nat) (e : Int) : Option Dyadic := do
  let x ← Dyadic.ofNat? n
  match e with
  | .ofNat k =>
    if k ≤ 308 then x.mul? (← powerOfTen? k)
    else if n = 0 then some Dyadic.zero else none
  | .negSucc k =>
    let power := k + 1
    if power ≤ 308 then x.div? (← powerOfTen? power)
    else
      let y ← x.div? (← powerOfTen? 308)
      if power ≤ 616 then y.div? (← powerOfTen? (power - 308)) else some Dyadic.zero

/-- The parts of a number as they are written. -/
structure Numeral where
  negative : Bool
  whole : Text
  fraction : Text
  /-- Sign and digits of the exponent; true is minus. -/
  exponent : Option (Bool × Text)
  deriving DecidableEq, Repr

def maxExponent : Nat := 2147483647

def Numeral.value? (n : Numeral) : Option Json :=
  let (significand, taken) := accumulate 0 0 n.whole
  let before : Int := n.whole.length - taken
  if n.fraction.isEmpty && n.exponent.isNone && before = 0 then
    if !n.negative then some (.int significand)
    else if significand = 0 then some (.real true Dyadic.zero)
    else if significand ≤ Text.maxSigned64 + 1 then some (.int (-(significand : Int)))
    else (Dyadic.ofNat? significand).map (.real true)
  else
    let (significand, after) := accumulate significand 0 n.fraction
    let places : Int := before - after
    match n.exponent with
    | none => (scaled? significand places).map (.real n.negative)
    | some (down, digits) =>
      let e := Text.digitsValue digits
      if maxExponent < e then
        if significand = 0 ∨ down then some (.real n.negative Dyadic.zero) else none
      else
        (scaled? significand (if down then places - e else places + e)).map (.real n.negative)

def digitRun (s : Text) : Text × Text := (s.takeWhile Char.isDigit, s.dropWhile Char.isDigit)

def fraction? : Text → Option (Text × Text)
  | '.' :: s =>
    let (digits, rest) := digitRun s
    if digits.isEmpty then none else some (digits, rest)
  | s => some ([], s)

def exponentDigits? (down : Bool) (s : Text) : Option (Option (Bool × Text) × Text) :=
  let (digits, rest) := digitRun s
  if digits.isEmpty then none else some (some (down, digits), rest)

def exponent? : Text → Option (Option (Bool × Text) × Text)
  | c :: s =>
    if c == 'e' || c == 'E' then
      match s with
      | '-' :: r => exponentDigits? true r
      | '+' :: r => exponentDigits? false r
      | r => exponentDigits? false r
    else some (none, c :: s)
  | [] => some (none, [])

def unsigned? (negative : Bool) (s : Text) : Option (Numeral × Text) := do
  let (whole, rest) := digitRun s
  if whole.isEmpty || (whole.length > 1 && whole.head? == some '0') then none
  else
    let (fraction, rest) ← fraction? rest
    let (exponent, rest) ← exponent? rest
    some (⟨negative, whole, fraction, exponent⟩, rest)

def number? (s : Text) : Option (Json × Text) := do
  let (numeral, rest) ← match s with
    | '-' :: r => unsigned? true r
    | r => unsigned? false r
  some (← numeral.value?, rest)

end SampleSearch.Json
