import SampleSearch.Decimal.Digits

/-! # Extended precision

Numbers of the database are read and written with 64 significant binary digits, one step at a
time: every multiplication by a power of ten is rounded to 64 digits, and so is the power itself if
it is not exact. The exponent has no bounds here, because a number that leaves the range of double
precision on the way never comes back into it.
-/

namespace SampleSearch

/-- The number `mantissa * 2 ^ exponent`. -/
structure Extended where
  mantissa : Nat
  exponent : Int
  deriving DecidableEq, Repr

namespace Extended

def fraction (x : Extended) : Nat × Nat := Dyadic.quotient x.mantissa x.exponent

/-- Rounds `mantissa * 2 ^ exponent` to 64 binary digits, half a unit to the even neighbour. -/
def rounded (mantissa : Nat) (exponent : Int) : Extended :=
  let excess := Nat.log2 mantissa - 63
  ⟨Dyadic.roundHalfEven mantissa (Nat.pow 2 excess), exponent + excess⟩

def nearest (num den : Nat) : Extended :=
  let e := Dyadic.floorLog2 num den - 63
  let scaled := Dyadic.quotient num (-e)
  ⟨Dyadic.roundHalfEven scaled.1 (scaled.2 * den), e⟩

def mul (x y : Extended) : Extended :=
  rounded (x.mantissa * y.mantissa) (x.exponent + y.exponent)

def ofDyadic (x : Dyadic) : Extended := ⟨x.mantissa, x.exponent⟩

def powerOfTen (e : Int) : Extended :=
  let q := Decimal.quotient 1 e
  nearest q.1 q.2

def le (x y : Extended) : Bool :=
  let p := x.fraction
  let q := y.fraction
  p.1 * q.2 ≤ q.1 * p.2

def largest : Extended := ⟨2 * Dyadic.leastFull - 1, 971⟩

def toDyadic? (x : Extended) : Option Dyadic :=
  if x.le largest then
    let q := x.fraction
    Dyadic.round? q.1 q.2
  else none

def floor (x : Extended) : Nat :=
  let q := x.fraction
  q.1 / q.2

def scale (x : Extended) (e : Int) : Extended :=
  let n := e.natAbs
  let steps (count size : Nat) (x : Extended) : Extended :=
    Nat.repeat (mul · (powerOfTen (if e < 0 then -size else size))) count x
  steps (n % 10) 1 (steps (n / 10 % 10) 10 (steps (n / 100) 100 x))

/-- Divides by ten to the power `step` as long as the number is not below `10 ^ bound`, and counts
the powers taken out; `n` steps at most. -/
def lower (step bound : Int) : Nat → Extended × Int → Extended × Int
  | 0, p => p
  | n + 1, p =>
    if (powerOfTen bound).le p.1 then
      lower step bound n (p.1.mul (powerOfTen (-step)), p.2 + step)
    else p

def raise (step bound : Int) : Nat → Extended × Int → Extended × Int
  | 0, p => p
  | n + 1, p =>
    if (powerOfTen bound).le p.1 then p
    else raise step bound n (p.1.mul (powerOfTen step), p.2 - step)

/-- Brings a positive double precision value between `10 ^ 17` and `10 ^ 19`, together with the
power of ten that was taken out. -/
def normalized (x : Extended) : Extended × Int :=
  if (powerOfTen 19).le x then
    lower 1 19 10 (lower 10 29 10 (lower 100 119 4 (x, 0)))
  else
    raise 1 17 11 (raise 10 7 12 (raise 100 (-97) 4 (x, 0)))

end Extended

end SampleSearch
