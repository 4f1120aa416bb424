/-! # Binary floating point values

A double precision value without its sign is a whole number `m < 2 ^ 53` times a power of two
`2 ^ e` with `-1074 ≤ e ≤ 971`. A positive fraction is rounded to the nearest such value, and to
the one with even `m` if two are equally near; what would need a larger exponent overflows.
-/

namespace SampleSearch

structure Dyadic where
  mantissa : Nat
  exponent : Int
  deriving DecidableEq, Repr

namespace Dyadic

def zero : Dyadic := ⟨0, -1074⟩

/-- `2 ^ 52`, the least mantissa of full precision. -/
def leastFull : Nat := 0x10000000000000

def quotient (n : Nat) (e : Int) : Nat × Nat :=
  match e with
  | .ofNat k => (n * Nat.pow 2 k, 1)
  | .negSucc k => (n, Nat.pow 2 (k + 1))

def fraction (x : Dyadic) : Nat × Nat := quotient x.mantissa x.exponent

/-- Nearest whole number to a quotient; the even one of two equally near. -/
def roundHalfEven (num den : Nat) : Nat :=
  let q := num / den
  let r := num % den
  if 2 * r < den then q
  else if den < 2 * r then q + 1
  else if q % 2 = 0 then q else q + 1

def floorLog2 (num den : Nat) : Int :=
  let k : Int := (Nat.log2 num : Int) - Nat.log2 den
  let scaled := quotient den k
  if scaled.1 ≤ num * scaled.2 then k else k - 1

/-- Rounds `num / den`; there is no result on overflow. -/
def round? (num den : Nat) : Option Dyadic :=
  if num = 0 then some zero
  else
    let e := max (floorLog2 num den - 52) (-1074)
    let scaled := quotient num (-e)
    let m := roundHalfEven scaled.1 (scaled.2 * den)
    let x : Dyadic := if m = 2 * leastFull then ⟨leastFull, e + 1⟩ else ⟨m, e⟩
    if x.exponent ≤ 971 then some x else none

def ofNat? (n : Nat) : Option Dyadic := round? n 1

def mul? (x y : Dyadic) : Option Dyadic :=
  let a := x.fraction
  let b := y.fraction
  round? (a.1 * b.1) (a.2 * b.2)

def div? (x y : Dyadic) : Option Dyadic :=
  let a := x.fraction
  let b := y.fraction
  round? (a.1 * b.2) (a.2 * b.1)

example : round? 1 10 = some ⟨0x1999999999999A, -56⟩ := by decide +kernel
example : round? (Nat.pow 10 309) 1 = none := by decide +kernel

end Dyadic

end SampleSearch
