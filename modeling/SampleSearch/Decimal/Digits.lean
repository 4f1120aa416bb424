import SampleSearch.Decimal.Dyadic
import SampleSearch.Text.Basic

/-! # Decimal digits of binary values

A value is written either with the fewest digits that read back as the same value, the nearest
such digits if there is a choice, or with a fixed number of significant digits.
-/

namespace SampleSearch

/-- The number `digits * 10 ^ exponent`. -/
structure Decimal where
  digits : Nat
  exponent : Int
  deriving DecidableEq, Repr

namespace Decimal

def quotient (n : Nat) (e : Int) : Nat × Nat :=
  match e with
  | .ofNat k => (n * Nat.pow 10 k, 1)
  | .negSucc k => (n, Nat.pow 10 (k + 1))

def floorLog10 (num den : Nat) : Int :=
  let k : Int := ((Nat.toDigits 10 num).length : Int) - (Nat.toDigits 10 den).length
  let scaled := quotient den k
  if scaled.1 ≤ num * scaled.2 then k else k - 1

def stripped : Nat → Decimal → Decimal
  | 0, d => d
  | steps + 1, d =>
    if d.digits ≠ 0 ∧ d.digits % 10 = 0 then stripped steps ⟨d.digits / 10, d.exponent + 1⟩ else d

def significant (count : Nat) (num den : Nat) : Decimal :=
  if num = 0 then ⟨0, 0⟩
  else
    let e := floorLog10 num den - count + 1
    let scaled := quotient num (-e)
    -- half a unit goes up
    let n := (2 * scaled.1 + scaled.2 * den) / (2 * (scaled.2 * den))
    stripped (count + 1) ⟨n, e⟩

end Decimal

namespace Dyadic

/-- The numbers that round to the value: twice its distance to the neighbour below and above, in
units of `2 ^ (exponent - 2)`. -/
def gaps (x : Dyadic) : Nat × Nat :=
  if x.mantissa = leastFull ∧ -1074 < x.exponent then (1, 2) else (2, 2)

def readsBack (x : Dyadic) (d : Decimal) : Bool :=
  let unit := quotient 1 (x.exponent - 2)
  let low := (4 * x.mantissa - x.gaps.1) * unit.1
  let high := (4 * x.mantissa + x.gaps.2) * unit.1
  let q := Decimal.quotient d.digits d.exponent
  let n := q.1 * unit.2
  if x.mantissa % 2 = 0 then low * q.2 ≤ n && n ≤ high * q.2
  else low * q.2 < n && n < high * q.2

/-- The two neighbours of the value among the numbers with `count` digits that read back, the
nearer one first and the even one if both are equally near. -/
def candidates (x : Dyadic) (count : Nat) : List Decimal :=
  let v := x.fraction
  let e := Decimal.floorLog10 v.1 v.2 - count + 1
  let scaled := Decimal.quotient v.1 (-e)
  let den := scaled.2 * v.2
  let n := scaled.1 / den
  let r := scaled.1 % den
  let below : Decimal := ⟨n, e⟩
  let above : Decimal := ⟨n + 1, e⟩
  let both := if 2 * r < den ∨ (2 * r = den ∧ n % 2 = 0) then [below, above] else [above, below]
  both.filter x.readsBack

/-- The fewest digits that read back; 17 always do. -/
def shortest (x : Dyadic) : Decimal :=
  if x.mantissa = 0 then ⟨0, 0⟩
  else
    match (List.range 17).findSome? fun k => (x.candidates (k + 1)).head? with
    | some d => Decimal.stripped 18 d
    | none => Decimal.significant 17 x.fraction.1 x.fraction.2

example : (Dyadic.round? 1 10).map shortest = some ⟨1, -1⟩ := by decide +kernel
example : shortest ⟨1, -1074⟩ = ⟨5, -324⟩ := by decide +kernel

end Dyadic

end SampleSearch
