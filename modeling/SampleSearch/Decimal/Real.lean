import SampleSearch.Decimal.Extended

/-! # Floating point numbers of the database

A number written in decimal is read by its leading digits, as many as fit 64 bits, and a power of
ten, in extended precision. A floating point number is written with up to 15 significant digits and
always with a point: positional if the leading digit stands between the fourth place behind the
point and the fifteenth in front of it, and with a signed exponent of at least two digits
otherwise. A number too large for double precision is `Inf`.
-/

namespace SampleSearch

namespace Decimal

/-- A number beyond which no further digit is taken. -/
def significandLimit : Nat := 1844674407370955160

def takeDigits : Nat → Text → Nat × Nat
  | s, [] => (s, 0)
  | s, c :: cs =>
    if significandLimit ≤ s then (s, 0)
    else
      let r := takeDigits (s * 10 + Text.digitsValue [c]) cs
      (r.1, r.2 + 1)

/-- Size of a written exponent; one of more than five digits counts as ten thousand. -/
def exponentSize (digits : Text) : Nat :=
  digits.foldl (fun e c => if e < 10000 then e * 10 + Text.digitsValue [c] else 10000) 0

def absorb : Nat → Nat → Nat × Nat
  | 0, s => (s, 0)
  | n + 1, s => if s < significandLimit + 1 then absorb n (s * 10) else (s, n + 1)

def release : Nat → Nat → Nat × Nat
  | 0, s => (s, 0)
  | n + 1, s => if s % 10 = 0 then release n (s / 10) else (s, n + 1)

/-- Double precision value of `s * 10 ^ e`, if it is not too large. -/
def ofSignificand? (s : Nat) (e : Int) : Option Dyadic :=
  if s = 0 then some Dyadic.zero
  else
    let moved : Nat × Int := match e with
      | .ofNat n => ((absorb n s).1, (absorb n s).2)
      | .negSucc n => ((release (n + 1) s).1, -((release (n + 1) s).2 : Int))
    if moved.2 = 0 then Dyadic.round? moved.1 1
    else (Extended.scale ⟨moved.1, 0⟩ moved.2).toDyadic?

def read? (whole fraction : Text) (exponent : Int) : Option Dyadic :=
  let front := takeDigits 0 whole
  let back := takeDigits front.1 fraction
  ofSignificand? back.1 (exponent + (whole.length - front.2 : Nat) - (back.2 : Nat))

/-- The 15 leading digits of a positive value; the next digit decides about the last. -/
def leadingDigits (x : Dyadic) : Decimal :=
  let p := (Extended.ofDyadic x).normalized
  let v := p.1.floor
  let count := (Text.ofNat v).length
  let next := v / Nat.pow 10 (count - 16)
  stripped 16 ⟨(next + 5) / 10, p.2 + (count - 15 : Nat)⟩

def behindPoint (digits : Text) : Text := if digits.isEmpty then ['0'] else digits

def exponentText (e : Int) : Text :=
  (if e < 0 then '-' else '+') :: Text.padded 2 e.natAbs

def storedText (d : Decimal) : Text :=
  let digits := Text.ofNat d.digits
  let lead : Int := digits.length + d.exponent - 1
  if lead < -4 ∨ 14 < lead then
    digits.take 1 ++ '.' :: behindPoint (digits.drop 1) ++ 'e' :: exponentText lead
  else if lead < 0 then
    "0.".toList ++ List.replicate (-lead - 1).toNat '0' ++ digits
  else
    let whole := lead.toNat + 1
    digits.take whole ++ List.replicate (whole - digits.length) '0' ++
      '.' :: behindPoint (digits.drop whole)

def signedText (negative : Bool) (x : Dyadic) : Text :=
  if x.mantissa = 0 then "0.0".toList
  else
    let body := storedText (leadingDigits x)
    if negative then '-' :: body else body

def infiniteText (negative : Bool) : Text :=
  if negative then "-Inf".toList else "Inf".toList

def reread (negative : Bool) (whole fraction : Text) (exponent : Int) : Text :=
  match read? whole fraction exponent with
  | none => infiniteText negative
  | some x => signedText negative x

example : reread false ['1'] ['5'] 0 = "1.5".toList := by decide +kernel
example : reread true ['1'] [] 20 = "-1.0e+20".toList := by decide +kernel
example : reread false [] "47874356934514950".toList 0 = "0.478743569345149".toList := by
  decide +kernel

end Decimal

end SampleSearch
