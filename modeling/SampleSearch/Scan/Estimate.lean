/-! # Estimates

The database chooses its way through the rows by rough estimates of numbers of rows and of steps.
An estimate is ten times the binary logarithm of a number, so that products become sums; sums of
numbers have a small table of their own.
-/

namespace SampleSearch

abbrev Estimate := Int

namespace Estimate

/-- The estimate of a number; eight numbers between two powers of two are told apart. -/
def ofNat (n : Nat) : Estimate :=
  if n < 2 then 0
  else
    let power := n.log2
    let eighth := if power ≤ 3 then n <<< (3 - power) else n >>> (power - 3)
    [0, 2, 3, 5, 6, 7, 8, 9].getD (eighth % 8) 0 + 10 * power

def steps : List Estimate :=
  [10, 10, 9, 9, 8, 8, 7, 7, 7, 6, 6, 6, 5, 5, 5, 4, 4, 4, 4, 3, 3, 3, 3, 3, 3, 2, 2, 2, 2, 2, 2, 2]

/-- The estimate of a sum, where the larger number is estimated by `a`. -/
def sumUpward (a b : Estimate) : Estimate :=
  if a > b + 49 then a else if a > b + 31 then a + 1 else a + steps.getD (a - b).toNat 2

def sum (a b : Estimate) : Estimate := if a ≥ b then sumUpward a b else sumUpward b a

def searching (rows : Estimate) : Estimate := if rows ≤ 10 then 0 else ofNat rows.toNat - 33

example : ofNat 200 = 76 := by decide
example : ofNat 20 = 43 := by decide
example : sum 213 216 = 225 := by decide

end Estimate

end SampleSearch
