import SampleSearch.Decimal.Real
import SampleSearch.Json.Number
import SampleSearch.Text.Octets

/-! # Cells

A cell of a stored row is empty or holds a number or a text. Every column has a class, and what is
put into it is first converted to that class if nothing is lost: a column of texts turns numbers
into their text, and a column of whole numbers turns a text that spells a number into the number.
Numbers come before texts in the order of cells, and an empty cell compares with nothing.
-/

namespace SampleSearch

inductive Cell
  | empty
  | int (n : Int)
  | real (negative : Bool) (size : Dyadic)
  /-- A number too large for double precision. -/
  | infinite (negative : Bool)
  | text (t : Text)
  /-- A text found in a document, with code points that are no characters. -/
  | broken (codes : List Nat)
  deriving DecidableEq, Repr

inductive ColumnClass
  /-- Whole numbers that identify the rows of a table. -/
  | rowId
  | integer
  | text
  deriving DecidableEq, Repr

namespace Cell

def signed (negative : Bool) (n : Nat) : Int := if negative then -(n : Int) else n

/-- A floating point number becomes whole if it is one below `2 ^ 63`. -/
def ofReal (negative : Bool) (size : Dyadic) : Cell :=
  let q := size.fraction
  if q.1 % q.2 = 0 ∧ q.1 / q.2 ≤ Text.maxSigned64 then int (signed negative (q.1 / q.2))
  else real negative size

def isAsciiBlank (c : Char) : Bool := c == ' ' || (9 ≤ c.toNat && c.toNat ≤ 13)

def splitSign : Text → Bool × Text
  | '-' :: s => (true, s)
  | '+' :: s => (false, s)
  | s => (false, s)

def splitFraction : Text → Option Text × Text
  | '.' :: s => (some (s.takeWhile Char.isDigit), s.dropWhile Char.isDigit)
  | s => (none, s)

def exponentValue : Option (Bool × Text) → Int
  | none => 0
  | some (down, digits) => signed down (Decimal.exponentSize digits)

def number? (t : Text) : Option Cell := do
  let (negative, s) := splitSign (t.dropWhile isAsciiBlank)
  let (whole, s) := Json.digitRun s
  let (fraction, s) := splitFraction s
  let places := fraction.getD []
  if whole.isEmpty && places.isEmpty then none
  else
    let (exponent, s) ← Json.exponent? s
    let n := signed negative (Text.digitsValue whole)
    if !s.all isAsciiBlank then none
    else if fraction.isNone && exponent.isNone && -Text.maxSigned64 - 1 ≤ n &&
        n ≤ Text.maxSigned64 then some (int n)
    else
      match Decimal.read? whole places (exponentValue exponent) with
      | none => some (infinite negative)
      | some size => some (ofReal negative size)

def asInteger : Cell → Cell
  | real negative size => ofReal negative size
  | text t => (number? t).getD (text t)
  | c => c

def asText : Cell → Cell
  | int n => text (Text.ofInt n)
  | real negative size => text (Decimal.signedText negative size)
  | infinite negative => text (Decimal.infiniteText negative)
  | c => c

def convert : ColumnClass → Cell → Cell
  | .rowId => asInteger
  | .integer => asInteger
  | .text => asText

def text? : Cell → Option Text
  | empty => none
  | int n => some (Text.ofInt n)
  | real negative size => some (Decimal.signedText negative size)
  | infinite negative => some (Decimal.infiniteText negative)
  | text t => some t
  | broken _ => none

/-- Code points of the text of a cell that is not empty. -/
def codes? : Cell → Option (List Nat)
  | broken codes => some codes
  | c => c.text?.map Text.codes

/-- The cell of a text that is given by its code points. -/
def ofCodes (codes : List Nat) : Cell :=
  if codes.all Nat.isValidChar then text (codes.map Char.ofNat) else broken codes

def int? : Cell → Option Int
  | int n => some n
  | _ => none

def ofOption : Option Text → Cell
  | none => empty
  | some t => text t

def quotient? : Cell → Option (Int × Nat)
  | int n => some (n, 1)
  | real negative size => some (signed negative size.fraction.1, size.fraction.2)
  | _ => none

def compareQuotients (a b : Int × Nat) : Ordering :=
  compareOfLessAndEq (a.1 * b.2) (b.1 * a.2)

def compareTexts (s t : Text) : Ordering := compareOfLessAndEq s t

def compareCodes (s t : List Nat) : Ordering := compareOfLessAndEq s t

/-- Order of two cells; there is none if one of them is empty. -/
def compare? : Cell → Cell → Option Ordering
  | empty, _ => none
  | _, empty => none
  | text s, text t => some (compareTexts s t)
  | broken s, broken t => some (compareCodes s t)
  | text s, broken t => some (compareCodes s.codes t)
  | broken s, text t => some (compareCodes s t.codes)
  | text _, _ => some .gt
  | broken _, _ => some .gt
  | _, text _ => some .lt
  | _, broken _ => some .lt
  | infinite m, infinite n => some (compare n m)
  | infinite n, _ => some (if n then .lt else .gt)
  | _, infinite n => some (if n then .gt else .lt)
  | a, b =>
    match a.quotient?, b.quotient? with
    | some p, some q => some (compareQuotients p q)
    | _, _ => none

/-- Whether two cells agree; an empty one agrees with an empty one only. -/
def agrees (a b : Cell) : Bool :=
  match a, b with
  | empty, empty => true
  | a, b => compare? a b == some .eq

@[simp] theorem compare?_empty_left (c : Cell) : compare? empty c = none := by cases c <;> rfl

@[simp] theorem compare?_empty_right (c : Cell) : compare? c empty = none := by cases c <;> rfl

@[simp] theorem compare?_text (s t : Text) :
    compare? (text s) (text t) = some (compareTexts s t) := rfl

theorem compare?_int (m n : Int) :
    compare? (int m) (int n) = some (compareOfLessAndEq m n) := by
  change some (compareOfLessAndEq (m * 1) (n * 1)) = _
  rw [Int.mul_one, Int.mul_one]

example : asInteger (text " 12e1 ".toList) = int 120 := by decide +kernel
example : asInteger (text "0x10".toList) = text "0x10".toList := by decide +kernel

/-- A value that can be put into a cell. Truth values are one and zero. -/
def ofJson? : Json → Option Cell
  | .null => some empty
  | .bool b => some (int (if b then 1 else 0))
  | .int n =>
    if n ≤ Text.maxSigned64 then some (int n)
    else (Dyadic.ofNat? n.toNat).map (real false)
  | .real negative size => some (real negative size)
  | .string t => some (text t)
  | .array _ => none
  | .object _ => none

end Cell

end SampleSearch
