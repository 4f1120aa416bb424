import SampleSearch.Text.Basic
import SampleSearch.Text.Blank

/-! # Days and moments

Days of the proleptic Gregorian calendar and moments with a precision of one second. A moment may
carry the second 60, which is a leap second. The year has four digits from 0 to 9999; every other
year has a sign in front. Stored moments are read leniently: blanks may stand before every number,
zeros in front may be missing, and a year with a sign may have any number of digits.
-/

namespace SampleSearch

structure Date where
  year : Int
  month : Nat
  day : Nat
  deriving DecidableEq, Repr

namespace Date

def isLeapYear (year : Int) : Bool :=
  year % 4 == 0 && (year % 100 != 0 || year % 400 == 0)

def daysIn (year : Int) (month : Nat) : Nat :=
  if month == 2 then (if isLeapYear year then 29 else 28)
  else if month == 4 || month == 6 || month == 9 || month == 11 then 30
  else 31

def exists? (year : Int) (month day : Nat) : Option Date :=
  if 1 ≤ month && month ≤ 12 && 1 ≤ day && day ≤ daysIn year month then some ⟨year, month, day⟩
  else none

def next (d : Date) : Date :=
  if d.day < daysIn d.year d.month then { d with day := d.day + 1 }
  else if d.month < 12 then { d with month := d.month + 1, day := 1 }
  else ⟨d.year + 1, 1, 1⟩

def yearText (year : Int) : Text :=
  if 0 ≤ year ∧ year ≤ 9999 then Text.padded 4 year.toNat
  else (if year < 0 then '-' else '+') :: Text.padded 4 year.natAbs

def text (d : Date) : Text :=
  yearText d.year ++ '-' :: Text.padded 2 d.month ++ '-' :: Text.padded 2 d.day

end Date

structure Moment where
  date : Date
  hour : Nat
  minute : Nat
  second : Nat
  deriving DecidableEq, Repr

namespace Moment

def midnight (d : Date) : Moment := ⟨d, 0, 0, 0⟩

def nextDay (m : Moment) : Moment := { m with date := m.date.next }

def nextHour (m : Moment) : Moment :=
  if m.hour < 23 then { m with hour := m.hour + 1 } else { m.nextDay with hour := 0 }

def nextMinute (m : Moment) : Moment :=
  if m.minute < 59 then { m with minute := m.minute + 1 } else { m.nextHour with minute := 0 }

def nextSecond (m : Moment) : Moment :=
  if m.second < 59 then { m with second := m.second + 1 } else { m.nextMinute with second := 0 }

def clockText (m : Moment) : Text :=
  Text.padded 2 m.hour ++ ':' :: Text.padded 2 m.minute ++ ':' :: Text.padded 2 m.second

/-- The stored and printed form, with a blank between day and time. -/
def text (m : Moment) : Text := m.date.text ++ ' ' :: m.clockText

/-- The form used in results, with a `T` between day and time. -/
def resultText (m : Moment) : Text := m.date.text ++ 'T' :: m.clockText

example : (nextSecond ⟨⟨2020, 2, 28⟩, 23, 59, 59⟩).text = "2020-02-29 00:00:00".toList := by decide
example : (nextDay (midnight ⟨9999, 12, 31⟩)).text = "+10000-01-01 00:00:00".toList := by decide

/-- Reads between one and `width` ASCII digits after blanks. -/
def number? (width : Nat) (s : Text) : Option (Nat × Text) :=
  let s := skipBlank s
  let digits := (s.take width).takeWhile Char.isDigit
  if digits.isEmpty then none else some (Text.digitsValue digits, s.drop digits.length)

def year? (s : Text) : Option (Int × Text) :=
  match skipBlank s with
  | '-' :: r => signed r fun n => -(n : Int)
  | '+' :: r => signed r fun n => (n : Int)
  | r => (number? 4 r).map fun p => ((p.1 : Int), p.2)
where
  signed (r : Text) (f : Nat → Int) : Option (Int × Text) :=
    let digits := r.takeWhile Char.isDigit
    if digits.isEmpty then none else some (f (Text.digitsValue digits), r.drop digits.length)

def sign? (c : Char) : Text → Option Text
  | d :: s => if d == c then some s else none
  | [] => none

/-- Years of stored moments. -/
def yearRange (year : Int) : Bool := -262143 ≤ year && year ≤ 262142

def stored? (s : Text) : Option Moment := do
  let (year, s) ← year? s
  let (month, s) ← number? 2 (← sign? '-' s)
  let (day, s) ← number? 2 (← sign? '-' s)
  let (hour, s) ← number? 2 s
  let (minute, s) ← number? 2 (← sign? ':' s)
  let (second, s) ← number? 2 (← sign? ':' s)
  let date ← Date.exists? year month day
  if s.isEmpty && yearRange year && hour < 24 && minute < 60 && second ≤ 60 then
    some ⟨date, hour, minute, second⟩
  else none

example : stored? "2021-1-1 1:2:3".toList = some ⟨⟨2021, 1, 1⟩, 1, 2, 3⟩ := by decide
example : stored? "2021-01-01T00:00:00".toList = none := by decide

end Moment

end SampleSearch
