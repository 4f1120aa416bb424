import SampleSearch.Calendar.Moment
import SampleSearch.Text.DecimalDigit

/-! # Windows of time

A date in a query, `YYYY-MM-DD[ HH:MM[:SS]]`, stands for the whole of its smallest written unit: a
day, a minute or a second. The window runs from the written moment to the first moment behind it.

The digits of the written form may belong to any script, yet only ASCII digits have a value. A
date needs the values of all its parts. Of the time, an hour without a value leaves the day alone
and a second without a value leaves the minute, while a minute without a value is refused.
-/

namespace SampleSearch

structure Window where
  start : Moment
  stop : Moment
  deriving DecidableEq, Repr

/-- The parts of a written date with an optional time. -/
structure WrittenDate where
  year : Text
  month : Text
  day : Text
  time : Option (Text × Text × Option Text)
  deriving DecidableEq, Repr

namespace WrittenDate

def time? : Text → Option (Option (Text × Text × Option Text))
  | [] => some none
  | [t, h1, h2, ':', m1, m2] =>
    if (t == ' ' || t == 'T') && [h1, h2, m1, m2].all isDecimalDigit then
      some (some ([h1, h2], [m1, m2], none))
    else none
  | [t, h1, h2, ':', m1, m2, ':', s1, s2] =>
    if (t == ' ' || t == 'T') && [h1, h2, m1, m2, s1, s2].all isDecimalDigit then
      some (some ([h1, h2], [m1, m2], some [s1, s2]))
    else none
  | _ => none

def read? : Text → Option WrittenDate
  | y1 :: y2 :: y3 :: y4 :: '-' :: m1 :: m2 :: '-' :: d1 :: d2 :: rest =>
    if [y1, y2, y3, y4, m1, m2, d1, d2].all isDecimalDigit then
      (time? rest).map fun t => ⟨[y1, y2, y3, y4], [m1, m2], [d1, d2], t⟩
    else none
  | _ => none

def date? (w : WrittenDate) : Option Date := do
  Date.exists? (← Text.nat? w.year) (← Text.nat? w.month) (← Text.nat? w.day)

end WrittenDate

namespace Window

def day (d : Date) : Window := ⟨.midnight d, (Moment.midnight d).nextDay⟩

def minute? (d : Date) (hour minute : Nat) : Option Window :=
  if hour < 24 && minute < 60 then
    some ⟨⟨d, hour, minute, 0⟩, (Moment.mk d hour minute 0).nextMinute⟩
  else none

def second? (d : Date) (hour minute second : Nat) : Option Window :=
  if hour < 24 && minute < 60 && second < 60 then
    some ⟨⟨d, hour, minute, second⟩, (Moment.mk d hour minute second).nextSecond⟩
  else none

def ofParts? (d : Date) (hour minute second : Option Nat) : Option Window :=
  match hour, minute, second with
  | none, _, _ => some (day d)
  | some h, some m, none => minute? d h m
  | some h, some m, some s => second? d h m s
  | some _, none, _ => none

def read? (value : Text) : Option Window := do
  let w ← WrittenDate.read? value
  let d ← w.date?
  match w.time with
  | none => some (day d)
  | some (h, m, s) => ofParts? d (Text.nat? h) (Text.nat? m) (s.bind Text.nat?)

example : (read? "2021-12-31T23:59:59".toList).map (·.stop.text) =
    some "2022-01-01 00:00:00".toList := by decide
example : read? "2021-02-30".toList = none := by decide

end Window

end SampleSearch
