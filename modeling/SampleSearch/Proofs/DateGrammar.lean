import SampleSearch.Compile.Leaf
import SampleSearch.Proofs.WrittenDates

/-!
# The grammar of dates

A date is a day `DDDD-DD-DD`, which may have a time `DD:DD` behind a blank or a `T`, which may have
a second `:DD` behind it. With ASCII digits only, the dates that are read are those whose numbers
exist, and each stands for the day, the minute or the second that it writes.

In the places of a time digits of other scripts are let through, though they have no value. The
date then ends in front of them: a time is passed over if its hour has no value, and a second is
passed over if it has none itself.
-/

namespace SampleSearch

namespace Text

def IsDigits (width : Nat) (t : Text) : Prop := t.length = width ∧ t.all Char.isDigit = true

def HasPlainDigits (t : Text) : Prop := ∀ c ∈ t, isDecimalDigit c = true → c.isDigit = true

instance (t : Text) : Decidable t.HasPlainDigits :=
  decidable_of_iff ((t.all fun c => !isDecimalDigit c || c.isDigit) = true)
    (by simp [HasPlainDigits, imp_iff_not_or])

variable {width : Nat} {t : Text}

theorem IsDigits.isNumeral (h : t.IsDigits width) : t.IsNumeral width :=
  ⟨h.1, List.all_eq_true.2 fun c hc => isDecimalDigit_of_isDigit (List.all_eq_true.1 h.2 c hc)⟩

theorem IsDigits.nat? (h : t.IsDigits width) (hpos : 0 < width) :
    Text.nat? t = some (digitsValue t) :=
  nat?_of_isDigit (h.1.symm ▸ hpos) h.2

theorem isDigits_of_nat? {n : Nat} (ht : t.IsNumeral width) (h : nat? t = some n) :
    t.IsDigits width ∧ n = digitsValue t := by
  unfold nat? at h
  split at h
  · rename_i hall
    cases h
    rw [Bool.and_eq_true] at hall
    exact ⟨⟨ht.1, hall.2⟩, rfl⟩
  · cases h

/-- A numeral without a value has a digit that is not ASCII. -/
theorem not_isDigits_of_nat? (hpos : 0 < width) (h : nat? t = none) : ¬ t.IsDigits width := by
  intro hdigits
  rw [hdigits.nat? hpos] at h
  cases h

theorem nat?_eq_none (ht : t.IsNumeral width) (h : ¬ t.IsDigits width) : nat? t = none := by
  cases hn : nat? t with
  | none => rfl
  | some n => exact absurd (isDigits_of_nat? ht hn).1 h

theorem IsNumeral.isDigits (h : t.IsNumeral width) (hplain : t.HasPlainDigits) :
    t.IsDigits width :=
  ⟨h.1, List.all_eq_true.2 fun c hc => hplain c hc (List.all_eq_true.1 h.2 c hc)⟩

theorem hasPlainDigits_append {s t : Text} :
    (s ++ t).HasPlainDigits ↔ s.HasPlainDigits ∧ t.HasPlainDigits := by
  simp only [HasPlainDigits, List.mem_append, or_imp, forall_and]

theorem hasPlainDigits_cons {c : Char} (hc : isDecimalDigit c = false) :
    HasPlainDigits (c :: t) ↔ t.HasPlainDigits := by
  simp [HasPlainDigits, hc]

theorem IsDigits.hasPlainDigits (h : t.IsDigits width) : t.HasPlainDigits :=
  fun c hc _ => List.all_eq_true.1 h.2 c hc

end Text

theorem Date.exists?_of_isReal {d : Date} (h : d.IsReal) :
    exists? d.year d.month d.day = some d := by
  rw [exists?, if_pos]
  simp [h.one_le_month, h.month_le, h.one_le_day, h.day_le]

namespace WrittenDate

open Text

/-- A date in ASCII digits, and the unit of time that it writes. -/
inductive Denotes : Text → Precision → Moment → Prop
  | day {y m d : Text} (hy : y.IsDigits 4) (hm : m.IsDigits 2) (hd : d.IsDigits 2)
      (hreal : Date.IsReal ⟨digitsValue y, digitsValue m, digitsValue d⟩) :
      Denotes (y ++ '-' :: m ++ '-' :: d) .day
        ⟨⟨digitsValue y, digitsValue m, digitsValue d⟩, 0, 0, 0⟩
  | minute {t h m : Text} {date : Date} {c : Char} (hdate : Denotes t .day ⟨date, 0, 0, 0⟩)
      (hc : IsTimeSign c) (hh : h.IsDigits 2) (hm : m.IsDigits 2) (hour_lt : digitsValue h < 24)
      (minute_lt : digitsValue m < 60) :
      Denotes (t ++ c :: h ++ ':' :: m) .minute ⟨date, digitsValue h, digitsValue m, 0⟩
  | second {t s : Text} {date : Date} {hour minute : Nat}
      (hminute : Denotes t .minute ⟨date, hour, minute, 0⟩) (hs : s.IsDigits 2)
      (second_lt : digitsValue s < 60) :
      Denotes (t ++ ':' :: s) .second ⟨date, hour, minute, digitsValue s⟩

/-- What stands behind a date without a value: a time by its hour, or a second. -/
inductive Overlooked : Text → Precision → Prop
  | nothing {p : Precision} : Overlooked [] p
  | time {r h m : Text} {s : Option Text} (hr : HasTime r (some (h, m, s)))
      (hforeign : ¬ h.IsDigits 2) : Overlooked r .day
  | second {s : Text} (hs : s.IsNumeral 2) (hforeign : ¬ s.IsDigits 2) :
      Overlooked (':' :: s) .minute

namespace Denotes

variable {t : Text} {p : Precision} {m : Moment}

theorem isReal (h : Denotes t p m) : m.IsReal := by
  induction h with
  | day hy hm hd hreal => exact Moment.isReal_midnight hreal
  | minute hdate hc hh hm hour_lt minute_lt ih =>
    exact ⟨ih.date, hour_lt, minute_lt, Nat.succ_pos 59⟩
  | second hminute hs second_lt ih => exact ⟨ih.date, ih.hour_lt, ih.minute_lt, second_lt⟩

theorem hasPlainYear (h : Denotes t p m) : m.date.HasPlainYear := by
  induction h with
  | @day y m d hy hm hd hreal =>
    have hlt := digitsValue_lt hy.2
    rw [hy.1] at hlt
    exact ⟨Int.natCast_nonneg _, by change (digitsValue y : Int) ≤ 9999; omega⟩
  | minute hdate hc hh hm hour_lt minute_lt ih => exact ih
  | second hminute hs second_lt ih => exact ih

end Denotes

theorem IsTimeSign.isDecimalDigit_eq_false {c : Char} (h : IsTimeSign c) :
    isDecimalDigit c = false := by
  rcases h with rfl | rfl <;> decide

namespace Denotes

variable {t : Text} {p : Precision} {m : Moment}

theorem hasPlainDigits (h : Denotes t p m) : t.HasPlainDigits := by
  have hdash : isDecimalDigit '-' = false := by decide
  have hcolon : isDecimalDigit ':' = false := by decide
  induction h with
  | day hy hm hd hreal =>
    simp only [hasPlainDigits_append, hasPlainDigits_cons hdash]
    exact ⟨⟨hy.hasPlainDigits, hm.hasPlainDigits⟩, hd.hasPlainDigits⟩
  | minute hdate hc hh hm hour_lt minute_lt ih =>
    simp only [hasPlainDigits_append, hasPlainDigits_cons hcolon,
      hasPlainDigits_cons hc.isDecimalDigit_eq_false]
    exact ⟨⟨ih, hh.hasPlainDigits⟩, hm.hasPlainDigits⟩
  | second hminute hs second_lt ih =>
    simp only [hasPlainDigits_append, hasPlainDigits_cons hcolon]
    exact ⟨ih, hs.hasPlainDigits⟩

end Denotes

theorem Overlooked.eq_nil {r : Text} {p : Precision} (h : Overlooked r p)
    (hplain : r.HasPlainDigits) : r = [] := by
  cases h with
  | nothing => rfl
  | @time _ h m s hr hforeign =>
    have hmem : ∀ c ∈ h, c ∈ r := by
      cases hr <;> simp +contextual
    have hnumeral : h.IsNumeral 2 := by
      cases hr <;> assumption
    exact absurd (hnumeral.isDigits fun c hc => hplain c (hmem c hc)) hforeign
  | second hs hforeign =>
    exact absurd (hs.isDigits ((hasPlainDigits_cons (by decide)).1 hplain)) hforeign

theorem date?_eq_some_iff {w : WrittenDate} (hy : w.year.IsNumeral 4) (hm : w.month.IsNumeral 2)
    (hd : w.day.IsNumeral 2) {date : Date} :
    w.date? = some date ↔
      Denotes (w.year ++ '-' :: w.month ++ '-' :: w.day) .day ⟨date, 0, 0, 0⟩ := by
  constructor
  · intro h
    obtain ⟨y, hyear, h⟩ := Option.bind_eq_some_iff.1 h
    obtain ⟨m, hmonth, h⟩ := Option.bind_eq_some_iff.1 h
    obtain ⟨d, hday, h⟩ := Option.bind_eq_some_iff.1 h
    obtain ⟨rfl, hreal⟩ := Date.exists?_eq_some h
    obtain ⟨hydigits, rfl⟩ := isDigits_of_nat? hy hyear
    obtain ⟨hmdigits, rfl⟩ := isDigits_of_nat? hm hmonth
    obtain ⟨hddigits, rfl⟩ := isDigits_of_nat? hd hday
    exact .day hydigits hmdigits hddigits hreal
  · intro h
    generalize htext : w.year ++ '-' :: w.month ++ '-' :: w.day = t at h
    cases h with
    | @day y m d hydigits hmdigits hddigits hreal =>
      -- the parts of the written date are those of the text, since their lengths are fixed
      have hlen := hy.1.trans hydigits.1.symm
      have hlen' := hm.1.trans hmdigits.1.symm
      rw [List.append_assoc, List.append_assoc] at htext
      obtain ⟨hyear, hrest⟩ := List.append_inj htext hlen
      obtain ⟨-, hrest⟩ := List.cons_eq_cons.1 hrest
      obtain ⟨hmonth, hrest⟩ := List.append_inj hrest hlen'
      obtain ⟨-, hday⟩ := List.cons_eq_cons.1 hrest
      rw [date?, hyear, hmonth, hday, hydigits.nat? (by decide), hmdigits.nat? (by decide),
        hddigits.nat? (by decide)]
      exact Date.exists?_of_isReal hreal

end WrittenDate

namespace Window

open Text WrittenDate

theorem minute?_eq_some_iff {d : Date} {hour minute : Nat} {w : Window} :
    minute? d hour minute = some w ↔
      hour < 24 ∧ minute < 60 ∧ w = Precision.minute.window ⟨d, hour, minute, 0⟩ := by
  simp only [minute?, Option.ite_none_right_eq_some, Bool.and_eq_true, decide_eq_true_eq,
    Option.some.injEq, and_assoc]
  exact and_congr_right fun _ => and_congr_right fun _ => eq_comm

theorem second?_eq_some_iff {d : Date} {hour minute second : Nat} {w : Window} :
    second? d hour minute second = some w ↔ hour < 24 ∧ minute < 60 ∧ second < 60 ∧
      w = Precision.second.window ⟨d, hour, minute, second⟩ := by
  simp only [second?, Option.ite_none_right_eq_some, Bool.and_eq_true, decide_eq_true_eq,
    Option.some.injEq, and_assoc]
  exact and_congr_right fun _ => and_congr_right fun _ => and_congr_right fun _ => eq_comm

/-- The window of a day with the time that is written behind it. -/
def withTime? (d : Date) : Option (Text × Text × Option Text) → Option Window
  | none => some (day d)
  | some (h, m, s) => ofParts? d (nat? h) (nat? m) (s.bind nat?)

theorem exists_unit_of_withTime? {t r : Text} {date : Date}
    {time : Option (Text × Text × Option Text)} {w : Window}
    (hday : Denotes t .day ⟨date, 0, 0, 0⟩) (hr : HasTime r time)
    (h : withTime? date time = some w) :
    ∃ front back p m, t ++ r = front ++ back ∧ Denotes front p m ∧ Overlooked back p ∧
      w = p.window m := by
  cases hr with
  | nothing =>
    cases h
    exact ⟨t, [], .day, _, rfl, hday, .nothing, rfl⟩
  | @minute c a b hc ha hb =>
    rw [withTime?, Option.bind_none] at h
    cases hour : nat? a with
    | none =>
      rw [hour] at h
      cases h
      exact ⟨t, _, .day, _, rfl, hday,
        .time (.minute hc ha hb) (not_isDigits_of_nat? (by decide) hour), rfl⟩
    | some n =>
      cases minute : nat? b with
      | none =>
        rw [hour, minute] at h
        cases h
      | some k =>
        rw [hour, minute] at h
        obtain ⟨hn, hk, rfl⟩ := minute?_eq_some_iff.1 h
        obtain ⟨ha, rfl⟩ := isDigits_of_nat? ha hour
        obtain ⟨hb, rfl⟩ := isDigits_of_nat? hb minute
        refine ⟨_, [], .minute, _, ?_, .minute hday hc ha hb hn hk, .nothing, rfl⟩
        simp
  | @second c a b e hc ha hb he =>
    rw [withTime?, Option.bind_some] at h
    cases hour : nat? a with
    | none =>
      rw [hour] at h
      cases h
      exact ⟨t, _, .day, _, rfl, hday,
        .time (.second hc ha hb he) (not_isDigits_of_nat? (by decide) hour), rfl⟩
    | some n =>
      cases minute : nat? b with
      | none =>
        rw [hour, minute] at h
        cases h
      | some k =>
        obtain ⟨ha, rfl⟩ := isDigits_of_nat? ha hour
        obtain ⟨hb, rfl⟩ := isDigits_of_nat? hb minute
        cases second : nat? e with
        | none =>
          rw [hour, minute, second] at h
          obtain ⟨hn, hk, rfl⟩ := minute?_eq_some_iff.1 h
          refine ⟨_, ':' :: e, .minute, _, ?_, .minute hday hc ha hb hn hk,
            .second he (not_isDigits_of_nat? (by decide) second), rfl⟩
          simp
        | some l =>
          rw [hour, minute, second] at h
          obtain ⟨hn, hk, hl, rfl⟩ := second?_eq_some_iff.1 h
          obtain ⟨he, rfl⟩ := isDigits_of_nat? he second
          refine ⟨_, [], .second, _, ?_, .second (.minute hday hc ha hb hn hk) he hl, .nothing,
            rfl⟩
          simp

/-- A date is a day with a time behind it, whatever of the time has a value. -/
theorem exists_withTime?_of_denotes {front back : Text} {p : Precision} {m : Moment}
    (hfront : Denotes front p m) (hback : Overlooked back p) :
    ∃ t r time, front ++ back = t ++ r ∧ Denotes t .day ⟨m.date, 0, 0, 0⟩ ∧ HasTime r time ∧
      withTime? m.date time = some (p.window m) := by
  cases hfront with
  | day hy hm hd hreal =>
    have hday := Denotes.day hy hm hd hreal
    cases hback with
    | nothing => exact ⟨_, [], none, rfl, hday, .nothing, rfl⟩
    | @time _ h n s hr hforeign =>
      have hnone : nat? h = none := by
        cases hr with
        | minute hc hh hn => exact nat?_eq_none hh hforeign
        | second hc hh hn hs => exact nat?_eq_none hh hforeign
      exact ⟨_, back, _, rfl, hday, hr, by rw [withTime?, hnone]; rfl⟩
  | @minute t h n date c hdate hc hh hn hour_lt minute_lt =>
    have hhour := hh.nat? (by decide)
    have hminute := hn.nat? (by decide)
    have hunit : minute? date (digitsValue h) (digitsValue n) = some _ :=
      minute?_eq_some_iff.2 ⟨hour_lt, minute_lt, rfl⟩
    cases hback with
    | nothing =>
      refine ⟨t, _, _, ?_, hdate, .minute hc hh.isNumeral hn.isNumeral, ?_⟩
      · simp
      · rw [withTime?, hhour, hminute]
        exact hunit
    | @second s hs hforeign =>
      refine ⟨t, _, _, ?_, hdate, .second hc hh.isNumeral hn.isNumeral hs, ?_⟩
      · simp
      · rw [withTime?, hhour, hminute, Option.bind_some, nat?_eq_none hs hforeign]
        exact hunit
  | @second t s date hour minute hminute hs second_lt =>
    cases hminute with
    | @minute t h n date c hdate hc hh hn hour_lt minute_lt =>
      cases hback
      refine ⟨t, _, _, ?_, hdate, .second hc hh.isNumeral hn.isNumeral hs.isNumeral, ?_⟩
      · simp
      · rw [withTime?, hh.nat? (by decide), hn.nat? (by decide), Option.bind_some,
          hs.nat? (by decide)]
        exact second?_eq_some_iff.2 ⟨hour_lt, minute_lt, second_lt, rfl⟩

theorem read?_eq (v : Text) : read? v =
    (WrittenDate.read? v).bind fun w => w.date?.bind fun d => withTime? d w.time := by
  rw [read?]
  refine congrArg (Option.bind _) (funext fun w => congrArg (Option.bind _) (funext fun d => ?_))
  obtain ⟨y, m, k, _ | ⟨h, n, s⟩⟩ := w <;> rfl

/-- The dates that are read are those of the grammar with what is overlooked behind them. -/
theorem read?_eq_some_iff {v : Text} {w : Window} :
    read? v = some w ↔ ∃ front back p m, v = front ++ back ∧ Denotes front p m ∧
      Overlooked back p ∧ w = p.window m := by
  rw [read?_eq]
  constructor
  · intro h
    obtain ⟨date, hdate, h⟩ := Option.bind_eq_some_iff.1 h
    obtain ⟨d, hd, hwindow⟩ := Option.bind_eq_some_iff.1 h
    obtain ⟨hy, hm, hday, r, hr, hv⟩ := WrittenDate.read?_eq_some_iff.1 hdate
    rw [hv]
    exact exists_unit_of_withTime? ((date?_eq_some_iff hy hm hday).1 hd) hr hwindow
  · rintro ⟨front, back, p, m, rfl, hfront, hback, rfl⟩
    obtain ⟨t, r, time, ht, hday, hr, hwindow⟩ := exists_withTime?_of_denotes hfront hback
    generalize m.date = date at hday hwindow
    cases hday with
    | @day y n k hy hn hk hreal =>
      have hdate : WrittenDate.read? (front ++ back) = some ⟨y, n, k, time⟩ :=
        WrittenDate.read?_eq_some_iff.2 ⟨hy.isNumeral, hn.isNumeral, hk.isNumeral, r, hr, ht⟩
      have hd := (date?_eq_some_iff (w := ⟨y, n, k, time⟩) hy.isNumeral hn.isNumeral
        hk.isNumeral).2 (.day hy hn hk hreal)
      rw [hdate, Option.bind_some, hd, Option.bind_some]
      exact hwindow

/-- A window that starts with a moment and lasts one unit of time. -/
structure Lasts (w : Window) (p : Precision) (m : Moment) : Prop where
  start : w.start = m
  isReal_stop : w.stop.IsReal
  seconds_stop : w.stop.seconds = m.seconds + p.size

theorem lasts_window {m : Moment} (hm : m.IsReal) (p : Precision) : (p.window m).Lasts p m :=
  ⟨p.window_start m, p.isReal_window_stop hm, p.seconds_window_stop hm⟩

theorem lasts_iff {w : Window} {p : Precision} {m : Moment} (hm : m.IsReal) :
    w.Lasts p m ↔ w = p.window m := by
  constructor
  · rintro ⟨hstart, hreal, hseconds⟩
    have hstop : w.stop = (p.window m).stop := by
      rw [← Moment.seconds_inj hreal (p.isReal_window_stop hm), hseconds, p.seconds_window_stop hm]
    obtain ⟨start, stop⟩ := w
    obtain rfl : start = m := hstart
    obtain rfl : stop = (p.window start).stop := hstop
    cases p <;> rfl
  · rintro rfl
    exact lasts_window hm p

end Window

namespace Leaf

open WrittenDate

/-- A date of the grammar is read as the unit that it writes. Without digits of other scripts
nothing else is read, and with them what is overlooked behind a date. -/
theorem dates_are_read_exactly (path v : Text) :
    (∀ p m, Denotes v p m → ∃ w, window? path v = .ok w ∧ w.Lasts p m) ∧
    (v.HasPlainDigits → (¬ ∃ p m, Denotes v p m) →
      window? path v = .error (.notADate path v) ∧
        (SearchError.notADate path v).kind = .unsupportedGrammar) ∧
    ∀ w, window? path v = .ok w ↔ ∃ front back p m, v = front ++ back ∧ Denotes front p m ∧
      Overlooked back p ∧ w.Lasts p m := by
  have hok : ∀ w, window? path v = .ok w ↔ Window.read? v = some w := by
    intro w
    rw [window?]
    cases Window.read? v <;> simp
  have hread : ∀ w, window? path v = .ok w ↔ ∃ front back p m, v = front ++ back ∧
      Denotes front p m ∧ Overlooked back p ∧ w.Lasts p m := by
    intro w
    rw [hok, Window.read?_eq_some_iff]
    constructor
    · rintro ⟨front, back, p, m, hv, hfront, hback, hw⟩
      exact ⟨front, back, p, m, hv, hfront, hback, (Window.lasts_iff hfront.isReal).2 hw⟩
    · rintro ⟨front, back, p, m, hv, hfront, hback, hw⟩
      exact ⟨front, back, p, m, hv, hfront, hback, (Window.lasts_iff hfront.isReal).1 hw⟩
  refine ⟨fun p m h => ?_, fun hplain hnone => ⟨?_, rfl⟩, hread⟩
  · have hlasts := Window.lasts_window h.isReal p
    exact ⟨_, (hread _).2 ⟨v, [], p, m, (List.append_nil v).symm, h, .nothing, hlasts⟩, hlasts⟩
  · cases hw : Window.read? v with
    | none => rw [window?, hw]
    | some w =>
      obtain ⟨front, back, p, m, rfl, hfront, hback, -⟩ := Window.read?_eq_some_iff.1 hw
      obtain rfl := hback.eq_nil (Text.hasPlainDigits_append.1 hplain).2
      rw [List.append_nil] at hnone
      exact absurd ⟨p, m, hfront⟩ hnone

/-- The last minute of a leap day is read, and a day that does not exist is not. -/
theorem dates_are_read_exactly_leapDay :
    Denotes "2020-02-29T23:59".toList .minute ⟨⟨2020, 2, 29⟩, 23, 59, 0⟩ ∧
      (∃ w, window? "upload_time".toList "2020-02-29T23:59".toList = .ok w ∧
        w.Lasts .minute ⟨⟨2020, 2, 29⟩, 23, 59, 0⟩) ∧
      Text.HasPlainDigits "2021-02-29".toList ∧ (¬ ∃ p m, Denotes "2021-02-29".toList p m) ∧
      window? "upload_time".toList "2021-02-29".toList =
        .error (.notADate "upload_time".toList "2021-02-29".toList) := by
  have hday : Denotes "2020-02-29".toList .day ⟨⟨2020, 2, 29⟩, 0, 0, 0⟩ :=
    .day (y := "2020".toList) (m := "02".toList) (d := "29".toList) ⟨rfl, by decide⟩
      ⟨rfl, by decide⟩ ⟨rfl, by decide⟩ ⟨by decide, by decide, by decide, by decide⟩
  have hminute : Denotes "2020-02-29T23:59".toList .minute ⟨⟨2020, 2, 29⟩, 23, 59, 0⟩ :=
    .minute (t := "2020-02-29".toList) (h := "23".toList) (m := "59".toList) hday (.inr rfl)
      ⟨rfl, by decide⟩ ⟨rfl, by decide⟩ (by decide) (by decide)
  have hplain : Text.HasPlainDigits "2021-02-29".toList := by decide
  obtain ⟨hread, -⟩ := dates_are_read_exactly "upload_time".toList "2020-02-29T23:59".toList
  obtain ⟨hall, hreject, -⟩ := dates_are_read_exactly "upload_time".toList "2021-02-29".toList
  have hnone : ¬ ∃ p m, Denotes "2021-02-29".toList p m := by
    rintro ⟨p, m, h⟩
    obtain ⟨w, hw, -⟩ := hall p m h
    rw [show window? "upload_time".toList "2021-02-29".toList =
      .error (.notADate "upload_time".toList "2021-02-29".toList) from rfl] at hw
    cases hw
  exact ⟨hminute, hread _ _ hminute, hplain, hnone, (hreject hplain hnone).1⟩

def foreignTime : Text := "2021-01-01 \u0661\u0662:\u0663\u0660".toList

/-- A time in other digits than ASCII ones is no part of the grammar, and is read as the day. -/
theorem foreign_time_is_read_as_day :
    window? "upload_time".toList foreignTime = .ok (.day ⟨2021, 1, 1⟩) ∧
      ¬ ∃ p m, Denotes foreignTime p m := by
  refine ⟨by decide, ?_⟩
  rintro ⟨p, m, h⟩
  have hdigit := h.hasPlainDigits '\u0661' (by decide) (by decide)
  exact absurd hdigit (by decide)

end Leaf

end SampleSearch
