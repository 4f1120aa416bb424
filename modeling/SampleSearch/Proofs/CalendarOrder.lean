import SampleSearch.Calendar.Window
import SampleSearch.Proofs.DigitOrder

/-!
# Days and seconds in a row

Every day has a number and every moment has one, and the successors of the calendar add one day,
hour, minute or second to it, over the ends of months and years and over leap days. Among moments
whose years have four digits the order of the numbers is the order of the texts, for whole moments
as for what a text says of their day or their minute.
-/

namespace SampleSearch

namespace Date

/-- Days in the years before a year, counted from the year 0. -/
def yearStart (year : Int) : Int :=
  365 * year + (year - 1) / 4 - (year - 1) / 100 + (year - 1) / 400

/-- Days in the months before a month of a year. -/
def monthStart (year : Int) : Nat → Nat
  | 0 => 0
  | 1 => 0
  | m + 2 => monthStart year (m + 1) + daysIn year (m + 1)

def ordinal (d : Date) : Int := yearStart d.year + monthStart d.year d.month + d.day

structure IsReal (d : Date) : Prop where
  one_le_month : 1 ≤ d.month
  month_le : d.month ≤ 12
  one_le_day : 1 ≤ d.day
  day_le : d.day ≤ daysIn d.year d.month

/-- Whether a year is written with four digits and no sign. -/
def HasPlainYear (d : Date) : Prop := 0 ≤ d.year ∧ d.year ≤ 9999

theorem daysIn_bounds (year : Int) (month : Nat) :
    1 ≤ daysIn year month ∧ daysIn year month ≤ 31 := by
  unfold daysIn
  split_ifs <;> decide

theorem monthStart_succ (year : Int) {m : Nat} (h : 1 ≤ m) :
    monthStart year (m + 1) = monthStart year m + daysIn year m := by
  obtain ⟨m, rfl⟩ := Nat.exists_eq_add_of_le' h
  rfl

theorem monthStart_end_le (year : Int) {m n : Nat} (hm : 1 ≤ m) (h : m < n) :
    monthStart year m + daysIn year m ≤ monthStart year n := by
  induction n, h using Nat.le_induction with
  | base => exact (monthStart_succ year hm).ge
  | succ n hn ih =>
    have hstep := monthStart_succ year (hm.trans (Nat.le_of_succ_le hn))
    omega

theorem monthStart_thirteen (year : Int) :
    monthStart year 13 = if isLeapYear year then 366 else 365 := by
  have hmonths : monthStart year 13 =
      31 + daysIn year 2 + 31 + 30 + 31 + 30 + 31 + 31 + 30 + 31 + 30 + 31 := rfl
  have hfebruary : daysIn year 2 = if isLeapYear year then 29 else 28 := rfl
  rw [hmonths, hfebruary]
  split_ifs <;> rfl

theorem yearStart_succ (year : Int) :
    yearStart (year + 1) = yearStart year + monthStart year 13 := by
  have hleap : isLeapYear year = true ↔ year % 4 = 0 ∧ (¬ year % 100 = 0 ∨ year % 400 = 0) := by
    simp [isLeapYear]
  rw [monthStart_thirteen]
  unfold yearStart
  split_ifs with h
  · have := hleap.1 h
    omega
  · have := mt hleap.2 h
    omega

theorem yearStart_le {year other : Int} (h : year ≤ other) : yearStart year ≤ yearStart other := by
  rcases eq_or_lt_of_le h with rfl | h
  · exact le_rfl
  · unfold yearStart
    omega

variable {d e : Date}

theorem IsReal.ordinal_bounds (h : d.IsReal) :
    yearStart d.year < d.ordinal ∧ d.ordinal ≤ yearStart (d.year + 1) := by
  have hday := h.one_le_day
  have hend := h.day_le
  have hyear : _ ≤ monthStart d.year 13 :=
    monthStart_end_le d.year h.one_le_month (Nat.lt_succ_of_le h.month_le)
  rw [yearStart_succ]
  unfold ordinal
  omega

theorem ordinal_lt_of_lt (hd : d.IsReal) (he : e.IsReal)
    (h : d.year < e.year ∨ d.year = e.year ∧
      (d.month < e.month ∨ d.month = e.month ∧ d.day < e.day)) : d.ordinal < e.ordinal := by
  have hd' := hd.ordinal_bounds
  have he' := he.ordinal_bounds
  have hend := hd.day_le
  have hday := he.one_le_day
  rcases h with hyear | ⟨hyear, hmonth | ⟨hmonth, hlt⟩⟩
  · have hle : yearStart (d.year + 1) ≤ yearStart e.year := yearStart_le (by omega)
    omega
  · have hle := monthStart_end_le d.year hd.one_le_month hmonth
    unfold ordinal
    rw [← hyear]
    omega
  · unfold ordinal
    rw [← hyear, ← hmonth]
    omega

theorem ordinal_lt_iff (hd : d.IsReal) (he : e.IsReal) :
    d.ordinal < e.ordinal ↔ d.year < e.year ∨ d.year = e.year ∧
      (d.month < e.month ∨ d.month = e.month ∧ d.day < e.day) := by
  refine ⟨fun h => ?_, ordinal_lt_of_lt hd he⟩
  by_contra hnot
  by_cases heq : d = e
  · subst heq
    exact lt_irrefl _ h
  · have hback : e.year < d.year ∨ e.year = d.year ∧
        (e.month < d.month ∨ e.month = d.month ∧ e.day < d.day) := by
      have hne : ¬ (d.year = e.year ∧ d.month = e.month ∧ d.day = e.day) := fun h =>
        heq (by cases d; cases e; simp_all)
      omega
    exact lt_asymm h (ordinal_lt_of_lt he hd hback)

theorem ordinal_inj (hd : d.IsReal) (he : e.IsReal) : d.ordinal = e.ordinal ↔ d = e := by
  refine ⟨fun h => ?_, fun h => h ▸ rfl⟩
  have hlt := mt (ordinal_lt_iff hd he).2 h.not_lt
  have hgt := mt (ordinal_lt_iff he hd).2 h.not_gt
  have hyear : d.year = e.year := by omega
  have hmonth : d.month = e.month := by omega
  have hday : d.day = e.day := by omega
  cases d
  cases e
  simp_all

theorem IsReal.next (h : d.IsReal) : d.next.IsReal := by
  have hpos := daysIn_bounds d.year (d.month + 1)
  have hfirst := daysIn_bounds (d.year + 1) 1
  have hday := h.one_le_day
  unfold Date.next
  split_ifs with hd hm
  · exact ⟨h.one_le_month, h.month_le, by simp, hd⟩
  · exact ⟨by simp, hm, le_rfl, hpos.1⟩
  · exact ⟨le_rfl, Nat.succ_pos 11, le_rfl, hfirst.1⟩

theorem ordinal_next (h : d.IsReal) : d.next.ordinal = d.ordinal + 1 := by
  have hend := h.day_le
  have hmonth := monthStart_succ d.year h.one_le_month
  unfold Date.next
  split_ifs with hd hm
  · simp only [ordinal]
    omega
  · simp only [ordinal]
    omega
  · have htwelve : d.month = 12 := le_antisymm h.month_le (by omega)
    have hyear := yearStart_succ d.year
    have hjanuary : monthStart (d.year + 1) 1 = 0 := rfl
    have hdecember : monthStart d.year 13 = monthStart d.year 12 + daysIn d.year 12 := rfl
    rw [htwelve] at hend hd
    simp only [ordinal, htwelve]
    omega

/-- The numbers of a day fit into their places. -/
theorem IsReal.lt_pow (hd : d.IsReal) (hy : d.HasPlainYear) :
    d.year.toNat < 10 ^ 4 ∧ d.month < 10 ^ 2 ∧ d.day < 10 ^ 2 := by
  have hdays := daysIn_bounds d.year d.month
  have hmonth := hd.month_le
  have hday := hd.day_le
  obtain ⟨hlow, hhigh⟩ := hy
  omega

theorem length_text (hd : d.IsReal) (hy : d.HasPlainYear) : d.text.length = 10 := by
  obtain ⟨hyear, hmonth, hday⟩ := hd.lt_pow hy
  rw [text, yearText, if_pos (And.intro hy.1 hy.2)]
  simp only [List.length_append, List.length_cons]
  rw [Text.length_padded (by decide) hyear, Text.length_padded (by decide) hmonth,
    Text.length_padded (by decide) hday]

theorem text_lt_text_iff (hd : d.IsReal) (he : e.IsReal) (hdy : d.HasPlainYear)
    (hey : e.HasPlainYear) : d.text < e.text ↔ d.ordinal < e.ordinal := by
  obtain ⟨hdyear, hdmonth, hdday⟩ := hd.lt_pow hdy
  obtain ⟨heyear, hemonth, heday⟩ := he.lt_pow hey
  obtain ⟨hdlow, hdhigh⟩ := hdy
  obtain ⟨helow, hehigh⟩ := hey
  rw [ordinal_lt_iff hd he, text, text, yearText, yearText, if_pos ⟨hdlow, hdhigh⟩,
    if_pos ⟨helow, hehigh⟩]
  simp only [List.append_assoc, List.cons_append]
  rw [Text.padded_append_lt_iff (by decide) hdyear heyear, List.cons_lt_cons_self,
    Text.padded_append_lt_iff (by decide) hdmonth hemonth, List.cons_lt_cons_self,
    Text.padded_lt_padded_iff (by decide) hdday heday]
  omega

theorem text_inj (hd : d.IsReal) (he : e.IsReal) (hdy : d.HasPlainYear) (hey : e.HasPlainYear) :
    d.text = e.text ↔ d.ordinal = e.ordinal :=
  Text.eq_iff_of_lt_iff (text_lt_text_iff hd he hdy hey) (text_lt_text_iff he hd hey hdy)

end Date

namespace Moment

def seconds (m : Moment) : Int :=
  86400 * m.date.ordinal + 3600 * m.hour + 60 * m.minute + m.second

/-- A moment of a day that exists and of no leap second. -/
structure IsReal (m : Moment) : Prop where
  date : m.date.IsReal
  hour_lt : m.hour < 24
  minute_lt : m.minute < 60
  second_lt : m.second < 60

variable {m n : Moment}

theorem seconds_inj (hm : m.IsReal) (hn : n.IsReal) : m.seconds = n.seconds ↔ m = n := by
  refine ⟨fun h => ?_, fun h => h ▸ rfl⟩
  obtain ⟨hdate, hhour, hminute, hsecond⟩ := hm
  obtain ⟨hdate', hhour', hminute', hsecond'⟩ := hn
  unfold seconds at h
  have hday : m.date = n.date := (Date.ordinal_inj hdate hdate').1 (by omega)
  rw [hday] at h
  have hclock : m.hour = n.hour ∧ m.minute = n.minute ∧ m.second = n.second := by omega
  cases m
  cases n
  simp_all

theorem isReal_midnight {d : Date} (h : d.IsReal) : (midnight d).IsReal :=
  ⟨h, Nat.succ_pos 23, Nat.succ_pos 59, Nat.succ_pos 59⟩

theorem IsReal.nextDay (h : m.IsReal) : m.nextDay.IsReal :=
  ⟨h.date.next, h.hour_lt, h.minute_lt, h.second_lt⟩

theorem seconds_nextDay (h : m.IsReal) : m.nextDay.seconds = m.seconds + 86400 := by
  have hnext := Date.ordinal_next h.date
  simp only [Moment.nextDay, seconds]
  omega

theorem IsReal.nextHour (h : m.IsReal) : m.nextHour.IsReal := by
  unfold Moment.nextHour
  split_ifs with hlt
  · exact ⟨h.date, Nat.succ_lt_succ hlt, h.minute_lt, h.second_lt⟩
  · exact ⟨h.date.next, Nat.succ_pos 23, h.minute_lt, h.second_lt⟩

theorem seconds_nextHour (h : m.IsReal) : m.nextHour.seconds = m.seconds + 3600 := by
  have hnext := seconds_nextDay h
  have hhour := h.hour_lt
  unfold Moment.nextHour
  split_ifs with hlt
  · simp only [seconds]
    omega
  · simp only [seconds, Moment.nextDay] at hnext ⊢
    omega

theorem IsReal.nextMinute (h : m.IsReal) : m.nextMinute.IsReal := by
  unfold Moment.nextMinute
  split_ifs with hlt
  · exact ⟨h.date, h.hour_lt, Nat.succ_lt_succ hlt, h.second_lt⟩
  · exact ⟨h.nextHour.date, h.nextHour.hour_lt, Nat.succ_pos 59, h.nextHour.second_lt⟩

theorem minute_nextHour (m : Moment) : m.nextHour.minute = m.minute := by
  unfold Moment.nextHour
  split_ifs <;> rfl

theorem second_nextHour (m : Moment) : m.nextHour.second = m.second := by
  unfold Moment.nextHour
  split_ifs <;> rfl

theorem second_nextMinute (m : Moment) : m.nextMinute.second = m.second := by
  unfold Moment.nextMinute
  split_ifs
  · rfl
  · exact second_nextHour m

theorem seconds_nextMinute (h : m.IsReal) : m.nextMinute.seconds = m.seconds + 60 := by
  have hnext := seconds_nextHour h
  have hkept := minute_nextHour m
  have hminute := h.minute_lt
  unfold Moment.nextMinute
  split_ifs with hlt
  · simp only [seconds]
    omega
  · simp only [seconds] at hnext ⊢
    omega

theorem IsReal.nextSecond (h : m.IsReal) : m.nextSecond.IsReal := by
  unfold Moment.nextSecond
  split_ifs with hlt
  · exact ⟨h.date, h.hour_lt, h.minute_lt, Nat.succ_lt_succ hlt⟩
  · exact ⟨h.nextMinute.date, h.nextMinute.hour_lt, h.nextMinute.minute_lt, Nat.succ_pos 59⟩

theorem seconds_nextSecond (h : m.IsReal) : m.nextSecond.seconds = m.seconds + 1 := by
  have hnext := seconds_nextMinute h
  have hkept := second_nextMinute m
  have hsecond := h.second_lt
  unfold Moment.nextSecond
  split_ifs with hlt
  · simp only [seconds]
    omega
  · simp only [seconds] at hnext ⊢
    omega

end Moment

inductive Precision
  | day
  | minute
  | second
  deriving DecidableEq, Repr

namespace Precision

/-- Length of a unit in seconds. -/
def size : Precision → Int
  | day => 86400
  | minute => 60
  | second => 1

/-- Length of the text of a unit with a plain year. -/
def length : Precision → Nat
  | day => 10
  | minute => 16
  | second => 19

/-- Start of the unit that a moment lies in. -/
def floor : Precision → Moment → Moment
  | day, m => .midnight m.date
  | minute, m => { m with second := 0 }
  | second, m => m

/-- Text of the unit that a moment lies in. -/
def text : Precision → Moment → Text
  | day, m => m.date.text
  | minute, m => m.date.text ++ ' ' :: Text.padded 2 m.hour ++ ':' :: Text.padded 2 m.minute
  | second, m => m.text

/-- The unit that starts with a moment. -/
def window : Precision → Moment → Window
  | day, m => ⟨m, m.nextDay⟩
  | minute, m => ⟨m, m.nextMinute⟩
  | second, m => ⟨m, m.nextSecond⟩

variable {m n : Moment}

theorem size_pos (p : Precision) : 0 < p.size := by cases p <;> decide

theorem isReal_floor (p : Precision) (h : m.IsReal) : (p.floor m).IsReal := by
  cases p with
  | day => exact Moment.isReal_midnight h.date
  | minute => exact ⟨h.date, h.hour_lt, h.minute_lt, Nat.succ_pos 59⟩
  | second => exact h

theorem seconds_floor (p : Precision) (h : m.IsReal) :
    (p.floor m).seconds = p.size * (m.seconds / p.size) := by
  obtain ⟨-, hhour, hminute, hsecond⟩ := h
  cases p <;> simp only [floor, size, Moment.midnight, Moment.seconds] <;> omega

theorem window_start (p : Precision) (m : Moment) : (p.window m).start = m := by cases p <;> rfl

theorem isReal_window_stop (p : Precision) (h : m.IsReal) : (p.window m).stop.IsReal := by
  cases p with
  | day => exact h.nextDay
  | minute => exact h.nextMinute
  | second => exact h.nextSecond

theorem seconds_window_stop (p : Precision) (h : m.IsReal) :
    (p.window m).stop.seconds = m.seconds + p.size := by
  cases p with
  | day => exact Moment.seconds_nextDay h
  | minute => exact Moment.seconds_nextMinute h
  | second => exact Moment.seconds_nextSecond h

theorem clock_lt_pow (h : m.IsReal) :
    m.hour < 10 ^ 2 ∧ m.minute < 10 ^ 2 ∧ m.second < 10 ^ 2 := by
  obtain ⟨-, hhour, hminute, hsecond⟩ := h
  omega

/-- The text of the unit of a moment is in the front of its text. -/
theorem text_prefix (p : Precision) (m : Moment) : p.text m <+: m.text := by
  cases p with
  | day => exact List.prefix_append _ _
  | minute =>
    refine ⟨':' :: Text.padded 2 m.second, ?_⟩
    simp [text, Moment.text, Moment.clockText]
  | second => exact List.prefix_rfl

theorem length_text (p : Precision) (hm : m.IsReal) (hy : m.date.HasPlainYear) :
    (p.text m).length = p.length := by
  obtain ⟨hhour, hminute, hsecond⟩ := clock_lt_pow hm
  have hday := Date.length_text hm.date hy
  cases p with
  | day => exact hday
  | minute =>
    simp only [text, List.length_append, List.length_cons, hday,
      Text.length_padded Nat.two_pos hhour, Text.length_padded Nat.two_pos hminute, length]
  | second =>
    simp only [text, Moment.text, Moment.clockText, List.length_append, List.length_cons, hday,
      Text.length_padded Nat.two_pos hhour, Text.length_padded Nat.two_pos hminute,
      Text.length_padded Nat.two_pos hsecond, length]

/-- Among moments with plain years the texts of units have the order of the units. -/
theorem text_lt_text_iff (p : Precision) (hm : m.IsReal) (hn : n.IsReal)
    (hmy : m.date.HasPlainYear) (hny : n.date.HasPlainYear) :
    p.text m < p.text n ↔ m.seconds / p.size < n.seconds / p.size := by
  obtain ⟨hmhour, hmminute, hmsecond⟩ := clock_lt_pow hm
  obtain ⟨hnhour, hnminute, hnsecond⟩ := clock_lt_pow hn
  have hdates := Date.text_lt_text_iff hm.date hn.date hmy hny
  have hsame := Date.text_inj hm.date hn.date hmy hny
  have hlen := (Date.length_text hm.date hmy).trans (Date.length_text hn.date hny).symm
  obtain ⟨-, hmh, hmm, hms⟩ := hm
  obtain ⟨-, hnh, hnm, hns⟩ := hn
  cases p with
  | day =>
    rw [text, text, hdates, size, Moment.seconds, Moment.seconds]
    omega
  | minute =>
    simp only [text, List.append_assoc, List.cons_append]
    rw [Text.append_lt_append_iff hlen, hdates, hsame, List.cons_lt_cons_self,
      Text.padded_append_lt_iff Nat.two_pos hmhour hnhour, List.cons_lt_cons_self,
      Text.padded_lt_padded_iff Nat.two_pos hmminute hnminute, size, Moment.seconds,
      Moment.seconds]
    omega
  | second =>
    simp only [text, Moment.text, Moment.clockText, List.append_assoc, List.cons_append]
    rw [Text.append_lt_append_iff hlen, hdates, hsame, List.cons_lt_cons_self,
      Text.padded_append_lt_iff Nat.two_pos hmhour hnhour, List.cons_lt_cons_self,
      Text.padded_append_lt_iff Nat.two_pos hmminute hnminute, List.cons_lt_cons_self,
      Text.padded_lt_padded_iff Nat.two_pos hmsecond hnsecond, size, Moment.seconds,
      Moment.seconds]
    omega

theorem text_inj (p : Precision) (hm : m.IsReal) (hn : n.IsReal) (hmy : m.date.HasPlainYear)
    (hny : n.date.HasPlainYear) :
    p.text m = p.text n ↔ m.seconds / p.size = n.seconds / p.size :=
  Text.eq_iff_of_lt_iff (p.text_lt_text_iff hm hn hmy hny) (p.text_lt_text_iff hn hm hny hmy)

end Precision

theorem Moment.text_lt_text_iff {m n : Moment} (hm : m.IsReal) (hn : n.IsReal)
    (hmy : m.date.HasPlainYear) (hny : n.date.HasPlainYear) :
    m.text < n.text ↔ m.seconds < n.seconds := by
  have h := Precision.second.text_lt_text_iff hm hn hmy hny
  rwa [Precision.size, Int.ediv_one, Int.ediv_one] at h

end SampleSearch
