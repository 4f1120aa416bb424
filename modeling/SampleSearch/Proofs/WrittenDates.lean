import SampleSearch.Proofs.CalendarOrder

/-!
# What a written date stands for

A date that is read has the shape of its format, with a blank or a `T` before the time. If it is
written in ASCII, its numbers are those of its window: the window is a day, a minute or a second,
and the text of this unit is the written date with a blank before the time.
-/

namespace SampleSearch

theorem toNat_of_isDecimalDigit {c : Char} (h : isDecimalDigit c = true) :
    (48 ≤ c.toNat ∧ c.toNat ≤ 57) ∨ 128 ≤ c.toNat := by
  have hzeros : ∀ z ∈ digitZeros, z = 48 ∨ 128 ≤ z := by decide
  obtain ⟨z, hz, hc⟩ := List.any_eq_true.1 h
  rw [Bool.and_eq_true, decide_eq_true_eq, decide_eq_true_eq] at hc
  have := hzeros z hz
  omega

namespace Text

/-- A run of digits of any script, of a given length. -/
def IsNumeral (width : Nat) (t : Text) : Prop := t.length = width ∧ t.all isDecimalDigit = true

def IsAscii (t : Text) : Prop := ∀ c ∈ t, c.toNat < 128

instance (t : Text) : Decidable t.IsAscii :=
  decidable_of_iff ((t.all fun c => c.toNat < 128) = true) (by simp [IsAscii])

theorem IsNumeral.all_isDigit {width : Nat} {t : Text} (h : t.IsNumeral width) (ha : t.IsAscii) :
    t.all Char.isDigit = true := by
  refine List.all_eq_true.2 fun c hc => ?_
  have hdigit := toNat_of_isDecimalDigit (List.all_eq_true.1 h.2 c hc)
  have hascii := ha c hc
  simp only [Char.isDigit, Bool.and_eq_true, decide_eq_true_eq, ge_iff_le, UInt32.le_iff_toNat_le]
  change 48 ≤ c.toNat ∧ c.toNat ≤ 57
  omega

theorem nat?_of_isDigit {t : Text} (hpos : 0 < t.length) (h : t.all Char.isDigit = true) :
    nat? t = some (digitsValue t) := by
  have hne : t.isEmpty = false := by
    cases t with
    | nil => cases hpos
    | cons c t => rfl
  rw [nat?, hne, h]
  rfl

/-- A numeral in ASCII is its value, padded to its length. -/
theorem IsNumeral.nat? {width : Nat} {t : Text} (h : t.IsNumeral width) (hpos : 0 < width)
    (ha : t.IsAscii) : ∃ n, Text.nat? t = some n ∧ n < 10 ^ width ∧ padded width n = t := by
  obtain ⟨rfl, -⟩ := id h
  have hdigits := h.all_isDigit ha
  exact ⟨_, nat?_of_isDigit hpos hdigits, digitsValue_lt hdigits, padded_digitsValue hpos hdigits⟩

theorem isNumeral_two {t : Text} : t.IsNumeral 2 ↔
    ∃ a b, t = [a, b] ∧ isDecimalDigit a = true ∧ isDecimalDigit b = true := by
  constructor
  · rintro ⟨hlen, hall⟩
    match t, hlen with
    | [a, b], _ =>
      simp only [List.all_cons, List.all_nil, Bool.and_eq_true] at hall
      exact ⟨a, b, rfl, hall.1, hall.2.1⟩
  · rintro ⟨a, b, rfl, ha, hb⟩
    exact ⟨rfl, by simp [ha, hb]⟩

theorem isNumeral_four {t : Text} : t.IsNumeral 4 ↔
    ∃ a b c d, t = [a, b, c, d] ∧ isDecimalDigit a = true ∧ isDecimalDigit b = true ∧
      isDecimalDigit c = true ∧ isDecimalDigit d = true := by
  constructor
  · rintro ⟨hlen, hall⟩
    match t, hlen with
    | [a, b, c, d], _ =>
      simp only [List.all_cons, List.all_nil, Bool.and_eq_true] at hall
      exact ⟨a, b, c, d, rfl, hall.1, hall.2.1, hall.2.2.1, hall.2.2.2.1⟩
  · rintro ⟨a, b, c, d, rfl, ha, hb, hc, hd⟩
    exact ⟨rfl, by simp [ha, hb, hc, hd]⟩

/-- A written date with a blank before the time. -/
def spaced (value : Text) : Text := value.map fun c => if c = 'T' then ' ' else c

theorem spaced_cons {c : Char} (h : c ≠ 'T') (s : Text) : spaced (c :: s) = c :: spaced s := by
  rw [spaced, List.map_cons, if_neg h, spaced]

theorem spaced_sign {c : Char} (h : c = ' ' ∨ c = 'T') (s : Text) :
    spaced (c :: s) = ' ' :: spaced s := by
  rcases h with rfl | rfl <;> rfl

theorem spaced_append (s t : Text) : spaced (s ++ t) = spaced s ++ spaced t := List.map_append

theorem IsNumeral.spaced_eq {width : Nat} {t : Text} (h : t.IsNumeral width) : spaced t = t := by
  have hkept : ∀ c ∈ t, (if c = 'T' then ' ' else c) = c := by
    intro c hc
    refine if_neg ?_
    rintro rfl
    exact absurd (List.all_eq_true.1 h.2 _ hc) (by decide)
  exact (List.map_congr_left hkept).trans (List.map_id' t)

theorem isAscii_spaced {t : Text} (h : t.IsAscii) : t.spaced.IsAscii := by
  intro c hc
  obtain ⟨d, hd, rfl⟩ := List.mem_map.1 hc
  split_ifs
  · decide
  · exact h d hd

end Text

namespace WrittenDate

open Text

/-- What stands between a day and its time. -/
def IsTimeSign (c : Char) : Prop := c = ' ' ∨ c = 'T'

/-- A text behind a day and the parts of the time in it. -/
inductive HasTime : Text → Option (Text × Text × Option Text) → Prop
  | nothing : HasTime [] none
  | minute {c : Char} {h m : Text} (hc : IsTimeSign c) (hh : h.IsNumeral 2) (hm : m.IsNumeral 2) :
      HasTime (c :: h ++ ':' :: m) (some (h, m, none))
  | second {c : Char} {h m s : Text} (hc : IsTimeSign c) (hh : h.IsNumeral 2)
      (hm : m.IsNumeral 2) (hs : s.IsNumeral 2) :
      HasTime (c :: h ++ ':' :: m ++ ':' :: s) (some (h, m, some s))

theorem time?_eq_some_iff {r : Text} {t : Option (Text × Text × Option Text)} :
    time? r = some t ↔ HasTime r t := by
  constructor
  · intro h
    unfold time? at h
    split at h
    · cases h
      exact .nothing
    · split at h
      · rename_i c h1 h2 m1 m2 hall
        cases h
        simp only [Bool.and_eq_true, Bool.or_eq_true, beq_iff_eq, List.all_cons,
          List.all_nil] at hall
        obtain ⟨hc, hh1, hh2, hm1, hm2, -⟩ := hall
        exact .minute hc (isNumeral_two.2 ⟨h1, h2, rfl, hh1, hh2⟩)
          (isNumeral_two.2 ⟨m1, m2, rfl, hm1, hm2⟩)
      · cases h
    · split at h
      · rename_i c h1 h2 m1 m2 s1 s2 hall
        cases h
        simp only [Bool.and_eq_true, Bool.or_eq_true, beq_iff_eq, List.all_cons,
          List.all_nil] at hall
        obtain ⟨hc, hh1, hh2, hm1, hm2, hs1, hs2, -⟩ := hall
        exact .second hc (isNumeral_two.2 ⟨h1, h2, rfl, hh1, hh2⟩)
          (isNumeral_two.2 ⟨m1, m2, rfl, hm1, hm2⟩) (isNumeral_two.2 ⟨s1, s2, rfl, hs1, hs2⟩)
      · cases h
    · cases h
  · intro h
    cases h with
    | nothing => rfl
    | minute hc hh hm =>
      obtain ⟨h1, h2, rfl, hh1, hh2⟩ := isNumeral_two.1 hh
      obtain ⟨m1, m2, rfl, hm1, hm2⟩ := isNumeral_two.1 hm
      rcases hc with rfl | rfl <;> simp [time?, hh1, hh2, hm1, hm2]
    | second hc hh hm hs =>
      obtain ⟨h1, h2, rfl, hh1, hh2⟩ := isNumeral_two.1 hh
      obtain ⟨m1, m2, rfl, hm1, hm2⟩ := isNumeral_two.1 hm
      obtain ⟨s1, s2, rfl, hs1, hs2⟩ := isNumeral_two.1 hs
      rcases hc with rfl | rfl <;> simp [time?, hh1, hh2, hm1, hm2, hs1, hs2]

theorem read?_eq_some_iff {v : Text} {w : WrittenDate} :
    read? v = some w ↔ w.year.IsNumeral 4 ∧ w.month.IsNumeral 2 ∧ w.day.IsNumeral 2 ∧
      ∃ r, HasTime r w.time ∧ v = w.year ++ '-' :: w.month ++ '-' :: w.day ++ r := by
  constructor
  · intro h
    unfold read? at h
    split at h
    · split at h
      · rename_i y1 y2 y3 y4 m1 m2 d1 d2 rest hall
        obtain ⟨t, ht, rfl⟩ := Option.map_eq_some_iff.1 h
        simp only [Bool.and_eq_true, List.all_cons, List.all_nil] at hall
        obtain ⟨hy1, hy2, hy3, hy4, hm1, hm2, hd1, hd2, -⟩ := hall
        exact ⟨isNumeral_four.2 ⟨y1, y2, y3, y4, rfl, hy1, hy2, hy3, hy4⟩,
          isNumeral_two.2 ⟨m1, m2, rfl, hm1, hm2⟩, isNumeral_two.2 ⟨d1, d2, rfl, hd1, hd2⟩,
          rest, time?_eq_some_iff.1 ht, rfl⟩
      · cases h
    · cases h
  · obtain ⟨y, m, d, t⟩ := w
    rintro ⟨hy, hm, hd, r, ht, rfl⟩
    obtain ⟨y1, y2, y3, y4, rfl, hy1, hy2, hy3, hy4⟩ := isNumeral_four.1 hy
    obtain ⟨m1, m2, rfl, hm1, hm2⟩ := isNumeral_two.1 hm
    obtain ⟨d1, d2, rfl, hd1, hd2⟩ := isNumeral_two.1 hd
    have htime := time?_eq_some_iff.2 ht
    simp [read?, hy1, hy2, hy3, hy4, hm1, hm2, hd1, hd2, htime]

def timeText : Option (Text × Text × Option Text) → Text
  | none => []
  | some (h, m, none) => ' ' :: h ++ ':' :: m
  | some (h, m, some s) => ' ' :: h ++ ':' :: m ++ ':' :: s

/-- The written form, with a blank before the time. -/
def text (w : WrittenDate) : Text :=
  w.year ++ '-' :: w.month ++ '-' :: w.day ++ timeText w.time

def IsTime (t : Option (Text × Text × Option Text)) : Prop :=
  ∀ h m s, t = some (h, m, s) → h.IsNumeral 2 ∧ m.IsNumeral 2 ∧ ∀ u ∈ s, u.IsNumeral 2

structure IsShaped (w : WrittenDate) : Prop where
  year : w.year.IsNumeral 4
  month : w.month.IsNumeral 2
  day : w.day.IsNumeral 2
  time : IsTime w.time

theorem time?_eq_some {s : Text} {t : Option (Text × Text × Option Text)}
    (h : time? s = some t) : spaced s = timeText t ∧ IsTime t := by
  cases time?_eq_some_iff.1 h with
  | nothing => exact ⟨rfl, nofun⟩
  | minute hc hh hm =>
    constructor
    · rw [spaced_append, spaced_sign hc, hh.spaced_eq, spaced_cons (by decide), hm.spaced_eq]
      rfl
    · rintro _ _ _ ⟨⟩
      exact ⟨hh, hm, nofun⟩
  | second hc hh hm hs =>
    constructor
    · rw [spaced_append, spaced_append, spaced_sign hc, hh.spaced_eq, spaced_cons (by decide),
        hm.spaced_eq, spaced_cons (by decide), hs.spaced_eq]
      rfl
    · rintro _ _ _ ⟨⟩
      refine ⟨hh, hm, ?_⟩
      rintro _ ⟨⟩
      exact hs

theorem read?_eq_some {value : Text} {w : WrittenDate} (h : read? value = some w) :
    spaced value = w.text ∧ w.IsShaped := by
  obtain ⟨hy, hm, hd, r, hr, rfl⟩ := read?_eq_some_iff.1 h
  obtain ⟨htext, htime⟩ := time?_eq_some (time?_eq_some_iff.2 hr)
  refine ⟨?_, hy, hm, hd, htime⟩
  rw [spaced_append, spaced_append, spaced_append, hy.spaced_eq, spaced_cons (by decide),
    hm.spaced_eq, spaced_cons (by decide), hd.spaced_eq, htext]
  rfl

end WrittenDate

namespace Date

theorem exists?_eq_some {year : Int} {month day : Nat} {d : Date}
    (h : exists? year month day = some d) : d = ⟨year, month, day⟩ ∧ d.IsReal := by
  unfold exists? at h
  split at h
  · rename_i hreal
    cases h
    simp only [Bool.and_eq_true, decide_eq_true_eq] at hreal
    exact ⟨rfl, hreal.1.1.1, hreal.1.1.2, hreal.1.2, hreal.2⟩
  · cases h

end Date

namespace WrittenDate

variable {w : WrittenDate}

theorem date?_eq_some (hw : w.IsShaped) (ha : w.text.IsAscii) {d : Date}
    (h : w.date? = some d) : d.IsReal ∧ d.HasPlainYear ∧
      d.text = w.year ++ '-' :: w.month ++ '-' :: w.day := by
  have hmem : ∀ c, c ∈ w.year ∨ c ∈ w.month ∨ c ∈ w.day → c ∈ w.text := by
    intro c hc
    simp only [text, List.mem_append, List.mem_cons]
    tauto
  obtain ⟨y, hy, hybound, hytext⟩ :=
    hw.year.nat? (by decide) fun c hc => ha c (hmem c (.inl hc))
  obtain ⟨m, hm, -, hmtext⟩ :=
    hw.month.nat? (by decide) fun c hc => ha c (hmem c (.inr (.inl hc)))
  obtain ⟨n, hn, -, hntext⟩ :=
    hw.day.nat? (by decide) fun c hc => ha c (hmem c (.inr (.inr hc)))
  simp only [date?, hy, hm, hn, Option.bind_eq_bind, Option.bind_some] at h
  obtain ⟨rfl, hreal⟩ := Date.exists?_eq_some h
  have hplain : (0 : Int) ≤ y ∧ (y : Int) ≤ 9999 := by omega
  refine ⟨hreal, hplain, ?_⟩
  rw [Date.text, Date.yearText, if_pos hplain, Int.toNat_natCast, hytext, hmtext, hntext]

end WrittenDate

namespace Window

open Text

/-- A window that is a day, a minute or a second with a plain year, together with its text. -/
structure IsUnit (w : Window) (p : Precision) (t : Text) : Prop where
  eq_window : p.window w.start = w
  floor_start : p.floor w.start = w.start
  isReal : w.start.IsReal
  hasPlainYear : w.start.date.HasPlainYear
  text_start : p.text w.start = t

theorem isUnit_day {d : Date} (hd : d.IsReal) (hy : d.HasPlainYear) :
    (day d).IsUnit .day d.text :=
  ⟨rfl, rfl, Moment.isReal_midnight hd, hy, rfl⟩

theorem isUnit_minute {d : Date} (hd : d.IsReal) (hy : d.HasPlainYear) {hour minute : Nat}
    {w : Window} (h : minute? d hour minute = some w) :
    w.IsUnit .minute (d.text ++ ' ' :: padded 2 hour ++ ':' :: padded 2 minute) := by
  unfold minute? at h
  split at h
  · rename_i hclock
    cases h
    rw [Bool.and_eq_true, decide_eq_true_eq, decide_eq_true_eq] at hclock
    exact ⟨rfl, rfl, ⟨hd, hclock.1, hclock.2, Nat.succ_pos 59⟩, hy, rfl⟩
  · cases h

theorem isUnit_second {d : Date} (hd : d.IsReal) (hy : d.HasPlainYear) {hour minute second : Nat}
    {w : Window} (h : second? d hour minute second = some w) :
    w.IsUnit .second (Moment.mk d hour minute second).text := by
  unfold second? at h
  split at h
  · rename_i hclock
    cases h
    simp only [Bool.and_eq_true, decide_eq_true_eq] at hclock
    exact ⟨rfl, rfl, ⟨hd, hclock.1.1, hclock.1.2, hclock.2⟩, hy, rfl⟩
  · cases h

/-- The unit of a day with a time in ASCII behind it. -/
theorem isUnit_of_ofParts? {d : Date} (hd : d.IsReal) (hy : d.HasPlainYear) {hour minute : Text}
    {second : Option Text} {w : Window} (htime : WrittenDate.IsTime (some (hour, minute, second)))
    (ha : (WrittenDate.timeText (some (hour, minute, second))).IsAscii)
    (h : ofParts? d (nat? hour) (nat? minute) (second.bind nat?) = some w) :
    ∃ p, w.IsUnit p (d.text ++ WrittenDate.timeText (some (hour, minute, second))) := by
  obtain ⟨hhour, hminute, hsecond⟩ := htime _ _ _ rfl
  have hvalue : ∀ {t : Text}, t.IsNumeral 2 →
      (∀ c ∈ t, c ∈ WrittenDate.timeText (some (hour, minute, second))) →
        ∃ n, nat? t = some n ∧ padded 2 n = t := fun ht hmem =>
    let ⟨n, hn, _, htext⟩ := ht.nat? (by decide) fun c hc => ha c (hmem c hc)
    ⟨n, hn, htext⟩
  have hmem : ∀ c, c ∈ hour ∨ c ∈ minute ∨ (∃ s ∈ second, c ∈ s) →
      c ∈ WrittenDate.timeText (some (hour, minute, second)) := by
    intro c hc
    cases second <;> simp [WrittenDate.timeText] at hc ⊢ <;> tauto
  obtain ⟨a, ha, hatext⟩ := hvalue hhour fun c hc => hmem c (.inl hc)
  obtain ⟨b, hb, hbtext⟩ := hvalue hminute fun c hc => hmem c (.inr (.inl hc))
  rw [ha, hb] at h
  cases second with
  | none =>
    refine ⟨.minute, ?_⟩
    rw [WrittenDate.timeText, ← hatext, ← hbtext]
    simpa using isUnit_minute hd hy h
  | some second =>
    obtain ⟨e, he, hetext⟩ := hvalue (hsecond _ rfl) fun c hc =>
      hmem c (.inr (.inr ⟨second, rfl, hc⟩))
    rw [Option.bind_some, he] at h
    refine ⟨.second, ?_⟩
    rw [WrittenDate.timeText, ← hatext, ← hbtext, ← hetext]
    simpa [Moment.text, Moment.clockText] using isUnit_second hd hy h

/-- A date in ASCII is read as the unit whose text it is. -/
theorem isUnit_of_read? {value : Text} {w : Window} (h : read? value = some w)
    (ha : value.IsAscii) : ∃ p, w.IsUnit p value.spaced := by
  obtain ⟨date, hdate, h⟩ := Option.bind_eq_some_iff.1 h
  obtain ⟨d, hd, h⟩ := Option.bind_eq_some_iff.1 h
  obtain ⟨hspaced, hshape⟩ := WrittenDate.read?_eq_some hdate
  have hascii : date.text.IsAscii := hspaced ▸ isAscii_spaced ha
  obtain ⟨hreal, hplain, hday⟩ := WrittenDate.date?_eq_some hshape hascii hd
  have htime : (WrittenDate.timeText date.time).IsAscii := fun c hc =>
    hascii c (List.mem_append.2 (.inr hc))
  have hparts := hshape.time
  rw [hspaced, WrittenDate.text, ← hday]
  rcases ht : date.time with _ | ⟨hour, minute, second⟩
  · rw [ht] at h
    cases h
    exact ⟨.day, by simpa [WrittenDate.timeText] using isUnit_day hreal hplain⟩
  · rw [ht] at h htime hparts
    exact isUnit_of_ofParts? hreal hplain hparts htime h

end Window

end SampleSearch
