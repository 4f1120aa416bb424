import SampleSearch.Proofs.UploadOrder
import SampleSearch.Proofs.WrittenDates

/-!
# Conditions of moments

The condition of a written date compares texts with both ends of its window. For a stored moment
whose year has four digits this comes to the front of its text: a term is true of the moments that
begin with what is written, and a range of those whose front lies between the written ends. In the
calendar these are the moments of the written day, minute or second, and those from the unit of
the lower end to the unit of the upper end.
-/

namespace SampleSearch

namespace Precision

variable {a b : Int}

theorem lt_iff_div_lt (p : Precision) (hb : b = p.size * (b / p.size)) :
    a < b ↔ a / p.size < b / p.size := by
  cases p <;> simp only [size] at hb ⊢ <;> omega

theorem lt_add_size_iff (p : Precision) (hb : b = p.size * (b / p.size)) :
    a < b + p.size ↔ ¬ b / p.size < a / p.size := by
  cases p <;> simp only [size] at hb ⊢ <;> omega

theorem window_inj {p q : Precision} {m n : Moment} (hm : m.IsReal)
    (h : p.window m = q.window n) : p = q ∧ m = n := by
  have hstart : m = n := by rw [← p.window_start m, h, q.window_start]
  subst hstart
  have hp := p.seconds_window_stop hm
  have hq := q.seconds_window_stop hm
  rw [h] at hp
  have hsize : p.size = q.size := by omega
  refine ⟨?_, rfl⟩
  revert hsize
  cases p <;> cases q <;> decide

end Precision

namespace Window.IsUnit

variable {w : Window} {p : Precision} {t : Text}

theorem seconds_start (h : w.IsUnit p t) :
    w.start.seconds = p.size * (w.start.seconds / p.size) := by
  rw [← p.seconds_floor h.isReal, h.floor_start]

theorem isReal_stop (h : w.IsUnit p t) : w.stop.IsReal := by
  rw [← h.eq_window]
  exact p.isReal_window_stop h.isReal

theorem seconds_stop (h : w.IsUnit p t) : w.stop.seconds = w.start.seconds + p.size := by
  conv_lhs => rw [← h.eq_window]
  exact p.seconds_window_stop h.isReal

theorem hasPlainYear_stop (h : w.IsUnit p t) (hend : w.stop.date.year ≤ 9999) :
    w.stop.date.HasPlainYear := by
  refine ⟨?_, hend⟩
  by_contra hneg
  have hstart := h.hasPlainYear.1
  have hback : w.stop.date.ordinal < w.start.date.ordinal :=
    Date.ordinal_lt_of_lt h.isReal_stop.date h.isReal.date (.inl (by omega))
  have hsize := p.size_pos
  have hseconds := h.seconds_stop
  obtain ⟨-, hhour, hminute, hsecond⟩ := h.isReal_stop
  unfold Moment.seconds at hseconds
  omega

theorem exists_iff (h : w.IsUnit p t) {P : Precision → Moment → Prop} :
    (∃ q start, some w = some (q.window start) ∧ P q start) ↔ P p w.start := by
  constructor
  · rintro ⟨q, start, heq, hP⟩
    have hwindow : p.window w.start = q.window start := h.eq_window.trans (Option.some.inj heq)
    obtain ⟨rfl, rfl⟩ := Precision.window_inj h.isReal hwindow
    exact hP
  · intro hP
    exact ⟨p, w.start, congrArg some h.eq_window.symm, hP⟩

variable {m : Moment}

/-- The front of a moment that is as long as a written unit is the text of its own unit. -/
theorem take_text (h : w.IsUnit p t) (hm : m.IsReal) (hy : m.date.HasPlainYear) :
    m.text.take t.length = p.text m := by
  have hlen : t.length = (p.text m).length := by
    rw [← h.text_start, p.length_text h.isReal h.hasPlainYear, p.length_text hm hy]
  rw [hlen]
  exact (List.prefix_iff_eq_take.1 (p.text_prefix m)).symm

theorem lt_start_iff (h : w.IsUnit p t) (hm : m.IsReal) (hy : m.date.HasPlainYear) :
    m.text < w.start.text ↔ m.text.take t.length < t := by
  rw [h.take_text hm hy, Moment.text_lt_text_iff hm h.isReal hy h.hasPlainYear,
    p.lt_iff_div_lt h.seconds_start, ← p.text_lt_text_iff hm h.isReal hy h.hasPlainYear,
    h.text_start]

theorem lt_stop_iff (h : w.IsUnit p t) (hend : w.stop.date.year ≤ 9999) (hm : m.IsReal)
    (hy : m.date.HasPlainYear) : m.text < w.stop.text ↔ ¬ t < m.text.take t.length := by
  rw [h.take_text hm hy,
    Moment.text_lt_text_iff hm h.isReal_stop hy (h.hasPlainYear_stop hend), h.seconds_stop,
    p.lt_add_size_iff h.seconds_start, ← p.text_lt_text_iff h.isReal hm h.hasPlainYear hy,
    h.text_start]

/-- The moments of a window are those that begin with its written form. -/
theorem between_iff (h : w.IsUnit p t) (hend : w.stop.date.year ≤ 9999) (hm : m.IsReal)
    (hy : m.date.HasPlainYear) :
    ¬ m.text < w.start.text ∧ m.text < w.stop.text ↔ t <+: m.text := by
  rw [h.lt_start_iff hm hy, h.lt_stop_iff hend hm hy, List.prefix_iff_eq_take]
  constructor
  · intro ⟨hge, hle⟩
    exact List.le_antisymm hge hle
  · intro heq
    rw [← heq]
    exact ⟨List.lt_irrefl t, List.lt_irrefl t⟩

/-- Units compare as the fronts of their moments do. -/
theorem start_le_floor_iff (h : w.IsUnit p t) (hm : m.IsReal) (hy : m.date.HasPlainYear) :
    w.start.seconds ≤ (p.floor m).seconds ↔ ¬ m.text.take t.length < t := by
  rw [h.take_text hm hy, ← h.text_start, p.text_lt_text_iff hm h.isReal hy h.hasPlainYear, not_lt,
    p.seconds_floor hm]
  conv_lhs => rw [h.seconds_start]
  exact Int.mul_le_mul_left p.size_pos

theorem floor_le_start_iff (h : w.IsUnit p t) (hm : m.IsReal) (hy : m.date.HasPlainYear) :
    (p.floor m).seconds ≤ w.start.seconds ↔ ¬ t < m.text.take t.length := by
  rw [h.take_text hm hy, ← h.text_start, p.text_lt_text_iff h.isReal hm h.hasPlainYear hy, not_lt,
    p.seconds_floor hm]
  conv_lhs => rw [h.seconds_start]
  exact Int.mul_le_mul_left p.size_pos

theorem floor_eq_start_iff (h : w.IsUnit p t) (hm : m.IsReal) (hy : m.date.HasPlainYear) :
    p.floor m = w.start ↔ t <+: m.text := by
  rw [List.prefix_iff_eq_take, h.take_text hm hy, ← h.text_start,
    p.text_inj h.isReal hm h.hasPlainYear hy,
    ← Moment.seconds_inj (p.isReal_floor hm) h.isReal, p.seconds_floor hm]
  conv_lhs => rw [h.seconds_start]
  exact (Int.mul_eq_mul_left_iff p.size_pos.ne').trans eq_comm

end Window.IsUnit

namespace Cell

theorem stands_ge_text {s t : Text} : (text s).stands .ge (text t) = .yes ↔ ¬ s < t := by
  rw [stands_text_eq_yes, Comparison.holds, bne_iff_ne, ne_eq, compareTexts_eq_lt]

theorem stands_lt_text {s t : Text} : (text s).stands .lt (text t) = .yes ↔ s < t := by
  rw [stands_text_eq_yes, Comparison.holds, beq_iff_eq, compareTexts_eq_lt]

end Cell

namespace Leaf

/-- What is written between the escapes of a value, with a blank before the time. -/
def writtenDate (value : Text) : Text := (Text.unescape value).spaced

def dates : Leaf → List Text
  | term value => [Text.unescape value]
  | range r => ([r.low, r.high].filter fun value => !isUnbounded value).map Text.unescape

def Writes (value : Text) (p : Precision) (start : Moment) : Prop :=
  Window.read? (Text.unescape value) = some (p.window start)

def IsFrontFrom (value t : Text) : Prop :=
  isUnbounded value ∨ ¬ t.take (writtenDate value).length < writtenDate value

def IsFrontUpTo (value t : Text) : Prop :=
  isUnbounded value ∨ ¬ writtenDate value < t.take (writtenDate value).length

def IsUnitFrom (value : Text) (m : Moment) : Prop :=
  isUnbounded value ∨ ∃ p start, Writes value p start ∧ start.seconds ≤ (p.floor m).seconds

def IsUnitUpTo (value : Text) (m : Moment) : Prop :=
  isUnbounded value ∨ ∃ p start, Writes value p start ∧ (p.floor m).seconds ≤ start.seconds

/-- Whether a text starts with what is written, or its front lies between the written ends. -/
def SelectsFront (t : Text) : Leaf → Prop
  | term value => writtenDate value <+: t
  | range r => IsFrontFrom r.low t ∧ IsFrontUpTo r.high t

/-- Whether a moment lies in the written day, minute or second, or in one between the ends. -/
def SelectsUnit (m : Moment) : Leaf → Prop
  | term value => ∃ p start, Writes value p start ∧ p.floor m = start
  | range r => IsUnitFrom r.low m ∧ IsUnitUpTo r.high m

open Condition

variable {db : Database} {s : Scope} {c : Column} {m : Moment}

theorem condition_moment {d : Directory} {v : Viewer} {f : ResolvedField}
    (hf : f.strategy = .moment c) (leaf : Leaf) :
    leaf.condition d v f =
      match leaf with
      | term value => momentTerm f.path c value
      | range r => momentRange f.path c r := by
  obtain ⟨path, kind, strategy, residual⟩ := f
  cases hf
  cases leaf <;> rfl

theorem isUnit_of_condition {d : Directory} {v : Viewer} {f : ResolvedField} {leaf : Leaf}
    {e : Condition} (hf : f.strategy = .moment c) (h : leaf.condition d v f = .ok e)
    (ha : ∀ t ∈ leaf.dates, t.IsAscii) {t : Text} (ht : t ∈ leaf.dates) :
    ∃ w p, Window.read? t = some w ∧ w.IsUnit p t.spaced := by
  suffices hread : ∃ w, Window.read? t = some w by
    obtain ⟨w, hw⟩ := hread
    obtain ⟨p, hp⟩ := Window.isUnit_of_read? hw (ha t ht)
    exact ⟨w, p, hw, hp⟩
  cases leaf with
  | term value =>
    rw [condition_moment hf] at h
    obtain rfl : t = Text.unescape value := List.mem_singleton.1 ht
    simp only [momentTerm] at h
    split at h
    · cases h
    · obtain ⟨w, hw, -⟩ := bind_eq_ok_iff.1 h
      exact ⟨w, read?_of_window? hw⟩
  | range r =>
    rw [condition_moment hf] at h
    simp only [momentRange] at h
    split at h
    · cases h
    · obtain ⟨low, hlow, h⟩ := bind_eq_ok_iff.1 h
      obtain ⟨high, hhigh, -⟩ := bind_eq_ok_iff.1 h
      obtain ⟨value, hvalue, rfl⟩ := List.mem_map.1 ht
      obtain ⟨hmem, hclosed⟩ := List.mem_filter.1 hvalue
      have hopen : ¬ isUnbounded value = true := by simpa using hclosed
      rcases (by simpa using hmem : value = r.low ∨ value = r.high) with rfl | rfl
      · rw [momentLow, if_neg hopen] at hlow
        obtain ⟨w, hw, -⟩ := bind_eq_ok_iff.1 hlow
        exact ⟨w, read?_of_window? hw⟩
      · rw [momentHigh, if_neg hopen] at hhigh
        obtain ⟨w, hw, -⟩ := bind_eq_ok_iff.1 hhigh
        exact ⟨w, read?_of_window? hw⟩

theorem ending_eq_yes {value : Text} {truth : Text → Truth} :
    ending value truth = .yes ↔ isUnbounded value ∨ truth (Text.unescape value) = .yes := by
  unfold ending
  split_ifs with h <;> simp [h]

theorem mem_dates_low {r : Range} (h : ¬ isUnbounded r.low = true) :
    Text.unescape r.low ∈ (range r).dates := by
  simp [dates, h]

theorem mem_dates_high {r : Range} (h : ¬ isUnbounded r.high = true) :
    Text.unescape r.high ∈ (range r).dates := by
  by_cases hlow : isUnbounded r.low = true <;> simp [dates, h, hlow]

theorem low_iff (value : Text) (hm : m.IsReal) (hy : m.date.HasPlainYear)
    (hunit : ¬ isUnbounded value = true → ∃ w p,
      Window.read? (Text.unescape value) = some w ∧ w.IsUnit p (writtenDate value)) :
    ((ending value fun t => (Window.read? t).elim .unknown fun w =>
        (Cell.text m.text).stands .ge (.text w.start.text)) = .yes ↔ IsFrontFrom value m.text) ∧
      (IsFrontFrom value m.text ↔ IsUnitFrom value m) := by
  simp only [ending_eq_yes, IsFrontFrom, IsUnitFrom, Writes]
  by_cases hopen : isUnbounded value = true
  · simp [hopen]
  · obtain ⟨w, p, hread, hw⟩ := hunit hopen
    rw [hread, hw.exists_iff, hw.start_le_floor_iff hm hy, Option.elim_some, Cell.stands_ge_text,
      hw.lt_start_iff hm hy]
    exact ⟨Iff.rfl, Iff.rfl⟩

theorem high_iff (value : Text) (hm : m.IsReal) (hy : m.date.HasPlainYear)
    (hunit : ¬ isUnbounded value = true → ∃ w p,
      Window.read? (Text.unescape value) = some w ∧ w.stop.date.year ≤ 9999 ∧
        w.IsUnit p (writtenDate value)) :
    ((ending value fun t => (Window.read? t).elim .unknown fun w =>
        (Cell.text m.text).stands .lt (.text w.stop.text)) = .yes ↔ IsFrontUpTo value m.text) ∧
      (IsFrontUpTo value m.text ↔ IsUnitUpTo value m) := by
  simp only [ending_eq_yes, IsFrontUpTo, IsUnitUpTo, Writes]
  by_cases hopen : isUnbounded value = true
  · simp [hopen]
  · obtain ⟨w, p, hread, hend, hw⟩ := hunit hopen
    rw [hread, hw.exists_iff, hw.floor_le_start_iff hm hy, Option.elim_some, Cell.stands_lt_text,
      hw.lt_stop_iff hend hm hy]
    exact ⟨Iff.rfl, Iff.rfl⟩

/-- On a stored moment with a plain year, the condition of a date or a range of dates in ASCII is
true if the front of the moment is what is written or lies between what is written. The windows
may not reach into the year 10000. -/
theorem truth_moment_iff_selectsFront {d : Directory} {v : Viewer} {f : ResolvedField} {leaf : Leaf}
    {e : Condition} (hmem : f.strategy ∈ FieldEntry.strategies) (hf : f.strategy = .moment c)
    (h : leaf.condition d v f = .ok e) (ha : ∀ t ∈ leaf.dates, t.IsAscii)
    (hend : ∀ t ∈ leaf.dates, ∀ w, Window.read? t = some w → w.stop.date.year ≤ 9999)
    (hm : m.IsReal) (hy : m.date.HasPlainYear) (hcell : s c = .text m.text) :
    (e.truth db s = .yes ↔ leaf.SelectsFront m.text) ∧
      (e.truth db s = .yes ↔ leaf.SelectsUnit m) := by
  have hc : c.isInteger = false := FieldEntry.moment_of_mem_strategies (hf ▸ hmem)
  have hunit : ∀ t ∈ leaf.dates, ∃ w p, Window.read? t = some w ∧ w.IsUnit p t.spaced :=
    fun t ht => isUnit_of_condition hf h ha ht
  rw [condition_moment hf] at h
  cases leaf with
  | term value =>
    obtain ⟨w, p, hread, hw⟩ := hunit _ (List.mem_singleton_self _)
    have hstop := hend _ (List.mem_singleton_self _) w hread
    have htruth : e.truth db s = .yes ↔ writtenDate value <+: m.text := by
      rw [truth_momentTerm hc h, hcell, Cell.inWindow, hread]
      simp only [Truth.both_eq_yes, Cell.stands_ge_text, Cell.stands_lt_text]
      exact hw.between_iff hstop hm hy
    refine ⟨htruth, htruth.trans ?_⟩
    simp only [SelectsUnit, Writes, hread, hw.exists_iff]
    exact (hw.floor_eq_start_iff hm hy).symm
  | range r =>
    have hlow := low_iff r.low hm hy fun hclosed => hunit _ (mem_dates_low hclosed)
    have hhigh := high_iff r.high hm hy fun hclosed => by
      obtain ⟨w, p, hread, hw⟩ := hunit _ (mem_dates_high hclosed)
      exact ⟨w, p, hread, hend _ (mem_dates_high hclosed) w hread, hw⟩
    have htruth : e.truth db s = .yes ↔ (range r).SelectsFront m.text := by
      rw [truth_momentRange hc h, betweenWindows, hcell, Truth.both_eq_yes]
      exact and_congr hlow.1 hhigh.1
    exact ⟨htruth, htruth.trans (and_congr hlow.2 hhigh.2)⟩

def leapRange : Leaf := .range ⟨"2019-12-31T23:59".toList, "2020-02-29".toList, true, true⟩

def uploadedInLeapRange : Condition :=
  .conjoin [.compare (.column .objectUploadTime) .ge (.moment ⟨⟨2019, 12, 31⟩, 23, 59, 0⟩),
    .compare (.column .objectUploadTime) .lt (.moment ⟨⟨2020, 3, 1⟩, 0, 0, 0⟩)]

/-- The last second of the leap day is in the range, and the next one is not. -/
theorem truth_moment_iff_selectsFront_leapRange :
    leapRange.condition Database.blank.directory (.ofUser ⟨1, ['u']⟩)
        ⟨"upload_time".toList, .object, .moment .objectUploadTime, []⟩ = .ok uploadedInLeapRange ∧
      uploadedInLeapRange.truth .blank
        (fun _ => .text (Moment.mk ⟨2020, 2, 29⟩ 23 59 59).text) = .yes ∧
      uploadedInLeapRange.truth .blank
        (fun _ => .text (Moment.mk ⟨2020, 3, 1⟩ 0 0 0).text) ≠ .yes := by
  have hmem : Strategy.moment .objectUploadTime ∈ FieldEntry.strategies := by decide
  have hcondition : leapRange.condition Database.blank.directory (.ofUser ⟨1, ['u']⟩)
      ⟨"upload_time".toList, .object, .moment .objectUploadTime, []⟩ = .ok uploadedInLeapRange :=
    rfl
  have hascii : ∀ t ∈ leapRange.dates, t.IsAscii := by decide
  have hend : ∀ t ∈ leapRange.dates, ∀ w, Window.read? t = some w → w.stop.date.year ≤ 9999 := by
    have h : ∀ t ∈ leapRange.dates,
        (Window.read? t).all (fun w => w.stop.date.year ≤ 9999) = true := by decide
    intro t ht w hw
    simpa [hw] using h t ht
  have hlast : (Moment.mk ⟨2020, 2, 29⟩ 23 59 59).IsReal :=
    ⟨⟨by decide, by decide, by decide, by decide⟩, by decide, by decide, by decide⟩
  have hnext : (Moment.mk ⟨2020, 3, 1⟩ 0 0 0).IsReal :=
    ⟨⟨by decide, by decide, by decide, by decide⟩, by decide, by decide, by decide⟩
  have hyear : (0 : Int) ≤ 2020 ∧ (2020 : Int) ≤ 9999 := by decide
  refine ⟨hcondition, ?_, ?_⟩
  · refine (truth_moment_iff_selectsFront hmem rfl hcondition hascii hend hlast hyear rfl).1.2 ?_
    exact ⟨.inr (by decide), .inr (by decide)⟩
  · rw [ne_eq, (truth_moment_iff_selectsFront hmem rfl hcondition hascii hend hnext hyear rfl).1]
    rintro ⟨-, hopen | hle⟩
    · exact absurd hopen (by decide)
    · exact absurd hle (by decide)

end Leaf

end SampleSearch
