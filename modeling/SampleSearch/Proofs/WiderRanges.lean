import SampleSearch.Proofs.DateGrammar
import SampleSearch.Proofs.MomentConditions

/-!
# Wider ranges of moments

A range of dates whose lower end starts no later and whose upper end stops no earlier than those of
another range is true of every object that the other one is true of. The ends are compared as
moments, the objects by the texts of the ends: what is needed is that the texts of two ends have
the order of their moments. They have it as long as the years are written with four digits.

The last date that can be written stops with the first moment of the year 10000, and the text of
this moment comes before all digits. An upper end that stops there has to be left out, unless the
narrower range stops there already.
-/

namespace SampleSearch

namespace Moment

variable {m n : Moment}

/-- The first moment whose year is not written with four digits. -/
def firstSigned : Moment := .midnight ⟨10000, 1, 1⟩

theorem isReal_firstSigned : firstSigned.IsReal :=
  isReal_midnight ⟨by decide, by decide, by decide, by decide⟩

theorem firstSigned_le_iff (hm : m.IsReal) :
    firstSigned.seconds ≤ m.seconds ↔ 9999 < m.date.year := by
  have hfirst : firstSigned.seconds = 86400 * (Date.yearStart 10000 + 1) := rfl
  have hyear := hm.date.ordinal_bounds
  obtain ⟨-, hhour, hminute, hsecond⟩ := hm
  rw [hfirst]
  unfold seconds
  constructor
  · intro hle
    by_contra hplain
    have hend : Date.yearStart (m.date.year + 1) ≤ Date.yearStart 10000 :=
      Date.yearStart_le (by omega)
    omega
  · intro hlt
    have hstart : Date.yearStart 10000 ≤ Date.yearStart m.date.year := Date.yearStart_le hlt
    omega

theorem text_lt_or_eq (hm : m.IsReal) (hn : n.IsReal) (hmy : m.date.HasPlainYear)
    (hny : n.date.HasPlainYear) (h : m.seconds ≤ n.seconds) :
    m.text < n.text ∨ m.text = n.text := by
  rcases h.lt_or_eq with hlt | heq
  · exact .inl ((text_lt_text_iff hm hn hmy hny).2 hlt)
  · exact .inr (congrArg text ((seconds_inj hm hn).1 heq))

end Moment

namespace WrittenDate.Denotes

variable {t : Text} {p : Precision} {m : Moment}

theorem floor_eq (h : Denotes t p m) : p.floor m = m := by cases h <;> rfl

theorem isUnit (h : Denotes t p m) : (p.window m).IsUnit p (p.text m) where
  eq_window := by rw [p.window_start]
  floor_start := by rw [p.window_start, h.floor_eq]
  isReal := by rw [p.window_start]; exact h.isReal
  hasPlainYear := by rw [p.window_start]; exact h.hasPlainYear
  text_start := by rw [p.window_start]

end WrittenDate.Denotes

namespace Window

variable {w w' : Window} {p q : Precision} {t u : Text}

theorem exists_isUnit_of_read? {v : Text} (h : read? v = some w) : ∃ p t, w.IsUnit p t := by
  obtain ⟨front, back, p, m, -, hfront, -, rfl⟩ := read?_eq_some_iff.1 h
  exact ⟨p, p.text m, hfront.isUnit⟩

namespace IsUnit

theorem stop_eq_firstSigned (h : w.IsUnit p t) (hend : 9999 < w.stop.date.year) :
    w.stop = .firstSigned := by
  rw [← Moment.seconds_inj h.isReal_stop Moment.isReal_firstSigned]
  have hstart : w.start.seconds < Moment.firstSigned.seconds := by
    rw [← not_le, Moment.firstSigned_le_iff h.isReal]
    exact h.hasPlainYear.2.not_gt
  have hstop := (Moment.firstSigned_le_iff h.isReal_stop).2 hend
  -- both ends and the first moment of a year are multiples of the unit
  have haligned := h.seconds_start
  have hwhole : Moment.firstSigned.seconds = p.size * (Moment.firstSigned.seconds / p.size) := by
    cases p <;> rfl
  have hseconds := h.seconds_stop
  cases p <;> simp only [Precision.size] at haligned hwhole hseconds <;> omega

theorem start_text_lt_or_eq (h : w.IsUnit p t) (h' : w'.IsUnit q u)
    (hle : w'.start.seconds ≤ w.start.seconds) :
    w'.start.text < w.start.text ∨ w'.start.text = w.start.text :=
  Moment.text_lt_or_eq h'.isReal h.isReal h'.hasPlainYear h.hasPlainYear hle

/-- A unit that stops later has the later text, but for one that stops with the last plain year. -/
theorem stop_text_lt_or_eq (h : w.IsUnit p t) (h' : w'.IsUnit q u)
    (hle : w.stop.seconds ≤ w'.stop.seconds)
    (hyear : w'.stop.date.year ≤ 9999 ∨ 9999 < w.stop.date.year) :
    w.stop.text < w'.stop.text ∨ w.stop.text = w'.stop.text := by
  by_cases hplain : w'.stop.date.year ≤ 9999
  · have hplain' : w.stop.date.year ≤ 9999 := by
      by_contra hsigned
      have hfirst := (Moment.firstSigned_le_iff h.isReal_stop).2 (not_le.1 hsigned)
      exact absurd ((Moment.firstSigned_le_iff h'.isReal_stop).1 (hfirst.trans hle)) hplain.not_gt
    exact Moment.text_lt_or_eq h.isReal_stop h'.isReal_stop (h.hasPlainYear_stop hplain')
      (h'.hasPlainYear_stop hplain) hle
  · rw [h.stop_eq_firstSigned (hyear.resolve_left hplain),
      h'.stop_eq_firstSigned (not_le.1 hplain)]
    exact .inr rfl

end IsUnit

end Window

namespace Leaf

open Condition

/-- Whether an end of a range is open, or its window and that of another end are in a relation. -/
def Widens (R : Window → Window → Prop) (wide narrow : Text) : Prop :=
  isUnbounded wide ∨ ∃ w' w, Window.read? (Text.unescape wide) = some w' ∧
    Window.read? (Text.unescape narrow) = some w ∧ R w' w

def StartsNoLater : Text → Text → Prop := Widens fun w' w => w'.start.seconds ≤ w.start.seconds

def StopsNoEarlier : Text → Text → Prop := Widens fun w' w => w.stop.seconds ≤ w'.stop.seconds

/-- Whether an end does not stop behind the last plain year, unless another one does so too. -/
def StopsInPlainYear (wide narrow : Text) : Prop :=
  ∀ w' w, Window.read? (Text.unescape wide) = some w' →
    Window.read? (Text.unescape narrow) = some w →
      w'.stop.date.year ≤ 9999 ∨ 9999 < w.stop.date.year

variable {wide narrow t : Text}

theorem read?_unescape_of_isUnbounded (h : isUnbounded narrow = true) :
    Window.read? (Text.unescape narrow) = none := by
  rw [isUnbounded, beq_iff_eq] at h
  rw [h]
  rfl

theorem ending_mono {R : Window → Window → Prop} (h : Widens R wide narrow)
    {test : Window → Truth}
    (htest : ∀ w' w p q u u', w.IsUnit p u → w'.IsUnit q u' →
      Window.read? (Text.unescape wide) = some w' → Window.read? (Text.unescape narrow) = some w →
        R w' w → test w = .yes → test w' = .yes)
    (hnarrow : ending narrow (fun d => (Window.read? d).elim .unknown test) = .yes) :
    ending wide (fun d => (Window.read? d).elim .unknown test) = .yes := by
  rw [ending_eq_yes] at hnarrow ⊢
  rcases h with hopen | ⟨w', w, hwide, hread, hR⟩
  · exact .inl hopen
  · obtain ⟨p, u, hunit⟩ := Window.exists_isUnit_of_read? hread
    obtain ⟨q, u', hunit'⟩ := Window.exists_isUnit_of_read? hwide
    rcases hnarrow with hopen | hnarrow
    · rw [read?_unescape_of_isUnbounded hopen] at hread
      cases hread
    · rw [hread, Option.elim_some] at hnarrow
      rw [hwide, Option.elim_some]
      exact .inr (htest w' w p q u u' hunit hunit' hwide hread hR hnarrow)

theorem low_mono (h : StartsNoLater wide narrow)
    (hnarrow : ending narrow (fun d => (Window.read? d).elim .unknown fun w =>
      (Cell.text t).stands .ge (.text w.start.text)) = .yes) :
    ending wide (fun d => (Window.read? d).elim .unknown fun w =>
      (Cell.text t).stands .ge (.text w.start.text)) = .yes := by
  refine ending_mono h (fun w' w p q u u' hunit hunit' _ _ hle hfrom => ?_) hnarrow
  rw [Cell.stands_ge_text] at hfrom ⊢
  refine fun hbefore => hfrom ?_
  rcases hunit.start_text_lt_or_eq hunit' hle with hlt | heq
  · exact List.lt_trans hbefore hlt
  · exact heq ▸ hbefore

theorem high_mono (h : StopsNoEarlier wide narrow) (hyear : StopsInPlainYear wide narrow)
    (hnarrow : ending narrow (fun d => (Window.read? d).elim .unknown fun w =>
      (Cell.text t).stands .lt (.text w.stop.text)) = .yes) :
    ending wide (fun d => (Window.read? d).elim .unknown fun w =>
      (Cell.text t).stands .lt (.text w.stop.text)) = .yes := by
  refine ending_mono h (fun w' w p q u u' hunit hunit' hwide hread hle hupTo => ?_) hnarrow
  rw [Cell.stands_lt_text] at hupTo ⊢
  rcases hunit.stop_text_lt_or_eq hunit' hle (hyear w' w hwide hread) with hlt | heq
  · exact List.lt_trans hupTo hlt
  · exact heq ▸ hupTo

/-- Whatever stored text a range of dates is true of, a wider range of dates is true of it too. The
wider one may only stop behind the last plain year if the other one does. -/
theorem wider_range_keeps_moments {db : Database} {s : Scope} {d : Directory} {v : Viewer}
    {f : ResolvedField} {c : Column} {r r' : Range} {e e' : Condition}
    (hmem : f.strategy ∈ FieldEntry.strategies) (hf : f.strategy = .moment c)
    (h : (range r).condition d v f = .ok e) (h' : (range r').condition d v f = .ok e')
    (hlow : StartsNoLater r'.low r.low) (hhigh : StopsNoEarlier r'.high r.high)
    (hyear : StopsInPlainYear r'.high r.high) (hcell : s c = .text t) :
    e.truth db s = .yes → e'.truth db s = .yes := by
  have hc : c.isInteger = false := FieldEntry.moment_of_mem_strategies (hf ▸ hmem)
  rw [condition_moment hf] at h h'
  rw [truth_momentRange hc h, truth_momentRange hc h', betweenWindows, betweenWindows, hcell,
    Truth.both_eq_yes, Truth.both_eq_yes]
  rintro ⟨hfrom, hupTo⟩
  exact ⟨low_mono hlow hfrom, high_mono hhigh hyear hupTo⟩

def leapDay : Range := ⟨"2020-02-29T08:30".toList, "2020-02-29".toList, true, true⟩

def leapDays : Range := ⟨"2020-02-28".toList, "2020-03-01 11:59:59".toList, true, true⟩

def uploadTime : ResolvedField := ⟨"upload_time".toList, .object, .moment .objectUploadTime, []⟩

def uploadedBetween (start stop : Moment) : Condition :=
  .conjoin [.compare (.column .objectUploadTime) .ge (.moment start),
    .compare (.column .objectUploadTime) .lt (.moment stop)]

/-- What is uploaded in the last second of a leap day is uploaded in the days around it. -/
theorem wider_range_keeps_moments_leapDay :
    StartsNoLater leapDays.low leapDay.low ∧ StopsNoEarlier leapDays.high leapDay.high ∧
      (uploadedBetween ⟨⟨2020, 2, 29⟩, 8, 30, 0⟩ (.midnight ⟨2020, 3, 1⟩)).truth .blank
        (fun _ => .text "2020-02-29 23:59:59".toList) = .yes ∧
      (uploadedBetween (.midnight ⟨2020, 2, 28⟩) ⟨⟨2020, 3, 1⟩, 12, 0, 0⟩).truth .blank
        (fun _ => .text "2020-02-29 23:59:59".toList) = .yes := by
  have hmem : uploadTime.strategy ∈ FieldEntry.strategies := by decide
  have hnarrow : (range leapDay).condition Database.blank.directory (.ofUser ⟨1, ['u']⟩)
      uploadTime = .ok (uploadedBetween ⟨⟨2020, 2, 29⟩, 8, 30, 0⟩ (.midnight ⟨2020, 3, 1⟩)) := rfl
  have hwide : (range leapDays).condition Database.blank.directory (.ofUser ⟨1, ['u']⟩)
      uploadTime =
        .ok (uploadedBetween (.midnight ⟨2020, 2, 28⟩) ⟨⟨2020, 3, 1⟩, 12, 0, 0⟩) := rfl
  have hlow : StartsNoLater leapDays.low leapDay.low := .inr ⟨_, _, rfl, rfl, by decide⟩
  have hhigh : StopsNoEarlier leapDays.high leapDay.high := .inr ⟨_, _, rfl, rfl, by decide⟩
  have hyear : StopsInPlainYear leapDays.high leapDay.high := by
    rintro w' w ⟨⟩ -
    exact .inl (by decide)
  have hyes : (uploadedBetween ⟨⟨2020, 2, 29⟩, 8, 30, 0⟩ (.midnight ⟨2020, 3, 1⟩)).truth .blank
      (fun _ => .text "2020-02-29 23:59:59".toList) = .yes := by
    rw [uploadedBetween, truth_conjoin]
    decide
  exact ⟨hlow, hhigh, hyes,
    wider_range_keeps_moments hmem rfl hnarrow hwide hlow hhigh hyear rfl hyes⟩

def firstDay : Range := ⟨"2021-01-01".toList, "2021-01-01".toList, true, true⟩

def toLastDay : Range := ⟨"2021-01-01".toList, "9999-12-31".toList, true, true⟩

/-- A range up to the last day that can be written loses what a narrower one has. -/
theorem range_to_last_day_loses_moments :
    StartsNoLater toLastDay.low firstDay.low ∧ StopsNoEarlier toLastDay.high firstDay.high ∧
      ∃ e e', (range firstDay).condition Database.blank.directory (.ofUser ⟨1, ['u']⟩)
          uploadTime = .ok e ∧
        (range toLastDay).condition Database.blank.directory (.ofUser ⟨1, ['u']⟩)
          uploadTime = .ok e' ∧
        e.truth .blank (fun _ => .text "2021-01-01 12:00:00".toList) = .yes ∧
        e'.truth .blank (fun _ => .text "2021-01-01 12:00:00".toList) = .no := by
  refine ⟨.inr ⟨_, _, rfl, rfl, by decide⟩, .inr ⟨_, _, rfl, rfl, by decide⟩,
    uploadedBetween (.midnight ⟨2021, 1, 1⟩) (.midnight ⟨2021, 1, 2⟩),
    uploadedBetween (.midnight ⟨2021, 1, 1⟩) (.midnight ⟨10000, 1, 1⟩), rfl, rfl, ?_, ?_⟩
  · rw [uploadedBetween, truth_conjoin]
    decide
  · rw [uploadedBetween, truth_conjoin]
    decide

end Leaf

end SampleSearch
