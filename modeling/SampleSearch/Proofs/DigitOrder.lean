import Mathlib.Algebra.Order.Ring.Int
import Mathlib.Tactic.Tauto
import SampleSearch.Text.Basic

/-!
# The order of written numbers

Texts of the same length are ordered by their first difference, so a text is compared part by part
if the parts have fixed lengths. Two runs of ASCII digits of one length have the order of the
numbers they write, and a number that is padded to a width it fits into is such a run.
-/

namespace SampleSearch

namespace Text

theorem append_lt_append_iff {a b c d : Text} (h : a.length = b.length) :
    a ++ c < b ++ d ↔ a < b ∨ (a = b ∧ c < d) := by
  induction a generalizing b with
  | nil =>
    obtain rfl : b = [] := List.length_eq_zero_iff.1 h.symm
    simp
  | cons x a ih =>
    cases b with
    | nil => cases h
    | cons y b =>
      have hlen : a.length = b.length := Nat.succ.inj h
      simp only [List.cons_append, List.cons_lt_cons_iff, ih hlen, List.cons.injEq]
      tauto

/-- If the order of two texts is that of two numbers, so is their equality. -/
theorem eq_iff_of_lt_iff {α : Type} [LinearOrder α] {s t : Text} {m n : α}
    (hst : s < t ↔ m < n) (hts : t < s ↔ n < m) : s = t ↔ m = n := by
  constructor
  · rintro rfl
    exact le_antisymm (not_lt.1 fun h => List.lt_irrefl s (hts.2 h))
      (not_lt.1 fun h => List.lt_irrefl s (hst.2 h))
  · rintro rfl
    exact List.le_antisymm (fun h => lt_irrefl m (hts.1 h)) fun h => lt_irrefl m (hst.1 h)

theorem toNat_of_isDigit {c : Char} (h : c.isDigit = true) : 48 ≤ c.toNat ∧ c.toNat ≤ 57 := by
  simpa [Char.isDigit, UInt32.le_iff_toNat_le] using h

theorem digitsValue_cons (c : Char) (s : Text) :
    digitsValue (c :: s) = 10 ^ s.length * (c.toNat - 48) + digitsValue s := by
  change Nat.ofDigitChars 10 (c :: s) 0 = _ + Nat.ofDigitChars 10 s 0
  rw [Nat.ofDigitChars_cons, Nat.ofDigitChars_eq_ofDigitChars_zero, Nat.mul_zero, Nat.zero_add]
  rfl

theorem digitsValue_lt {s : Text} (h : s.all Char.isDigit = true) :
    digitsValue s < 10 ^ s.length := by
  induction s with
  | nil => simp
  | cons c s ih =>
    rw [List.all_cons, Bool.and_eq_true] at h
    have hc := toNat_of_isDigit h.1
    have hle : 10 ^ s.length * (c.toNat - 48) ≤ 10 ^ s.length * 9 :=
      Nat.mul_le_mul_left _ (by omega)
    have htail := ih h.2
    rw [digitsValue_cons, List.length_cons, Nat.pow_succ]
    omega

theorem lt_iff_digitsValue_lt {s t : Text} (hlen : s.length = t.length)
    (hs : s.all Char.isDigit = true) (ht : t.all Char.isDigit = true) :
    s < t ↔ digitsValue s < digitsValue t := by
  induction s generalizing t with
  | nil =>
    obtain rfl : t = [] := List.length_eq_zero_iff.1 hlen.symm
    simp
  | cons c s ih =>
    cases t with
    | nil => cases hlen
    | cons d t =>
      have hlen : s.length = t.length := Nat.succ.inj hlen
      rw [List.all_cons, Bool.and_eq_true] at hs ht
      have hc := toNat_of_isDigit hs.1
      have hd := toNat_of_isDigit ht.1
      have hsv := digitsValue_lt hs.2
      have htv := digitsValue_lt ht.2
      rw [List.cons_lt_cons_iff, ih hlen hs.2 ht.2, digitsValue_cons, digitsValue_cons, hlen]
      rw [hlen] at hsv
      rcases Nat.lt_trichotomy c.toNat d.toNat with hcd | hcd | hcd
      · have hfirst : 10 ^ t.length * (c.toNat - 48) + 10 ^ t.length ≤
            10 ^ t.length * (d.toNat - 48) := by
          rw [← Nat.mul_succ]
          exact Nat.mul_le_mul_left _ (by omega)
        have hlt : c < d := hcd
        simp only [hlt, true_or, true_iff]
        omega
      · obtain rfl : c = d := Char.toNat_inj.1 hcd
        simp
      · have hfirst : 10 ^ t.length * (d.toNat - 48) + 10 ^ t.length ≤
            10 ^ t.length * (c.toNat - 48) := by
          rw [← Nat.mul_succ]
          exact Nat.mul_le_mul_left _ (by omega)
        have hlt : ¬ c < d := fun h => absurd hcd (Nat.lt_asymm h)
        have hne : c ≠ d := fun h => absurd (congrArg Char.toNat h) (Nat.ne_of_gt hcd)
        simp only [hlt, hne, false_and, or_self, false_iff]
        omega

theorem digitsValue_inj {s t : Text} (hlen : s.length = t.length)
    (hs : s.all Char.isDigit = true) (ht : t.all Char.isDigit = true) :
    s = t ↔ digitsValue s = digitsValue t :=
  eq_iff_of_lt_iff (lt_iff_digitsValue_lt hlen hs ht) (lt_iff_digitsValue_lt hlen.symm ht hs)

variable {k m n : Nat}

theorem length_padded (hk : 0 < k) (hn : n < 10 ^ k) : (padded k n).length = k := by
  have hlen : (ofNat n).length ≤ k := (Nat.length_toDigits_le_iff (by decide) hk).2 hn
  rw [padded, List.length_append, List.length_replicate]
  omega

theorem isDigit_padded (k n : Nat) : (padded k n).all Char.isDigit = true := by
  rw [padded, List.all_append, Bool.and_eq_true]
  constructor
  · simp
  · exact List.all_eq_true.2 fun c hc => Nat.isDigit_of_mem_toDigits (by decide) (by decide) hc

theorem digitsValue_padded (k n : Nat) : digitsValue (padded k n) = n := by
  change Nat.ofDigitChars 10 (padded k n) 0 = n
  rw [padded, Nat.ofDigitChars_append, Nat.ofDigitChars_replicate_zero, Nat.mul_zero]
  exact Nat.ofDigitChars_ten_toDigits

theorem padded_digitsValue {s : Text} (hpos : 0 < s.length) (hs : s.all Char.isDigit = true) :
    padded s.length (digitsValue s) = s := by
  rw [digitsValue_inj (length_padded hpos (digitsValue_lt hs)) (isDigit_padded _ _) hs,
    digitsValue_padded]

theorem padded_lt_padded_iff (hk : 0 < k) (hm : m < 10 ^ k) (hn : n < 10 ^ k) :
    padded k m < padded k n ↔ m < n := by
  rw [lt_iff_digitsValue_lt ((length_padded hk hm).trans (length_padded hk hn).symm)
    (isDigit_padded k m) (isDigit_padded k n), digitsValue_padded, digitsValue_padded]

theorem padded_inj : padded k m = padded k n ↔ m = n := by
  constructor
  · intro h
    rw [← digitsValue_padded k m, h, digitsValue_padded]
  · rintro rfl
    rfl

/-- A padded number in front decides, and what is behind it only if the numbers are the same. -/
theorem padded_append_lt_iff (hk : 0 < k) (hm : m < 10 ^ k) (hn : n < 10 ^ k) {s t : Text} :
    padded k m ++ s < padded k n ++ t ↔ m < n ∨ (m = n ∧ s < t) := by
  have hlen := (length_padded hk hm).trans (length_padded hk hn).symm
  rw [append_lt_append_iff hlen, padded_lt_padded_iff hk hm hn, padded_inj]

end Text

end SampleSearch
