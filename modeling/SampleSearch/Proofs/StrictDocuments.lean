import SampleSearch.Proofs.StrictScalars

/-!
# Strict texts as documents

A text that is JSON in the strict sense is a sound document. Both readers walk arrays and objects
in the same way, and the lenient one allows more of everything: it goes deeper, and it takes
whatever the strict one does and stops where that one does.
-/

namespace SampleSearch

namespace Json

theorem EndsValue.of_skip {s : Text} (h : EndsValue (skip s)) : EndsValue s := by
  rintro c r rfl
  by_cases hc : isJsonBlank c = true
  · rw [isEnd, hc, Bool.true_or]
  · rw [skip_cons, if_neg hc] at h
    exact h c r rfl

theorem endsValue_of_skip {s r : Text} {c : Char} (h : skip s = c :: r) (hc : isEnd c = true) :
    EndsValue s := by
  apply EndsValue.of_skip
  rw [h]
  intro d t hd
  cases hd
  exact hc

/-- Whether a lenient reader takes a sound document off a text, up to a rest. -/
structure Takes (q : Text → Option (Document × Text)) (s r : Text) : Prop where
  zeros : KeepsZeros s r
  start : ∃ c t, skip s = c :: t ∧ isStart c = true
  reads : ∃ d, d.isSound = true ∧ ∀ s', skip s' = skip s → q s' = some (d, r)

def Covers (q : Text → Option (Document × Text)) (p : Text → Option (Json × Text)) : Prop :=
  ∀ s j r, p s = some (j, r) → EndsValue r → Takes q s r

theorem items?_of_strict {q : Text → Option (Document × Text)} {p : Text → Option (Json × Text)}
    (hq : Covers q p) {n m : Nat} (hn : n ≤ m) {s r : Text} {js : List Json}
    (h : items? p n s = some (js, r)) :
    KeepsZeros s r ∧ (∃ c t, skip s = c :: t ∧ isStart c = true) ∧
      ∃ ds, Document.items? q m (skip s) = some (ds, r) := by
  induction n generalizing s js m with
  | zero => cases h
  | succ n ih =>
    obtain ⟨m, rfl⟩ : ∃ k, m = k + 1 := ⟨m - 1, by omega⟩
    obtain ⟨⟨j, s₁⟩, hj, h⟩ := Option.bind_eq_some_iff.1 h
    simp only at h
    split at h
    · rename_i s₂ hskip
      cases h
      have ht := hq s j s₁ hj (endsValue_of_skip hskip rfl)
      obtain ⟨d, _, hd⟩ := ht.reads
      refine ⟨ht.zeros.trans (keepsZeros_of_skip hskip rfl), ht.start, [d], ?_⟩
      rw [Document.items?, hd _ (skip_skip s)]
      simp only [Option.bind_eq_bind, Option.bind_some, skip_eq_of_skip hskip rfl]
    · rename_i s₂ hskip
      obtain ⟨⟨js', r'⟩, hjs, h⟩ := Option.map_eq_some_iff.1 h
      cases h
      have ht := hq s j s₁ hj (endsValue_of_skip hskip rfl)
      obtain ⟨d, _, hd⟩ := ht.reads
      obtain ⟨hzeros, ⟨c, t, hstart, hc⟩, ds, hds⟩ := ih (Nat.le_of_succ_le_succ hn) hjs
      have hskip' := skip_eq_of_skip hstart (isSolid_of_isStart hc)
      have hne : c ≠ ']' := by
        rintro rfl
        cases hc
      refine ⟨ht.zeros.trans ((keepsZeros_of_skip hskip rfl).trans hzeros), ht.start,
        d :: ds, ?_⟩
      rw [Document.items?, hd _ (skip_skip s)]
      simp only [Option.bind_eq_bind, Option.bind_some, skip_eq_of_skip hskip rfl, hskip']
      rw [hstart] at hds
      split
      · rename_i heq
        cases heq
        exact absurd rfl hne
      · rw [hds]
        rfl
    · cases h

theorem name?_eq_some {s name r : Text} (h : name? s = some (name, r)) :
    ∃ t r', skip s = '"' :: t ∧ stringRest? t = some (name, r') ∧ skip r' = ':' :: r := by
  rw [name?] at h
  split at h
  · rename_i t hskip
    obtain ⟨⟨n, r'⟩, hn, h⟩ := Option.bind_eq_some_iff.1 h
    simp only at h
    split at h
    · rename_i r'' hcolon
      cases h
      exact ⟨t, r', hskip, hn, hcolon⟩
    · cases h
  · cases h

theorem members?_of_strict {q : Text → Option (Document × Text)}
    {p : Text → Option (Json × Text)} (hq : Covers q p) {n m : Nat} (hn : n ≤ m) {s r : Text}
    {js : List (Text × Json)} (h : members? p n s = some (js, r)) :
    KeepsZeros s r ∧ (∃ t, skip s = '"' :: t) ∧
      ∃ ds, Document.membersSound ds = true ∧ Document.members? q m (skip s) = some (ds, r) := by
  induction n generalizing s js m with
  | zero => cases h
  | succ n ih =>
    obtain ⟨m, rfl⟩ : ∃ k, m = k + 1 := ⟨m - 1, by omega⟩
    obtain ⟨⟨name, s₁⟩, hname, h⟩ := Option.bind_eq_some_iff.1 h
    obtain ⟨⟨j, s₂⟩, hj, h⟩ := Option.bind_eq_some_iff.1 h
    obtain ⟨t, t', hquote, hstring, hcolon⟩ := name?_eq_some hname
    obtain ⟨hzeros, x, hx⟩ := scalar?_string hstring
    have hzeros₁ : KeepsZeros s s₁ := (keepsZeros_of_skip hquote rfl).trans
      (hzeros.trans (keepsZeros_of_skip hcolon rfl))
    have hmember : Document.memberName? q ('"' :: t) = some (x, t') := by
      rw [Document.memberName?, hx]
    simp only at h
    split at h
    · rename_i s₃ hskip
      cases h
      have ht := hq s₁ j s₂ hj (endsValue_of_skip hskip rfl)
      obtain ⟨d, hsound, hd⟩ := ht.reads
      refine ⟨hzeros₁.trans (ht.zeros.trans (keepsZeros_of_skip hskip rfl)), ⟨t, hquote⟩,
        [(x, d)], ?_, ?_⟩
      · simp [Document.membersSound, hsound]
      · rw [hquote, Document.members?, hmember]
        simp only [Option.bind_eq_bind, Option.bind_some, skip_eq_of_skip hcolon rfl,
          hd s₁ rfl, skip_eq_of_skip hskip rfl]
    · rename_i s₃ hskip
      obtain ⟨⟨js', r'⟩, hjs, h⟩ := Option.map_eq_some_iff.1 h
      cases h
      have ht := hq s₁ j s₂ hj (endsValue_of_skip hskip rfl)
      obtain ⟨d, hsound, hd⟩ := ht.reads
      obtain ⟨hzeros₃, ⟨u, hu⟩, ds, hds, hrest⟩ := ih (Nat.le_of_succ_le_succ hn) hjs
      refine ⟨hzeros₁.trans (ht.zeros.trans
        ((keepsZeros_of_skip hskip rfl).trans hzeros₃)), ⟨t, hquote⟩, (x, d) :: ds, ?_, ?_⟩
      · simp [Document.membersSound, hsound, hds]
      · rw [hquote, Document.members?, hmember]
        simp only [Option.bind_eq_bind, Option.bind_some, skip_eq_of_skip hcolon rfl,
          hd s₁ rfl, skip_eq_of_skip hskip rfl, skip_eq_of_skip hu rfl]
        rw [hu] at hrest
        change Option.map (fun p => ((x, d) :: p.1, p.2)) (Document.members? q m ('"' :: u)) = _
        rw [hrest]
        rfl
    · cases h

section Brackets

variable {q : Text → Option (Document × Text)} {p : Text → Option (Json × Text)} {s t r : Text}
  {j : Json} (hq : Covers q p)

include hq

theorem takes_array (hskip : skip s = '[' :: t) (h : valueWith? (some p) s = some (j, r)) :
    Takes (Document.valueWith? (some q)) s r := by
  have hzeros := keepsZeros_of_skip hskip rfl
  have hlenient : ∀ s', skip s' = skip s → Document.skip s' = '[' :: t := fun s' hs' =>
    skip_eq_of_skip (hs'.trans hskip) rfl
  rw [valueWith?, hskip] at h
  simp only at h
  split at h
  · cases h
  · rename_i hclose
    cases h
    refine ⟨hzeros.trans (keepsZeros_of_skip hclose rfl), ⟨'[', t, hskip, rfl⟩,
      .array [], rfl, fun s' hs' => ?_⟩
    rw [Document.valueWith?, hlenient s' hs']
    simp only [skip_eq_of_skip hclose rfl]
  · rename_i hsome hopen
    cases hsome
    obtain ⟨⟨js, r'⟩, hjs, h⟩ := Option.map_eq_some_iff.1 h
    cases h
    obtain ⟨hrest, ⟨c, u, hstart, hc⟩, ds, hds⟩ :=
      items?_of_strict hq (Nat.le_succ _) hjs
    rw [skip_skip] at hstart hds
    refine ⟨hzeros.trans ((keepsZeros_skip t).trans hrest), ⟨'[', t, hskip, rfl⟩,
      .array ds, rfl, fun s' hs' => ?_⟩
    rw [Document.valueWith?, hlenient s' hs']
    simp only [skip_eq_of_skip hstart (isSolid_of_isStart hc)]
    rw [hstart] at hds hopen
    split
    · rename_i hnone
      cases hnone
    · rename_i hclose
      exact (hopen _ hclose).elim
    · rename_i hsome _
      cases hsome
      exact congrArg (Option.map fun x => (Document.array x.1, x.2)) hds

theorem takes_object (hskip : skip s = '\x7b' :: t) (h : valueWith? (some p) s = some (j, r)) :
    Takes (Document.valueWith? (some q)) s r := by
  have hzeros := keepsZeros_of_skip hskip rfl
  have hlenient : ∀ s', skip s' = skip s → Document.skip s' = '\x7b' :: t := fun s' hs' =>
    skip_eq_of_skip (hs'.trans hskip) rfl
  rw [valueWith?, hskip] at h
  simp only at h
  split at h
  · cases h
  · rename_i hclose
    cases h
    refine ⟨hzeros.trans (keepsZeros_of_skip hclose rfl), ⟨'\x7b', t, hskip, rfl⟩,
      .object [], rfl, fun s' hs' => ?_⟩
    rw [Document.valueWith?, hlenient s' hs']
    simp only [skip_eq_of_skip hclose rfl]
  · rename_i hsome hopen
    cases hsome
    obtain ⟨⟨js, r'⟩, hjs, h⟩ := Option.map_eq_some_iff.1 h
    cases h
    obtain ⟨hrest, ⟨u, hstart⟩, ds, hsound, hds⟩ :=
      members?_of_strict hq (Nat.le_succ _) hjs
    rw [skip_skip] at hstart hds
    refine ⟨hzeros.trans ((keepsZeros_skip t).trans hrest), ⟨'\x7b', t, hskip, rfl⟩,
      .object ds, hsound, fun s' hs' => ?_⟩
    rw [Document.valueWith?, hlenient s' hs']
    simp only [skip_eq_of_skip hstart rfl]
    rw [hstart] at hds
    exact congrArg (Option.map fun x => (Document.object x.1, x.2)) hds

end Brackets

theorem takes_of_scalar? {q? : Option (Text → Option (Document × Text))} {s r t : Text} {c : Char}
    (hskip : skip s = c :: t) (hc : isStart c = true) (hopen : c ≠ '[' ∧ c ≠ '\x7b')
    (hzeros : KeepsZeros (c :: t) r) {d : Document} (hd : d.isSound = true)
    (h : Document.scalar? (c :: t) = some (d, r)) : Takes (Document.valueWith? q?) s r := by
  have hzeros' := keepsZeros_skip s
  rw [hskip] at hzeros'
  refine ⟨hzeros'.trans hzeros, ⟨c, t, hskip, hc⟩, d, hd, fun s' hs' => ?_⟩
  rw [Document.valueWith?, skip_eq_of_skip (hs'.trans hskip) (isSolid_of_isStart hc)]
  split
  · rename_i heq
    cases heq
    exact absurd rfl hopen.1
  · rename_i heq
    cases heq
    exact absurd rfl hopen.2
  · exact h

/-- The lenient reader takes what the strict one does, if it does so one level deeper. -/
theorem covers_valueWith? {q? : Option (Text → Option (Document × Text))}
    {p? : Option (Text → Option (Json × Text))}
    (h : ∀ p, p? = some p → ∃ q, q? = some q ∧ Covers q p) :
    Covers (Document.valueWith? q?) (valueWith? p?) := by
  intro s j r hv hr
  have hvalue := hv
  rw [valueWith?] at hv
  split at hv
  · cases hv
  · rename_i t hskip
    cases p? with
    | none => cases hv
    | some p =>
      obtain ⟨q, rfl, hq⟩ := h p rfl
      exact takes_array hq hskip hvalue
  · rename_i t hskip
    cases p? with
    | none => cases hv
    | some p =>
      obtain ⟨q, rfl, hq⟩ := h p rfl
      exact takes_object hq hskip hvalue
  · rename_i t hskip
    obtain ⟨⟨u, r'⟩, hu, hv⟩ := Option.map_eq_some_iff.1 hv
    cases hv
    obtain ⟨hzeros, x, hx⟩ := scalar?_string hu
    refine takes_of_scalar? (d := .string x) hskip rfl (by decide)
      ((keepsZeros_cons (by decide)).trans hzeros) rfl ?_
    rw [Document.scalar?, hx]
  · rename_i t hskip
    have ht := word?_eq_some hv
    refine takes_of_scalar? (d := .null) hskip rfl (by decide) ?_ rfl ?_
    · rw [ht]
      exact keepsZeros_append (by decide) r
    · rw [ht]
      exact scalar?_null hr
  · rename_i t hskip
    have ht := word?_eq_some hv
    refine takes_of_scalar? (d := .bool true) hskip rfl (by decide) ?_ rfl ?_
    · rw [ht]
      exact keepsZeros_append (by decide) r
    · rw [ht]
      exact scalar?_true hr
  · rename_i t hskip
    have ht := word?_eq_some hv
    refine takes_of_scalar? (d := .bool false) hskip rfl (by decide) ?_ rfl ?_
    · rw [ht]
      exact keepsZeros_append (by decide) r
    · rw [ht]
      exact scalar?_false hr
  · obtain ⟨hzeros, ⟨c, t, hskip, hc⟩, written, plain, hd⟩ := number?_of_strict hv hr
    have hstart : isStart c = true := by
      rcases hc with hc | rfl
      · rw [isStart, hc, Bool.true_or]
      · decide
    have hopen : c ≠ '[' ∧ c ≠ '\x7b' := by
      constructor
      · rintro rfl
        exact absurd hc (by decide)
      · rintro rfl
        exact absurd hc (by decide)
    rw [hskip] at hzeros hd
    exact takes_of_scalar? (d := .number written (some plain)) hskip hstart hopen hzeros rfl
      (scalar?_of_number? hc hd)

theorem covers_value? {n m : Nat} (h : n ≤ m) : Covers (Document.value? m) (value? n) := by
  induction n generalizing m with
  | zero =>
    have hflat : ∀ q?, Covers (Document.valueWith? q?) (valueWith? none) := by
      intro q?
      refine covers_valueWith? fun p hp => ?_
      cases hp
    cases m with
    | zero => exact hflat none
    | succ m => exact hflat (some (Document.value? m))
  | succ n ih =>
    obtain ⟨m, rfl⟩ : ∃ k, m = k + 1 := ⟨m - 1, by omega⟩
    refine covers_valueWith? fun p hp => ?_
    cases hp
    exact ⟨_, rfl, ih (Nat.le_of_succ_le_succ h)⟩

end Json

/-- A text that is JSON in the strict sense is a sound document. -/
theorem Text.isDocument_of_read? {t : Text} {j : Json} (h : Json.read? t = some j) :
    t.isDocument = true := by
  obtain ⟨⟨j', rest⟩, hvalue, h⟩ := Option.bind_eq_some_iff.1 h
  simp only at h
  split at h
  · rename_i hempty
    have hskip : Json.skip rest = [] := List.isEmpty_iff.1 hempty
    have hends : Json.EndsValue rest := by
      apply Json.EndsValue.of_skip
      rw [hskip]
      intro c r hr
      cases hr
    obtain ⟨hzeros, _, d, hsound, hd⟩ :=
      Json.covers_value? (by decide : 127 ≤ 1000) t j' rest hvalue hends
    have hzero : Char.ofNat 0 ∉ t := by
      intro hmem
      have hlast := Json.keepsZeros_skip rest (hzeros hmem)
      rw [hskip] at hlast
      cases hlast
    have hwhole : t.takeWhile (· != Char.ofNat 0) = t := by
      have hne : ∀ c ∈ t, (c != Char.ofNat 0) = true := by
        intro c hc
        rw [bne_iff_ne]
        rintro rfl
        exact hzero hc
      have happ : (t ++ []).takeWhile (· != Char.ofNat 0) =
          t ++ [].takeWhile (· != Char.ofNat 0) := List.takeWhile_append_of_pos hne
      simpa using happ
    have hread : Document.read? t = some d := by
      rw [Document.read?, hwhole, hd t rfl]
      simp [Json.skip_eq_nil_of_skip hskip]
    rw [Text.isDocument, hread]
    exact hsound
  · cases h

theorem Database.holdsDocuments_of_read? {db : Database}
    (hc : ∀ r ∈ db.rows .configs, (Json.read? r.document).isSome = true)
    (ha : ∀ r ∈ db.rows .attributes, (Json.read? r.value).isSome = true) : db.HoldsDocuments := by
  constructor
  · intro r hr
    obtain ⟨j, hj⟩ := Option.isSome_iff_exists.1 (hc r hr)
    exact Text.isDocument_of_read? hj
  · intro r hr
    obtain ⟨j, hj⟩ := Option.isSome_iff_exists.1 (ha r hr)
    exact Text.isDocument_of_read? hj

end SampleSearch
