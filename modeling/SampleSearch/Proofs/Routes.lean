import SampleSearch.Scan.Course

/-!
# Accesses and routes

An access only uses terms that it is given, and with an index only terms that confine a key. No
access is dropped unless another one can take its place, so every source can be reached behind those
that are joined in front of it. For that reason there always is a route, and it goes through all
sources.
-/

namespace SampleSearch

namespace Access

/-- Whether an access to a source uses some terms, with an index only those that confine a key. -/
structure IsMadeOf (s : Source) (ts : List Term) (a : Access) : Prop where
  source : a.source = s
  mem : ∀ t ∈ a.terms, t ∈ ts
  isBound : a.index.isSome = true → ∀ t ∈ a.terms, t.bound.isSome = true

/-- Whether an access is to the same source as another and needs no other sources. -/
structure Replaces (a b : Access) : Prop where
  source : a.source = b.source
  needs : ∀ s ∈ a.needs, s ∈ b.needs

theorem Replaces.refl (a : Access) : a.Replaces a := ⟨rfl, fun _ h => h⟩

theorem Replaces.trans {a b c : Access} (hab : a.Replaces b) (hbc : b.Replaces c) :
    a.Replaces c :=
  ⟨hab.source.trans hbc.source, fun s h => hbc.needs s (hab.needs s h)⟩

theorem replaces_of_isNoWorse {a b : Access} (hs : a.source = b.source)
    (h : a.isNoWorse b = true) : a.Replaces b := by
  refine ⟨hs, fun s hmem => ?_⟩
  simp only [isNoWorse, Bool.and_eq_true, List.all_eq_true] at h
  simpa using h.1.1 s hmem

theorem source_eq_of_isComparable {a b : Access} (h : a.isComparable b = true) :
    a.source = b.source := by
  simp only [isComparable, Bool.and_eq_true, beq_iff_eq] at h
  exact h.1

/-- Only the estimates of an access are corrected. -/
theorem corrected_eq (a p : Access) :
    ∃ cost rows, a.corrected p = { a with cost := cost, rows := rows } := by
  unfold corrected
  repeat' split
  · exact ⟨a.cost, a.rows, rfl⟩
  · exact ⟨_, _, rfl⟩
  · exact ⟨_, _, rfl⟩
  · exact ⟨a.cost, a.rows, rfl⟩

theorem foldl_corrected_eq (known : List Access) (a : Access) :
    ∃ cost rows, known.foldl corrected a = { a with cost := cost, rows := rows } := by
  induction known generalizing a with
  | nil => exact ⟨a.cost, a.rows, rfl⟩
  | cons p known ih =>
    obtain ⟨cost, rows, h⟩ := corrected_eq a p
    rw [List.foldl_cons, h]
    exact ih _

theorem correctedBy_eq (known : List Access) (a : Access) :
    ∃ cost rows, a.correctedBy known = { a with cost := cost, rows := rows } := by
  unfold correctedBy
  split
  · exact foldl_corrected_eq known a
  · exact ⟨a.cost, a.rows, rfl⟩

theorem IsMadeOf.correctedBy {s : Source} {ts : List Term} {a : Access} (h : a.IsMadeOf s ts)
    (known : List Access) : (a.correctedBy known).IsMadeOf s ts := by
  obtain ⟨cost, rows, heq⟩ := correctedBy_eq known a
  rw [heq]
  exact ⟨h.source, h.mem, h.isBound⟩

theorem correctedBy_replaces (known : List Access) (a : Access) :
    (a.correctedBy known).Replaces a := by
  obtain ⟨cost, rows, heq⟩ := correctedBy_eq known a
  rw [heq]
  exact ⟨rfl, fun _ h => h⟩

theorem mem_of_mem_dropReplaced {a b : Access} {known : List Access}
    (h : b ∈ dropReplaced a known) : b ∈ known := by
  induction known with
  | nil => exact h
  | cons p known ih =>
    unfold dropReplaced at h
    split at h
    · exact (List.mem_cons.1 h).elim (fun h => by simp [h]) fun h => List.mem_cons_of_mem p (ih h)
    · split at h
      · exact h
      · split at h
        · exact List.mem_cons_of_mem p (ih h)
        · exact (List.mem_cons.1 h).elim (fun h => by simp [h])
            fun h => List.mem_cons_of_mem p (ih h)

theorem mem_of_mem_place {a b : Access} {known : List Access} (h : b ∈ place a known) :
    b = a ∨ b ∈ known := by
  induction known with
  | nil =>
    left
    exact List.mem_singleton.1 h
  | cons p known ih =>
    have hlater : b ∈ p :: place a known → b = a ∨ b ∈ p :: known := by
      intro h
      rcases List.mem_cons.1 h with rfl | h
      · exact .inr (by simp)
      · exact (ih h).imp_right (List.mem_cons_of_mem p)
    unfold place at h
    split at h
    · exact hlater h
    · split at h
      · exact .inr h
      · split at h
        · exact (List.mem_cons.1 h).imp_right fun h =>
            List.mem_cons_of_mem p (mem_of_mem_dropReplaced h)
        · exact hlater h

/-- Whatever is dropped because of an access is replaced by it. -/
theorem mem_dropReplaced_or_replaces (a : Access) {p : Access} {known : List Access}
    (h : p ∈ known) : p ∈ dropReplaced a known ∨ a.Replaces p := by
  induction known with
  | nil => cases h
  | cons q known ih =>
    have hkeep : p ∈ q :: dropReplaced a known ∨ a.Replaces p := by
      rcases List.mem_cons.1 h with rfl | h
      · exact .inl (by simp)
      · exact (ih h).imp_left (List.mem_cons_of_mem q)
    unfold dropReplaced
    split
    · exact hkeep
    · rename_i hcomparable
      have hsource := source_eq_of_isComparable (by simpa using hcomparable)
      split
      · exact .inl h
      · split
        · rename_i hbetter
          rcases List.mem_cons.1 h with rfl | h
          · exact .inr (replaces_of_isNoWorse hsource hbetter)
          · exact ih h
        · exact hkeep

/-- A new access is placed among those that are known unless one of them replaces it. -/
theorem exists_place_replaces (a : Access) (known : List Access) :
    ∃ b ∈ place a known, b.Replaces a := by
  induction known with
  | nil => exact ⟨a, by simp [place], .refl a⟩
  | cons p known ih =>
    have hlater : ∃ b ∈ p :: place a known, b.Replaces a := by
      obtain ⟨b, hb, hreplaces⟩ := ih
      exact ⟨b, List.mem_cons_of_mem p hb, hreplaces⟩
    unfold place
    split
    · exact hlater
    · rename_i hcomparable
      have hsource := source_eq_of_isComparable (by simpa using hcomparable)
      split
      · rename_i hbetter
        exact ⟨p, by simp, replaces_of_isNoWorse hsource.symm hbetter⟩
      · split
        · exact ⟨a, by simp, .refl a⟩
        · exact hlater

/-- What is known stays unless the new access replaces it. -/
theorem exists_place_replaces_of_mem (a : Access) {p : Access} {known : List Access}
    (h : p ∈ known) : ∃ b ∈ place a known, b.Replaces p := by
  induction known with
  | nil => cases h
  | cons q known ih =>
    have hlater : ∃ b ∈ q :: place a known, b.Replaces p := by
      rcases List.mem_cons.1 h with rfl | h
      · exact ⟨p, by simp, .refl p⟩
      · obtain ⟨b, hb, hreplaces⟩ := ih h
        exact ⟨b, List.mem_cons_of_mem q hb, hreplaces⟩
    unfold place
    split
    · exact hlater
    · rename_i hcomparable
      have hsource := source_eq_of_isComparable (by simpa using hcomparable)
      split
      · exact ⟨p, h, .refl p⟩
      · split
        · rename_i hbetter
          rcases List.mem_cons.1 h with rfl | h
          · exact ⟨a, by simp, replaces_of_isNoWorse hsource hbetter⟩
          · rcases mem_dropReplaced_or_replaces a h with hkept | hreplaces
            · exact ⟨p, List.mem_cons_of_mem a hkept, .refl p⟩
            · exact ⟨a, by simp, hreplaces⟩
        · exact hlater

theorem of_mem_foldl_add {Q : Access → Prop} (hQ : ∀ known a, Q a → Q (a.correctedBy known))
    {known found : List Access} (hknown : ∀ a ∈ known, Q a) (hfound : ∀ a ∈ found, Q a) :
    ∀ a ∈ found.foldl add known, Q a := by
  induction found generalizing known with
  | nil => exact hknown
  | cons b found ih =>
    apply ih
    · intro a ha
      rcases mem_of_mem_place ha with rfl | ha
      · exact hQ known b (hfound b (by simp))
      · exact hknown a ha
    · exact fun a ha => hfound a (List.mem_cons_of_mem b ha)

theorem exists_foldl_add_replaces {known found : List Access} {p : Access}
    (h : p ∈ known ∨ p ∈ found) : ∃ b ∈ found.foldl add known, b.Replaces p := by
  induction found generalizing known p with
  | nil => exact ⟨p, h.resolve_right (by simp), .refl p⟩
  | cons a found ih =>
    have hadded : p ∈ known ∨ p = a → ∃ b ∈ (a :: found).foldl add known, b.Replaces p := by
      intro h
      have hplaced : ∃ q ∈ add known a, q.Replaces p := by
        rcases h with h | rfl
        · exact exists_place_replaces_of_mem _ h
        · obtain ⟨q, hq, hreplaces⟩ := exists_place_replaces (p.correctedBy known) known
          exact ⟨q, hq, hreplaces.trans (correctedBy_replaces known p)⟩
      obtain ⟨q, hq, hreplaces⟩ := hplaced
      obtain ⟨b, hb, hb'⟩ := ih (.inl hq)
      exact ⟨b, hb, hb'.trans hreplaces⟩
    rcases h with h | h
    · exact hadded (.inl h)
    · rcases List.mem_cons.1 h with rfl | h
      · exact hadded (.inr rfl)
      · exact ih (.inr h)

end Access

namespace Survey

open Access

variable {v : Survey}

theorem terms_narrowed? {i : Index} {r q : Range} {t : Term} (h : narrowed? i r t = some q) :
    q.terms = r.terms ++ [t] ∧ t.bound.isSome = true := by
  unfold narrowed? at h
  split at h
  · cases h
  · rename_i hbound
    refine ⟨?_, by rw [hbound]; rfl⟩
    simp only at h
    repeat' split at h
    all_goals cases h
    all_goals rfl

theorem isMadeOf_access {i : Index} {r : Range} {ts : List Term}
    (h : ∀ t ∈ r.terms, t ∈ ts ∧ t.bound.isSome = true) (rows : Estimate) :
    (v.access i r rows).IsMadeOf v.source ts :=
  ⟨rfl, fun t ht => (h t ht).1, fun _ t ht => (h t ht).2⟩

theorem isMadeOf_of_mem_ranges (i : Index) (n : Nat) {r : Range}
    (hr : ∀ t ∈ r.terms, t ∈ v.own ++ v.outer ∧ t.bound.isSome = true) :
    ∀ a ∈ v.ranges i n r, a.IsMadeOf v.source (v.own ++ v.outer) := by
  induction n generalizing r with
  | zero =>
    intro a ha
    cases ha
  | succ n ih =>
    intro a ha
    unfold ranges at ha
    split at ha
    · cases ha
    · obtain ⟨t, ht, ha⟩ := List.mem_flatMap.1 ha
      have hgiven : t ∈ v.own ++ v.outer := (List.mem_filter.1 ht).1
      have hnarrowed : ∀ q, narrowed? i r t = some q →
          ∀ u ∈ q.terms, u ∈ v.own ++ v.outer ∧ u.bound.isSome = true := by
        intro q hq u hu
        obtain ⟨hterms, hbound⟩ := terms_narrowed? hq
        rw [hterms] at hu
        rcases List.mem_append.1 hu with hu | hu
        · exact hr u hu
        · rw [List.mem_singleton.1 hu]
          exact ⟨hgiven, hbound⟩
      have hhere : ∀ q rows, narrowed? i r t = some q →
          (v.access i q rows).IsMadeOf v.source (v.own ++ v.outer) :=
        fun q rows hq => isMadeOf_access (hnarrowed q hq) rows
      have hfurther : ∀ q rows, narrowed? i r t = some q →
          a ∈ v.access i q rows :: v.ranges i n q →
            a.IsMadeOf v.source (v.own ++ v.outer) := by
        intro q rows hq h
        rcases List.mem_cons.1 h with rfl | h
        · exact hhere q rows hq
        · exact ih (hnarrowed q hq) a h
      split at ha
      case h_1 q _ hq _ => exact hfurther q _ hq ha
      case h_2 q _ _ hq _ => exact hfurther q _ hq ha
      case h_3 q _ hq _ => exact hfurther q _ hq ha
      case h_4 q _ _ hq _ =>
        rw [List.mem_singleton.1 ha]
        exact hhere q _ hq
      case h_5 q _ hq _ =>
        rw [List.mem_singleton.1 ha]
        exact hhere q _ hq
      case h_6 => cases ha

theorem isMadeOf_of_mem_direct : ∀ a ∈ v.direct, a.IsMadeOf v.source (v.own ++ v.outer) := by
  intro a ha
  obtain ⟨i, _, ha⟩ := List.mem_flatMap.1 ha
  rcases List.mem_append.1 ha with ha | ha
  · unfold wholeAccess? at ha
    split at ha
    · rw [List.mem_singleton.1 ha]
      exact ⟨rfl, fun t ht => (nomatch ht), fun _ t ht => (nomatch ht)⟩
    · cases ha
  · refine isMadeOf_of_mem_ranges i 4 ?_ a ha
    intro t ht
    cases ht

theorem isMadeOf_of_mem_alternatives (known : List Access) (n : Nat) :
    ∀ a ∈ v.alternatives known n, a.IsMadeOf v.source (v.own ++ v.outer) := by
  intro a ha
  cases n with
  | zero => cases ha
  | succ n =>
    obtain ⟨t, ht, ha⟩ := List.mem_flatMap.1 ha
    have hgiven : t ∈ v.own ++ v.outer := List.mem_append_left _ (List.mem_filter.1 ht).1
    simp only at ha
    split at ha
    · cases ha
    · obtain ⟨c, _, rfl⟩ := List.mem_map.1 ha
      refine ⟨rfl, fun u hu => ?_, fun h => by cases h⟩
      rw [List.mem_singleton.1 hu]
      exact hgiven

theorem of_mem_addAccesses {Q : Access → Prop} (hQ : ∀ known a, Q a → Q (a.correctedBy known))
    (hmade : ∀ a : Access, a.IsMadeOf v.source (v.own ++ v.outer) → Q a) (depth : Nat)
    {known : List Access} (hknown : ∀ a ∈ known, Q a) : ∀ a ∈ v.addAccesses depth known, Q a := by
  apply of_mem_foldl_add hQ
  · exact of_mem_foldl_add hQ hknown fun a ha => hmade a (isMadeOf_of_mem_direct a ha)
  · exact fun a ha => hmade a (isMadeOf_of_mem_alternatives _ depth a ha)

/-- The rows of a source can always be passed by their ids. -/
theorem exists_direct (v : Survey) : ∃ a ∈ v.direct, a.source = v.source ∧ a.needs = v.needs := by
  have hindex : Index.rowIds v.source ∈ Index.all v.source := by
    unfold Index.all
    split <;> simp
  refine ⟨_, List.mem_flatMap.2 ⟨_, hindex, List.mem_append_left _ (List.mem_singleton.2 rfl)⟩,
    rfl, rfl⟩

theorem exists_addAccesses_replaces (depth : Nat) {known : List Access} {p : Access}
    (h : p ∈ known ∨ p ∈ v.direct) : ∃ b ∈ v.addAccesses depth known, b.Replaces p := by
  obtain ⟨q, hq, hreplaces⟩ := exists_foldl_add_replaces h
  have hlater : ∃ b ∈ v.addAccesses depth known, b.Replaces q := exists_foldl_add_replaces (.inl hq)
  obtain ⟨b, hb, hb'⟩ := hlater
  exact ⟨b, hb, hb'.trans hreplaces⟩

end Survey

namespace Route

variable {accesses : List Access} {sorted : Option Estimate}

theorem accesses_extended (r : Route) (sorted : Option Estimate) (a : Access) :
    (r.extended sorted a).accesses = r.accesses ++ [a] := by
  unfold extended
  cases sorted with
  | none => rfl
  | some rows =>
    simp only
    split
    all_goals rfl

theorem mem_of_mem_modify {α : Type} {f : α → α} {k : Nat} {as : List α} {b : α}
    (h : b ∈ as.modify k f) : b ∈ as ∨ ∃ a ∈ as, b = f a := by
  obtain ⟨i, hi⟩ := List.mem_iff_getElem?.1 h
  rw [List.getElem?_modify] at hi
  cases ha : as[i]? with
  | none => simp [ha] at hi
  | some a =>
    have hmem : a ∈ as := List.mem_of_getElem? ha
    simp only [ha, Option.map_eq_map, Option.map_some, Option.some.injEq] at hi
    split at hi
    · exact .inr ⟨a, hmem, hi.symm⟩
    · exact .inl (hi ▸ hmem)

theorem mem_of_mem_keep {known : List Route} {r s : Route} (h : s ∈ keep known r) :
    s = r ∨ s ∈ known := by
  unfold keep at h
  split at h
  · rcases List.mem_append.1 h with h | h
    · exact .inr h
    · exact .inl (List.mem_singleton.1 h)
  · rcases mem_of_mem_modify h with h | ⟨t, ht, rfl⟩
    · exact .inr h
    · split
      · exact .inl rfl
      · exact .inr ht

theorem mem_of_mem_foldl_keep {known routes : List Route} {s : Route}
    (h : s ∈ routes.foldl keep known) : s ∈ routes ∨ s ∈ known := by
  induction routes generalizing known with
  | nil => exact .inr h
  | cons r routes ih =>
    rcases ih h with h | h
    · exact .inl (List.mem_cons_of_mem r h)
    · rcases mem_of_mem_keep h with rfl | h
      · exact .inl (by simp)
      · exact .inr h

theorem exists_of_mem_step {routes : List Route} {s : Route}
    (h : s ∈ step accesses sorted routes) :
    ∃ r ∈ routes, ∃ a ∈ accesses, r.reaches a = true ∧ s = r.extended sorted a := by
  rcases mem_of_mem_foldl_keep h with h | h
  · obtain ⟨r, hr, h⟩ := List.mem_flatMap.1 h
    obtain ⟨a, ha, rfl⟩ := List.mem_map.1 h
    obtain ⟨ha, hreaches⟩ := List.mem_filter.1 ha
    exact ⟨r, hr, a, ha, hreaches, rfl⟩
  · cases h

/-- Whether every access comes behind the sources that it needs and reaches another one. -/
def IsChain (as : List Access) : Prop :=
  ∀ n a, as[n]? = some a →
    (∀ s ∈ a.needs, s ∈ (as.take n).map Access.source) ∧
      a.source ∉ (as.take n).map Access.source

theorem isChain_append_singleton {as : List Access} (h : IsChain as) {a : Access}
    (hneeds : ∀ s ∈ a.needs, s ∈ as.map Access.source) (hnew : a.source ∉ as.map Access.source) :
    IsChain (as ++ [a]) := by
  intro n b hb
  rcases Nat.lt_trichotomy n as.length with hn | rfl | hn
  · rw [List.getElem?_append_left hn] at hb
    rw [List.take_append_of_le_length (Nat.le_of_lt hn)]
    exact h n b hb
  · rw [List.getElem?_append_right (Nat.le_refl _), Nat.sub_self] at hb
    obtain rfl : a = b := Option.some.inj hb
    rw [List.take_append_of_le_length (Nat.le_refl _), List.take_length]
    exact ⟨hneeds, hnew⟩
  · rw [List.getElem?_eq_none (by rw [List.length_append, List.length_singleton]; exact hn)] at hb
    cases hb

theorem IsChain.source_ne {as : List Access} (h : IsChain as) {i j : Nat} (hij : i < j)
    {a b : Access} (ha : as[i]? = some a) (hb : as[j]? = some b) : a.source ≠ b.source := by
  intro hs
  have hfront : a ∈ as.take j := by
    apply List.mem_of_getElem? (i := i)
    rw [List.getElem?_take_of_lt hij, ha]
  have hold := List.mem_map_of_mem (f := Access.source) hfront
  rw [hs] at hold
  exact (h j b hb).2 hold

theorem IsChain.eq_of_source_eq {as : List Access} (h : IsChain as) {a b : Access} (ha : a ∈ as)
    (hb : b ∈ as) (hs : a.source = b.source) : a = b := by
  obtain ⟨i, hi⟩ := List.mem_iff_getElem?.1 ha
  obtain ⟨j, hj⟩ := List.mem_iff_getElem?.1 hb
  rcases Nat.lt_trichotomy i j with hij | rfl | hij
  · exact absurd hs (h.source_ne hij hi hj)
  · exact Option.some.inj (hi.symm.trans hj)
  · exact absurd hs.symm (h.source_ne hij hj hi)

theorem IsChain.nodup {as : List Access} (h : IsChain as) : (as.map Access.source).Nodup := by
  rw [List.Nodup, List.pairwise_map, List.pairwise_iff_getElem]
  intro i j hi hj hij
  exact h.source_ne hij (List.getElem?_eq_getElem hi) (List.getElem?_eq_getElem hj)

theorem sources_extended (r : Route) (a : Access) :
    (r.extended sorted a).sources = r.sources ++ [a.source] := by
  rw [sources, accesses_extended, List.map_append]
  rfl

theorem reaches_iff {r : Route} {a : Access} :
    r.reaches a = true ↔ (∀ s ∈ a.needs, s ∈ r.sources) ∧ a.source ∉ r.sources := by
  simp [reaches]

/-- Whether a route is a chain of `n` accesses among given ones. -/
structure IsOver (accesses : List Access) (n : Nat) (r : Route) : Prop where
  uses : ∀ a ∈ r.accesses, a ∈ accesses
  isChain : IsChain r.accesses
  length : r.accesses.length = n

theorem IsOver.extended {n : Nat} {r : Route} (h : r.IsOver accesses n) {a : Access}
    (ha : a ∈ accesses) (hreaches : r.reaches a = true) :
    (r.extended sorted a).IsOver accesses (n + 1) := by
  obtain ⟨hneeds, hnew⟩ := reaches_iff.1 hreaches
  refine ⟨fun b hb => ?_, ?_, ?_⟩
  · rw [accesses_extended] at hb
    rcases List.mem_append.1 hb with hb | hb
    · exact h.uses b hb
    · rw [List.mem_singleton.1 hb]
      exact ha
  · rw [accesses_extended]
    exact isChain_append_singleton h.isChain hneeds hnew
  · rw [accesses_extended, List.length_append, h.length, List.length_singleton]

theorem isOver_of_mem_repeat {rows : Estimate} (n : Nat) :
    ∀ r ∈ n.repeat (step accesses sorted) [start rows], r.IsOver accesses n := by
  induction n with
  | zero =>
    intro r hr
    rw [List.mem_singleton.1 hr]
    exact ⟨fun a ha => (nomatch ha), fun n a ha => (nomatch ha), rfl⟩
  | succ n ih =>
    intro s hs
    obtain ⟨r, hr, a, ha, hreaches, rfl⟩ := exists_of_mem_step hs
    exact (ih r hr).extended ha hreaches

theorem mem_of_cheapest? {routes : List Route} {r : Route} (h : cheapest? routes = some r) :
    r ∈ routes := by
  cases routes with
  | nil => cases h
  | cons s routes =>
    have hfold : ∀ (best : Route) (rs : List Route),
        rs.foldl (fun best s => if s.cost < best.cost then s else best) best ∈ best :: rs := by
      intro best rs
      induction rs generalizing best with
      | nil => simp
      | cons t rs ih =>
        rw [List.foldl_cons]
        split
        · exact List.mem_cons_of_mem best (ih t)
        · rcases List.mem_cons.1 (ih best) with hm | hm
          · rw [hm]
            simp
          · exact List.mem_cons_of_mem best (List.mem_cons_of_mem t hm)
    rw [← Option.some.inj h]
    exact hfold s routes

theorem isOver_of_best? {n : Nat} {rows : Estimate} {r : Route}
    (h : best? accesses sorted n rows = some r) : r.IsOver accesses n :=
  isOver_of_mem_repeat n r (mem_of_cheapest? h)

theorem isOver_of_choose? {wantsOrder minded : Bool} {n : Nat} {r : Route}
    (h : choose? wantsOrder accesses n = some (r, minded)) : r.IsOver accesses n := by
  unfold choose? at h
  split at h
  · cases h
  · rename_i first hfirst
    split at h
    · obtain ⟨s, hs, h⟩ := Option.map_eq_some_iff.1 h
      cases h
      obtain ⟨huses, hchain, hlength⟩ := isOver_of_best? hs
      exact ⟨fun a ha => (List.mem_filter.1 (huses a ha)).1, hchain, hlength⟩
    · cases h
      exact isOver_of_best? hfirst

/-- Whether two routes go through the same sources. -/
def SameSources (r s : Route) : Prop := ∀ x, x ∈ r.sources ↔ x ∈ s.sources

theorem hasSameSources_iff {r s : Route} : r.hasSameSources s = true ↔ r.SameSources s := by
  simp only [hasSameSources, Bool.and_eq_true, List.all_eq_true, List.contains_iff_mem,
    SameSources]
  constructor
  · rintro ⟨h, h'⟩ x
    exact ⟨h x, h' x⟩
  · intro h
    exact ⟨fun x => (h x).1, fun x => (h x).2⟩

/-- Some route through the same sources is kept, for the new one and for those that are known. -/
theorem exists_keep {known : List Route} {r s : Route} (h : s = r ∨ s ∈ known) :
    ∃ t ∈ keep known r, s.SameSources t := by
  unfold keep
  split
  · rcases h with rfl | h
    · exact ⟨s, by simp, fun _ => Iff.rfl⟩
    · exact ⟨s, List.mem_append_left _ h, fun _ => Iff.rfl⟩
  · rename_i k hk
    obtain ⟨hlt, hsame, -⟩ := List.findIdx?_eq_some_iff_getElem.1 hk
    rw [hasSameSources_iff] at hsame
    -- What stands at the place of `k` now, be it the new route or the old one.
    have hplace : ∃ t, (known.modify k fun s => if r.isBetter s then r else s)[k]? = some t ∧
        r.SameSources t := by
      refine ⟨_, by rw [List.getElem?_modify, List.getElem?_eq_getElem hlt]; rfl, ?_⟩
      simp only [if_true]
      split
      · exact fun _ => Iff.rfl
      · exact hsame
    obtain ⟨t, ht, hrt⟩ := hplace
    rcases h with rfl | h
    · exact ⟨t, List.mem_of_getElem? ht, hrt⟩
    · obtain ⟨i, hi⟩ := List.mem_iff_getElem?.1 h
      by_cases hki : k = i
      · subst hki
        have hs : known[k] = s := by
          rw [List.getElem?_eq_getElem hlt] at hi
          exact Option.some.inj hi
        rw [hs] at hsame
        exact ⟨t, List.mem_of_getElem? ht, fun x => (hsame x).symm.trans (hrt x)⟩
      · refine ⟨s, List.mem_of_getElem? (i := i) ?_, fun _ => Iff.rfl⟩
        rw [List.getElem?_modify, hi]
        simp [hki]

theorem exists_foldl_keep {known routes : List Route} {s : Route} (h : s ∈ known ∨ s ∈ routes) :
    ∃ t ∈ routes.foldl keep known, s.SameSources t := by
  induction routes generalizing known s with
  | nil => exact ⟨s, h.resolve_right (by simp), fun _ => Iff.rfl⟩
  | cons r routes ih =>
    have hkept : s = r ∨ s ∈ known → ∃ t ∈ (r :: routes).foldl keep known, s.SameSources t := by
      intro h
      obtain ⟨u, hu, hsu⟩ := exists_keep h
      obtain ⟨t, ht, hut⟩ := ih (.inl hu)
      exact ⟨t, ht, fun x => (hsu x).trans (hut x)⟩
    rcases h with h | h
    · exact hkept (.inr h)
    · rcases List.mem_cons.1 h with rfl | h
      · exact hkept (.inl rfl)
      · exact ih (.inr h)

/-- Along a chain there is a route through the sources of each of its fronts. -/
theorem exists_repeat (sorted : Option Estimate) {as : List Access} (h : IsChain as)
    (hmem : ∀ a ∈ as, a ∈ accesses) (rows : Estimate) {n : Nat} (hn : n ≤ as.length) :
    ∃ r ∈ n.repeat (step accesses sorted) [start rows],
      ∀ s, s ∈ r.sources ↔ s ∈ (as.take n).map Access.source := by
  induction n with
  | zero => exact ⟨start rows, List.mem_singleton.2 rfl, fun s => by simp [start, sources]⟩
  | succ n ih =>
    obtain ⟨r, hr, hsources⟩ := ih (Nat.le_of_succ_le hn)
    obtain ⟨hneeds, hnew⟩ := h n as[n] (List.getElem?_eq_getElem hn)
    have hreaches : r.reaches as[n] = true := by
      rw [reaches_iff, hsources]
      exact ⟨fun s hs => (hsources s).2 (hneeds s hs), hnew⟩
    have hfound : r.extended sorted as[n] ∈
        (n.repeat (step accesses sorted) [start rows]).flatMap fun r =>
          (accesses.filter r.reaches).map (r.extended sorted) := by
      have hreached : as[n] ∈ accesses.filter r.reaches :=
        List.mem_filter.2 ⟨hmem _ (List.getElem_mem hn), hreaches⟩
      exact List.mem_flatMap.2 ⟨r, hr, List.mem_map.2 ⟨as[n], hreached, rfl⟩⟩
    have hkept : ∃ t ∈ (n + 1).repeat (step accesses sorted) [start rows],
        (r.extended sorted as[n]).SameSources t := exists_foldl_keep (.inr hfound)
    obtain ⟨t, ht, hsame⟩ := hkept
    refine ⟨t, ht, fun s => ?_⟩
    rw [← hsame s, sources_extended, List.take_succ_eq_append_getElem hn, List.map_append,
      List.mem_append, List.mem_append, hsources]
    rfl

theorem exists_best? (sorted : Option Estimate) {as : List Access} (h : IsChain as)
    (hmem : ∀ a ∈ as, a ∈ accesses) (rows : Estimate) :
    ∃ r, best? accesses sorted as.length rows = some r := by
  obtain ⟨r, hr, -⟩ := exists_repeat sorted h hmem rows (Nat.le_refl _)
  unfold best?
  cases hroutes : as.length.repeat (step accesses sorted) [start rows] with
  | nil =>
    rw [hroutes] at hr
    cases hr
  | cons s rest => exact ⟨_, rfl⟩

/-- The accesses of a route are still considered after it. -/
theorem mem_reconsidered {r : Route} {n : Nat} (h : r.IsOver accesses n) :
    ∀ a ∈ r.accesses, a ∈ reconsidered accesses r := by
  intro a ha
  refine List.mem_filter.2 ⟨h.uses a ha, ?_⟩
  rw [Bool.or_eq_true, Bool.not_eq_true']
  by_cases hfound : a.source ∈ (r.accesses.takeWhile Access.hasEquality).map Access.source
  · right
    -- The sources along a chain differ, so the access in the front is this one.
    obtain ⟨b, hb, hs⟩ := List.mem_map.1 hfound
    have hequal := List.all_eq_true.1 List.all_takeWhile b hb
    obtain rfl := h.isChain.eq_of_source_eq (List.takeWhile_subset _ hb) ha hs
    rw [Access.hasEquality, Bool.and_eq_true, List.any_eq_true] at hequal
    obtain ⟨hindex, t, ht, -⟩ := hequal
    rw [Access.isConfined, hindex, Bool.true_and, Bool.not_eq_true', List.isEmpty_eq_false_iff]
    exact List.ne_nil_of_mem ht
  · left
    simpa using hfound

/-- If some accesses form a chain, a route is chosen. -/
theorem exists_choose? {as : List Access} (h : IsChain as) (hmem : ∀ a ∈ as, a ∈ accesses)
    (wantsOrder : Bool) :
    ∃ r minded, choose? wantsOrder accesses as.length = some (r, minded) := by
  obtain ⟨first, hfirst⟩ := exists_best? none h hmem 0
  have hover := isOver_of_best? hfirst
  unfold choose?
  rw [hfirst]
  cases wantsOrder with
  | false => exact ⟨first, false, rfl⟩
  | true =>
    obtain ⟨r, hr⟩ := exists_best? (if first.rows == -1 then none else some (first.rows + 1))
      hover.isChain (mem_reconsidered hover) 0
    rw [hover.length] at hr
    simp only [if_true]
    rw [hr]
    exact ⟨r, _, rfl⟩

/-- A route through as many sources as are joined reaches all of them. -/
theorem IsOver.mem_sources {r : Route} {ss : List Source} (h : r.IsOver accesses ss.length)
    (hsources : ∀ a ∈ accesses, a.source ∈ ss) {s : Source} (hs : s ∈ ss) : s ∈ r.sources := by
  apply Decidable.byContradiction
  intro hnot
  -- With a source that is missed there would be more of them than are joined.
  have hnodup : (s :: r.sources).Nodup := List.nodup_cons.2 ⟨hnot, h.isChain.nodup⟩
  have hsubset : s :: r.sources ⊆ ss := by
    rw [List.cons_subset]
    refine ⟨hs, fun x hx => ?_⟩
    obtain ⟨a, ha, rfl⟩ := List.mem_map.1 hx
    exact hsources a (h.uses a ha)
  have hlength := hnodup.length_le_of_subset hsubset
  rw [List.length_cons, sources, List.length_map, h.length] at hlength
  omega

end Route

end SampleSearch
