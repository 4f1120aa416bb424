import SampleSearch.Proofs.QueryMeaning

/-!
# One kind for a query

The kind that a query is bound to is fixed step by step while the query is walked. Whatever was
resolved before belongs to the kind that is bound in the end: the binding only changes from the
generic kind to a concrete one, and what belongs to the generic kind belongs to every kind.

So all values in a query are compared with fields of that kind, and what holds of the conditions of
such values and is kept by the connectives holds of the condition of the query.
-/

namespace SampleSearch

namespace Kind

/-- Whether what is asked of one kind may be asked of another: the generic kind goes with every
kind, a concrete one with itself. -/
def IsWithin (k bound : Kind) : Prop := k = .object ∨ k = bound

theorem IsWithin.refl (k : Kind) : k.IsWithin k := .inr rfl

theorem IsWithin.trans {j k l : Kind} (h : j.IsWithin k) (h' : k.IsWithin l) : j.IsWithin l := by
  rcases h with h | rfl
  · exact .inl h
  · exact h'

/-- The records that objects of a concrete kind have. -/
def source? : Kind → Option Source
  | object => none
  | file => some .file
  | config => some .config
  | blob => some .blob

theorem isWithin_of_bind {b b' : Binding} {k : Kind} (h : bind b k = .ok b') :
    (b.getD .object).IsWithin (b'.getD .object) ∧ k.IsWithin (b'.getD .object) := by
  cases b with
  | none =>
    cases h
    exact ⟨.inl rfl, .inr rfl⟩
  | some current =>
    cases current <;> cases k <;> cases h <;> simp [IsWithin]

end Kind

namespace ResolvedField

def BelongsTo (f : ResolvedField) (k : Kind) : Prop :=
  ∃ e ∈ FieldEntry.tables.flatten, e.strategy = f.strategy ∧ e.kind.IsWithin k

theorem BelongsTo.mono {f : ResolvedField} {k l : Kind} (h : f.BelongsTo k) (hkl : k.IsWithin l) :
    f.BelongsTo l := by
  obtain ⟨e, he, hstrategy, hkind⟩ := h
  exact ⟨e, he, hstrategy, hkind.trans hkl⟩

theorem resolve_eq_ok {path : Text} {b : Binding} {f : ResolvedField}
    (h : resolve path b = .ok f) :
    f.kind = (splitKind b (segments path)).1 ∧ f.BelongsTo f.kind := by
  obtain ⟨-, name, residual, e, hsplit, he, hstrategy, -⟩ := exists_entry_of_resolve h
  obtain ⟨hmem, hkind, -⟩ := FieldEntry.find?_eq_some he
  exact ⟨by rw [hsplit], e, hmem, hstrategy.symm, hkind⟩

theorem kind_of_resolve {path first : Text} {rest : List Text} {b : Binding} {f : ResolvedField}
    {k : Kind} (h : resolve path b = .ok f) (hpath : segments path = first :: rest)
    (hk : Kind.ofAlias first = some k) : f.kind = k := by
  rw [(resolve_eq_ok h).1, hpath, splitKind, hk]

end ResolvedField

namespace Query

mutual

def fieldNames : Query → List Text
  | all parts => fieldNamesOfAll parts
  | any parts => fieldNamesOfAll parts
  | negated q => fieldNames q
  | prohibited q => fieldNames q
  | required q => fieldNames q
  | group q => fieldNames q
  | fieldGroup q => fieldNames q
  | boost q _ => fieldNames q
  | field name q => name :: fieldNames q
  | _ => []

def fieldNamesOfAll : List Query → List Text
  | [] => []
  | q :: qs => fieldNames q ++ fieldNamesOfAll qs

end

mutual

/-- The values in a query, each with the field it is written for, behind a field that may have been
named and under the kind bound so far. -/
def leaves (f : Option ResolvedField) (b : Binding) : Query → List (ResolvedField × Leaf)
  | all parts => leavesOfAll f b parts
  | any parts => leavesOfAll f b parts
  | negated q => leaves f b q
  | prohibited q => leaves f b q
  | group q => leaves f b q
  | fieldGroup q => leaves f b q
  | field name q =>
    match ResolvedField.resolve name b with
    | .ok g => leaves (some g) (narrow b g.kind) q
    | .error _ => []
  | word value => f.toList.map fun g => (g, .term value)
  | phrase content => f.toList.map fun g => (g, .term content)
  | range r => f.toList.map fun g => (g, .range r)
  | _ => []

def leavesOfAll (f : Option ResolvedField) (b : Binding) :
    List Query → List (ResolvedField × Leaf)
  | [] => []
  | q :: qs => leaves f b q ++ leavesOfAll f (boundAfter b q) qs

end

variable {d : Directory} {v : Viewer}

/-- What is kept while a part of a query is walked: the kind bound before goes with the one bound
behind it, and all fields that are named or have a value belong to the latter. -/
structure KeepsKind (f : Option ResolvedField) (b b' : Binding) (names : List Text)
    (values : List (ResolvedField × Leaf)) : Prop where
  grows : (b.getD .object).IsWithin (b'.getD .object)
  names : ∀ name ∈ names, ∃ bound g, ResolvedField.resolve name bound = .ok g ∧
    g.kind.IsWithin (b'.getD .object)
  leaves : (∀ g ∈ f, g.BelongsTo (b.getD .object)) → ∀ l ∈ values, l.1.BelongsTo (b'.getD .object)

section

variable {f : Option ResolvedField} {b b' b'' : Binding}

theorem keepsKind_value (leaf : Leaf) : KeepsKind f b b [] (f.toList.map fun g => (g, leaf)) where
  grows := .refl _
  names := by simp
  leaves hf l hl := by
    obtain ⟨g, hg, rfl⟩ := List.mem_map.1 hl
    exact hf g (by simpa using hg)

theorem KeepsKind.append {names names' : List Text} {values values' : List (ResolvedField × Leaf)}
    (h : KeepsKind f b b' names values) (h' : KeepsKind f b' b'' names' values') :
    KeepsKind f b b'' (names ++ names') (values ++ values') where
  grows := h.grows.trans h'.grows
  names name hname := by
    rcases List.mem_append.1 hname with hname | hname
    · obtain ⟨bound, g, hg, hkind⟩ := h.names name hname
      exact ⟨bound, g, hg, hkind.trans h'.grows⟩
    · exact h'.names name hname
  leaves hf l hl := by
    rcases List.mem_append.1 hl with hl | hl
    · exact (h.leaves hf l hl).mono h'.grows
    · exact h'.leaves (fun g hg => (hf g hg).mono h.grows) l hl

theorem KeepsKind.field {name : Text} {g : ResolvedField} {names : List Text}
    {values : List (ResolvedField × Leaf)} (hname : ResolvedField.resolve name b = .ok g)
    (hbind : Kind.bind b g.kind = .ok b') (h : KeepsKind (some g) b' b'' names values) :
    KeepsKind f b b'' (name :: names) values where
  grows := (Kind.isWithin_of_bind hbind).1.trans h.grows
  names n hn := by
    rcases List.mem_cons.1 hn with rfl | hn
    · exact ⟨b, g, hname, (Kind.isWithin_of_bind hbind).2.trans h.grows⟩
    · exact h.names n hn
  leaves _ l hl := by
    have hg : g.BelongsTo (b'.getD .object) :=
      (ResolvedField.resolve_eq_ok hname).2.mono (Kind.isWithin_of_bind hbind).2
    exact h.leaves (by simpa using hg) l hl

end

mutual

theorem keepsKind_of_compileIn {f : Option ResolvedField} {b b' : Binding} {q : Query}
    {c : Condition}
    (h : compileIn d v f b q = .ok (c, b')) : KeepsKind f b b' q.fieldNames (q.leaves f b) := by
  cases q with
  | all parts =>
    obtain ⟨⟨cs, e⟩, hparts, h⟩ := bind_eq_ok_iff.1 (by simpa only [compileIn] using h)
    cases h
    simpa only [fieldNames, leaves] using keepsKind_of_compileParts hparts
  | any parts =>
    obtain ⟨⟨cs, e⟩, hparts, h⟩ := bind_eq_ok_iff.1 (by simpa only [compileIn] using h)
    cases h
    simpa only [fieldNames, leaves] using keepsKind_of_compileParts hparts
  | negated q =>
    obtain ⟨⟨e, _⟩, hq, h⟩ := bind_eq_ok_iff.1 (by simpa only [compileIn] using h)
    cases h
    simpa only [fieldNames, leaves] using keepsKind_of_compileIn hq
  | prohibited q =>
    obtain ⟨⟨e, _⟩, hq, h⟩ := bind_eq_ok_iff.1 (by simpa only [compileIn] using h)
    cases h
    simpa only [fieldNames, leaves] using keepsKind_of_compileIn hq
  | group q =>
    have hq := keepsKind_of_compileIn (q := q) (by simpa only [compileIn] using h)
    simpa only [fieldNames, leaves] using hq
  | fieldGroup q =>
    have hq := keepsKind_of_compileIn (q := q) (by simpa only [compileIn] using h)
    simpa only [fieldNames, leaves] using hq
  | field name q =>
    obtain ⟨g, hname, h⟩ := bind_eq_ok_iff.1 (by simpa only [compileIn] using h)
    obtain ⟨bound, hbound, hq⟩ := bind_eq_ok_iff.1 h
    have hrest := keepsKind_of_compileIn hq
    simp only [fieldNames, leaves, hname, ← eq_narrow_of_bind hbound]
    exact .field hname hbound hrest
  | word value =>
    obtain ⟨e, _, h⟩ := bind_eq_ok_iff.1 (by simpa only [compileIn] using h)
    cases h
    simpa only [fieldNames, leaves] using keepsKind_value (.term value)
  | phrase content =>
    obtain ⟨e, _, h⟩ := bind_eq_ok_iff.1 (by simpa only [compileIn] using h)
    cases h
    simpa only [fieldNames, leaves] using keepsKind_value (.term content)
  | range r =>
    obtain ⟨e, _, h⟩ := bind_eq_ok_iff.1 (by simpa only [compileIn] using h)
    cases h
    simpa only [fieldNames, leaves] using keepsKind_value (.range r)
  | required q => cases h
  | fuzzy value degree => cases h
  | proximity content degree => cases h
  | boost q force => cases h
  | regex pattern => cases h

theorem keepsKind_of_compileParts {f : Option ResolvedField} {b b' : Binding} {qs : List Query}
    {cs : List Condition}
    (h : compileParts d v f b qs = .ok (cs, b')) :
    KeepsKind f b b' (fieldNamesOfAll qs) (leavesOfAll f b qs) := by
  cases qs with
  | nil =>
    cases h
    exact ⟨.refl _, by simp [fieldNamesOfAll], by simp [leavesOfAll]⟩
  | cons q qs =>
    obtain ⟨⟨e, _⟩, hq, h⟩ := bind_eq_ok_iff.1 (by simpa only [compileParts] using h)
    obtain ⟨⟨es, _⟩, hqs, h⟩ := bind_eq_ok_iff.1 h
    cases h
    rw [fieldNamesOfAll, leavesOfAll, ← eq_boundAfter_of_compileIn hq]
    exact (keepsKind_of_compileIn hq).append (keepsKind_of_compileParts hqs)

end

structure IsKept (P : Condition → Prop) : Prop where
  all : ∀ cs, (∀ c ∈ cs, P c) → P (.all cs)
  any : ∀ cs, (∀ c ∈ cs, P c) → P (.any cs)
  negated : ∀ c, P c → P (.negated c)

def HoldsOfValues (d : Directory) (v : Viewer) (P : Condition → Prop)
    (values : List (ResolvedField × Leaf)) : Prop :=
  ∀ l ∈ values, ∀ c, l.2.condition d v l.1 = .ok c → P c

theorem holds_of_value {P : Condition → Prop} {f : Option ResolvedField} {b b' : Binding}
    {leaf : Leaf} {c : Condition}
    (h : (do .ok (← leafCondition d v f leaf, b)) = Except.ok (c, b'))
    (hP : HoldsOfValues d v P (f.toList.map fun g => (g, leaf))) : P c := by
  obtain ⟨e, he, h⟩ := bind_eq_ok_iff.1 h
  cases h
  cases f with
  | none => cases he
  | some g => exact hP (g, leaf) (by simp) _ he

mutual

/-- What holds of the conditions of the values in a query and is kept by the connectives holds of
the condition of the query. -/
theorem IsKept.of_compileIn {P : Condition → Prop} (hP : IsKept P) {f : Option ResolvedField}
    {b b' : Binding} {q : Query} {c : Condition} (h : compileIn d v f b q = .ok (c, b'))
    (hvalues : HoldsOfValues d v P (q.leaves f b)) : P c := by
  cases q with
  | all parts =>
    obtain ⟨⟨cs, e⟩, hparts, h⟩ := bind_eq_ok_iff.1 (by simpa only [compileIn] using h)
    cases h
    exact hP.all cs (hP.of_compileParts hparts (by simpa only [leaves] using hvalues))
  | any parts =>
    obtain ⟨⟨cs, e⟩, hparts, h⟩ := bind_eq_ok_iff.1 (by simpa only [compileIn] using h)
    cases h
    exact hP.any cs (hP.of_compileParts hparts (by simpa only [leaves] using hvalues))
  | negated q =>
    obtain ⟨⟨e, _⟩, hq, h⟩ := bind_eq_ok_iff.1 (by simpa only [compileIn] using h)
    cases h
    exact hP.negated e (hP.of_compileIn hq (by simpa only [leaves] using hvalues))
  | prohibited q =>
    obtain ⟨⟨e, _⟩, hq, h⟩ := bind_eq_ok_iff.1 (by simpa only [compileIn] using h)
    cases h
    exact hP.negated e (hP.of_compileIn hq (by simpa only [leaves] using hvalues))
  | group q =>
    rw [leaves] at hvalues
    exact hP.of_compileIn (q := q) (by simpa only [compileIn] using h) hvalues
  | fieldGroup q =>
    rw [leaves] at hvalues
    exact hP.of_compileIn (q := q) (by simpa only [compileIn] using h) hvalues
  | field name q =>
    obtain ⟨g, hname, h⟩ := bind_eq_ok_iff.1 (by simpa only [compileIn] using h)
    obtain ⟨bound, hbound, hq⟩ := bind_eq_ok_iff.1 h
    simp only [leaves, hname, ← eq_narrow_of_bind hbound] at hvalues
    exact hP.of_compileIn hq hvalues
  | word value =>
    rw [leaves] at hvalues
    exact holds_of_value (by simpa only [compileIn] using h) hvalues
  | phrase content =>
    rw [leaves] at hvalues
    exact holds_of_value (by simpa only [compileIn] using h) hvalues
  | range r =>
    rw [leaves] at hvalues
    exact holds_of_value (by simpa only [compileIn] using h) hvalues
  | required q => cases h
  | fuzzy value degree => cases h
  | proximity content degree => cases h
  | boost q force => cases h
  | regex pattern => cases h

theorem IsKept.of_compileParts {P : Condition → Prop} (hP : IsKept P) {f : Option ResolvedField}
    {b b' : Binding} {qs : List Query} {cs : List Condition}
    (h : compileParts d v f b qs = .ok (cs, b'))
    (hvalues : HoldsOfValues d v P (leavesOfAll f b qs)) : ∀ c ∈ cs, P c := by
  cases qs with
  | nil =>
    cases h
    simp
  | cons q qs =>
    obtain ⟨⟨e, _⟩, hq, h⟩ := bind_eq_ok_iff.1 (by simpa only [compileParts] using h)
    obtain ⟨⟨es, _⟩, hqs, h⟩ := bind_eq_ok_iff.1 h
    cases h
    rw [leavesOfAll, ← eq_boundAfter_of_compileIn hq] at hvalues
    rw [List.forall_mem_cons]
    exact ⟨hP.of_compileIn hq fun l hl => hvalues l (List.mem_append_left _ hl),
      hP.of_compileParts hqs fun l hl => hvalues l (List.mem_append_right _ hl)⟩

end

end Query

end SampleSearch
