import SampleSearch.Proofs.LeafMeaning

/-!
# What a query says of an object

The truth of a query on an object is defined on its tree. Connectives combine it by the rules of
Kleene, and fields are resolved from left to right under the kind bound so far. The condition that
a query is compiled to has this truth on every object, and its binding is the one of the tree.
-/

namespace SampleSearch

namespace Query

/-- The kind that a query is bound to behind a field of some kind. -/
def narrow (b : Binding) (k : Kind) : Binding :=
  match b with
  | none => some k
  | some c => if c.isConcrete then some c else some k

mutual

/-- The kind that a query is bound to once it has been walked. -/
def boundAfter (b : Binding) : Query → Binding
  | all parts => boundAfterParts b parts
  | any parts => boundAfterParts b parts
  | negated q => boundAfter b q
  | prohibited q => boundAfter b q
  | group q => boundAfter b q
  | fieldGroup q => boundAfter b q
  | field name q =>
    match ResolvedField.resolve name b with
    | .ok f => boundAfter (narrow b f.kind) q
    | .error _ => b
  | _ => b

def boundAfterParts (b : Binding) : List Query → Binding
  | [] => b
  | q :: qs => boundAfterParts (boundAfter b q) qs

end

mutual

/-- The truth of a query on an object, behind a field that may have been named and under the kind
bound so far. -/
def truthOn (db : Database) (o : ObjectRecord) (f : Option ResolvedField) (b : Binding) :
    Query → Truth
  | all parts => truthOfAllOn db o f b parts
  | any parts => truthOfAnyOn db o f b parts
  | negated q => (truthOn db o f b q).flip
  | prohibited q => (truthOn db o f b q).flip
  | group q => truthOn db o f b q
  | fieldGroup q => truthOn db o f b q
  | field name q =>
    match ResolvedField.resolve name b with
    | .ok g => truthOn db o (some g) (narrow b g.kind) q
    | .error _ => .unknown
  | word value => f.elim .unknown fun g => (Leaf.term value).truthOn db o g
  | phrase content => f.elim .unknown fun g => (Leaf.term content).truthOn db o g
  | range r => f.elim .unknown fun g => (Leaf.range r).truthOn db o g
  | _ => .unknown

def truthOfAllOn (db : Database) (o : ObjectRecord) (f : Option ResolvedField) (b : Binding) :
    List Query → Truth
  | [] => .yes
  | q :: qs => (truthOn db o f b q).both (truthOfAllOn db o f (boundAfter b q) qs)

def truthOfAnyOn (db : Database) (o : ObjectRecord) (f : Option ResolvedField) (b : Binding) :
    List Query → Truth
  | [] => .no
  | q :: qs => (truthOn db o f b q).either (truthOfAnyOn db o f (boundAfter b q) qs)

end

open Condition

theorem eq_narrow_of_bind {b b' : Binding} {k : Kind} (h : Kind.bind b k = .ok b') :
    b' = narrow b k := by
  unfold Kind.bind at h
  unfold narrow
  cases b with
  | none =>
    cases h
    rfl
  | some current =>
    simp only at h
    split at h
    · cases h
    · split at h
      · cases h
        simp [*]
      · cases h
        simp [*]

mutual

theorem eq_boundAfter_of_compileIn {d : Directory} {v : Viewer} {f : Option ResolvedField}
    {b b' : Binding} {q : Query} {c : Condition} (h : compileIn d v f b q = .ok (c, b')) :
    b' = boundAfter b q := by
  cases q with
  | all parts =>
    obtain ⟨⟨cs, e⟩, hparts, h⟩ := bind_eq_ok_iff.1 (by simpa only [compileIn] using h)
    cases h
    simpa only [boundAfter] using eq_boundAfterParts_of_compileParts hparts
  | any parts =>
    obtain ⟨⟨cs, e⟩, hparts, h⟩ := bind_eq_ok_iff.1 (by simpa only [compileIn] using h)
    cases h
    simpa only [boundAfter] using eq_boundAfterParts_of_compileParts hparts
  | negated q =>
    obtain ⟨⟨e, _⟩, hq, h⟩ := bind_eq_ok_iff.1 (by simpa only [compileIn] using h)
    cases h
    simpa only [boundAfter] using eq_boundAfter_of_compileIn hq
  | prohibited q =>
    obtain ⟨⟨e, _⟩, hq, h⟩ := bind_eq_ok_iff.1 (by simpa only [compileIn] using h)
    cases h
    simpa only [boundAfter] using eq_boundAfter_of_compileIn hq
  | group q =>
    have hq := eq_boundAfter_of_compileIn (q := q) (by simpa only [compileIn] using h)
    simpa only [boundAfter] using hq
  | fieldGroup q =>
    have hq := eq_boundAfter_of_compileIn (q := q) (by simpa only [compileIn] using h)
    simpa only [boundAfter] using hq
  | field name q =>
    obtain ⟨g, hname, h⟩ := bind_eq_ok_iff.1 (by simpa only [compileIn] using h)
    obtain ⟨bound, hbound, hq⟩ := bind_eq_ok_iff.1 h
    have hrest := eq_boundAfter_of_compileIn hq
    simp only [boundAfter, hname, ← eq_narrow_of_bind hbound]
    exact hrest
  | word value =>
    obtain ⟨e, _, h⟩ := bind_eq_ok_iff.1 (by simpa only [compileIn] using h)
    cases h
    simp only [boundAfter]
  | phrase content =>
    obtain ⟨e, _, h⟩ := bind_eq_ok_iff.1 (by simpa only [compileIn] using h)
    cases h
    simp only [boundAfter]
  | range r =>
    obtain ⟨e, _, h⟩ := bind_eq_ok_iff.1 (by simpa only [compileIn] using h)
    cases h
    simp only [boundAfter]
  | required q => cases h
  | fuzzy value degree => cases h
  | proximity content degree => cases h
  | boost q force => cases h
  | regex pattern => cases h

theorem eq_boundAfterParts_of_compileParts {d : Directory} {v : Viewer}
    {f : Option ResolvedField} {b b' : Binding} {qs : List Query} {cs : List Condition}
    (h : compileParts d v f b qs = .ok (cs, b')) : b' = boundAfterParts b qs := by
  cases qs with
  | nil =>
    cases h
    rfl
  | cons q qs =>
    obtain ⟨⟨e, _⟩, hq, h⟩ := bind_eq_ok_iff.1 (by simpa only [compileParts] using h)
    obtain ⟨⟨es, _⟩, hqs, h⟩ := bind_eq_ok_iff.1 h
    cases h
    rw [boundAfterParts, ← eq_boundAfter_of_compileIn hq]
    exact eq_boundAfterParts_of_compileParts hqs

end

variable {db : Database} {o : ObjectRecord} {v : Viewer}

theorem truth_of_leafCondition {f : Option ResolvedField}
    (hf : ∀ g ∈ f, g.strategy ∈ FieldEntry.strategies) {leaf : Leaf} {b b' : Binding}
    {c : Condition}
    (h : (do .ok (← leafCondition db.directory v f leaf, b)) = Except.ok (c, b'))
    (hr : c.isReadable db (db.scope o) = true) :
    c.truth db (db.scope o) = f.elim .unknown fun g => leaf.truthOn db o g := by
  obtain ⟨e, he, h⟩ := bind_eq_ok_iff.1 h
  cases h
  cases f with
  | none => cases he
  | some g => exact Leaf.truth_eq_truthOn (hf g rfl) he hr

mutual

/-- The condition of a query has the truth of the query on every object that it is readable for. -/
theorem truth_eq_truthOn {f : Option ResolvedField}
    (hf : ∀ g ∈ f, g.strategy ∈ FieldEntry.strategies) {b b' : Binding} {q : Query}
    {c : Condition} (h : compileIn db.directory v f b q = .ok (c, b'))
    (hr : c.isReadable db (db.scope o) = true) :
    c.truth db (db.scope o) = q.truthOn db o f b := by
  cases q with
  | all parts =>
    obtain ⟨⟨cs, e⟩, hparts, h⟩ := bind_eq_ok_iff.1 (by simpa only [compileIn] using h)
    cases h
    have hcs : allReadable db (db.scope o) cs = true := by simpa only [isReadable] using hr
    simpa only [truth, truthOn] using (truth_eq_truthOfPartsOn hf hparts hcs).1
  | any parts =>
    obtain ⟨⟨cs, e⟩, hparts, h⟩ := bind_eq_ok_iff.1 (by simpa only [compileIn] using h)
    cases h
    have hcs : allReadable db (db.scope o) cs = true := by simpa only [isReadable] using hr
    simpa only [truth, truthOn] using (truth_eq_truthOfPartsOn hf hparts hcs).2
  | negated q =>
    obtain ⟨⟨e, _⟩, hq, h⟩ := bind_eq_ok_iff.1 (by simpa only [compileIn] using h)
    cases h
    rw [isReadable] at hr
    rw [truth, truthOn, truth_eq_truthOn hf hq hr]
  | prohibited q =>
    obtain ⟨⟨e, _⟩, hq, h⟩ := bind_eq_ok_iff.1 (by simpa only [compileIn] using h)
    cases h
    rw [isReadable] at hr
    rw [truth, truthOn, truth_eq_truthOn hf hq hr]
  | group q =>
    rw [truthOn]
    exact truth_eq_truthOn hf (by simpa only [compileIn] using h) hr
  | fieldGroup q =>
    rw [truthOn]
    exact truth_eq_truthOn hf (by simpa only [compileIn] using h) hr
  | field name q =>
    obtain ⟨g, hname, h⟩ := bind_eq_ok_iff.1 (by simpa only [compileIn] using h)
    obtain ⟨bound, hbound, hq⟩ := bind_eq_ok_iff.1 h
    have hg : ∀ e ∈ some g, e.strategy ∈ FieldEntry.strategies := by
      simpa using ResolvedField.strategy_mem_of_resolve hname
    have hrest := truth_eq_truthOn hg hq hr
    simp only [truthOn, hname, ← eq_narrow_of_bind hbound]
    exact hrest
  | word value =>
    rw [truthOn]
    exact truth_of_leafCondition hf (by simpa only [compileIn] using h) hr
  | phrase content =>
    rw [truthOn]
    exact truth_of_leafCondition hf (by simpa only [compileIn] using h) hr
  | range r =>
    rw [truthOn]
    exact truth_of_leafCondition hf (by simpa only [compileIn] using h) hr
  | required q => cases h
  | fuzzy value degree => cases h
  | proximity content degree => cases h
  | boost q force => cases h
  | regex pattern => cases h

theorem truth_eq_truthOfPartsOn {f : Option ResolvedField}
    (hf : ∀ g ∈ f, g.strategy ∈ FieldEntry.strategies) {b b' : Binding} {qs : List Query}
    {cs : List Condition} (h : compileParts db.directory v f b qs = .ok (cs, b'))
    (hr : allReadable db (db.scope o) cs = true) :
    truthOfAll db (db.scope o) cs = truthOfAllOn db o f b qs ∧
      truthOfAny db (db.scope o) cs = truthOfAnyOn db o f b qs := by
  cases qs with
  | nil =>
    cases h
    exact ⟨rfl, rfl⟩
  | cons q qs =>
    obtain ⟨⟨e, _⟩, hq, h⟩ := bind_eq_ok_iff.1 (by simpa only [compileParts] using h)
    obtain ⟨⟨es, _⟩, hqs, h⟩ := bind_eq_ok_iff.1 h
    cases h
    simp only [allReadable, Bool.and_eq_true] at hr
    have hfirst : e.truth db (db.scope o) = q.truthOn db o f b := truth_eq_truthOn hf hq hr.1
    obtain ⟨hall, hany⟩ := truth_eq_truthOfPartsOn hf hqs hr.2
    simp only at hall hany
    rw [truthOfAll, truthOfAny, truthOfAllOn, truthOfAnyOn, hfirst, hall, hany,
      ← eq_boundAfter_of_compileIn hq]
    exact ⟨rfl, rfl⟩

end

end Query

end SampleSearch
