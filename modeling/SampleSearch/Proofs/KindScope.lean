import SampleSearch.Proofs.BoundKinds

/-!
# What plans look at

Outside of relations a plan looks at the object and at the record of its own kind only, and the
alternative names are looked at for files only. A field looks where its strategy says, and the
registry lists no field for a kind that looks elsewhere.
-/

namespace SampleSearch

namespace Condition

mutual

/-- The columns that a condition reads outside of relations, which are those of the object and of
its record. -/
def outerColumns : Condition → List Column
  | const _ => []
  | compare o _ _ => [o.base]
  | like o _ => [o.base]
  | among o _ => [o.base]
  | all parts => outerColumnsOfAll parts
  | any parts => outerColumnsOfAll parts
  | negated c => outerColumns c
  | related _ outer _ => [outer]

def outerColumnsOfAll : List Condition → List Column
  | [] => []
  | c :: cs => outerColumns c ++ outerColumnsOfAll cs

end

mutual

def relations : Condition → List Relation
  | const _ => []
  | compare _ _ _ => []
  | like _ _ => []
  | among _ _ => []
  | all parts => relationsOfAll parts
  | any parts => relationsOfAll parts
  | negated c => relations c
  | related r _ c => r :: relations c

def relationsOfAll : List Condition → List Relation
  | [] => []
  | c :: cs => relations c ++ relationsOfAll cs

end

structure LooksAt (columns : Column → Prop) (relations : Relation → Prop) (c : Condition) :
    Prop where
  columns : ∀ k ∈ c.outerColumns, columns k
  relations : ∀ r ∈ c.relations, relations r

variable {P : Column → Prop} {R : Relation → Prop}

theorem LooksAt.mono {P' : Column → Prop} {R' : Relation → Prop} {c : Condition}
    (h : c.LooksAt P R) (hP : ∀ k, P k → P' k) (hR : ∀ r, R r → R' r) : c.LooksAt P' R' :=
  ⟨fun k hk => hP k (h.columns k hk), fun r hr => hR r (h.relations r hr)⟩

theorem mem_outerColumnsOfAll {cs : List Condition} {k : Column} :
    k ∈ outerColumnsOfAll cs ↔ ∃ c ∈ cs, k ∈ c.outerColumns := by
  induction cs with
  | nil => simp [outerColumnsOfAll]
  | cons c cs ih => simp [outerColumnsOfAll, ih]

theorem mem_relationsOfAll {cs : List Condition} {r : Relation} :
    r ∈ relationsOfAll cs ↔ ∃ c ∈ cs, r ∈ c.relations := by
  induction cs with
  | nil => simp [relationsOfAll]
  | cons c cs ih => simp [relationsOfAll, ih]

theorem looksAt_all {cs : List Condition} :
    (all cs).LooksAt P R ↔ ∀ c ∈ cs, c.LooksAt P R := by
  constructor
  · rintro ⟨hcolumns, hrelations⟩ c hc
    rw [outerColumns] at hcolumns
    rw [relations] at hrelations
    exact ⟨fun k hk => hcolumns k (mem_outerColumnsOfAll.2 ⟨c, hc, hk⟩),
      fun r hr => hrelations r (mem_relationsOfAll.2 ⟨c, hc, hr⟩)⟩
  · intro h
    constructor
    · intro k hk
      obtain ⟨c, hc, hk⟩ := mem_outerColumnsOfAll.1 (by simpa only [outerColumns] using hk)
      exact (h c hc).columns k hk
    · intro r hr
      obtain ⟨c, hc, hr⟩ := mem_relationsOfAll.1 (by simpa only [relations] using hr)
      exact (h c hc).relations r hr

theorem looksAt_any {cs : List Condition} : (any cs).LooksAt P R ↔ (all cs).LooksAt P R := by
  constructor
  · exact fun h => ⟨by simpa only [outerColumns] using h.columns,
      by simpa only [relations] using h.relations⟩
  · exact fun h => ⟨by simpa only [outerColumns] using h.columns,
      by simpa only [relations] using h.relations⟩

theorem isKept_looksAt : Query.IsKept (LooksAt P R) where
  all _ h := looksAt_all.2 h
  any _ h := looksAt_any.2 (looksAt_all.2 h)
  negated _ h := ⟨by simpa only [outerColumns] using h.columns,
    by simpa only [relations] using h.relations⟩

theorem looksAt_ofObject {r : Relation} {c : Condition} (hP : P .objectId) (hR : R r)
    (h : ∀ s ∈ c.relations, R s) : (ofObject r c).LooksAt P R := by
  constructor
  · intro k hk
    rw [ofObject, outerColumns, List.mem_singleton] at hk
    exact hk ▸ hP
  · intro s hs
    rw [ofObject, relations, List.mem_cons] at hs
    rcases hs with rfl | hs
    · exact hR
    · exact h s hs

mutual

theorem looksAt_of_isTestOf {P : Column → Prop} {R : Relation → Prop} {o : Operand}
    (ho : P o.base) {c : Condition} (h : c.IsTestOf o) : c.LooksAt P R := by
  cases c with
  | compare p comparison l =>
    obtain rfl : p = o := h
    exact ⟨by simpa [outerColumns] using ho, by simp [relations]⟩
  | like p pattern =>
    obtain rfl : p = o := h
    exact ⟨by simpa [outerColumns] using ho, by simp [relations]⟩
  | all cs => exact looksAt_all.2 (looksAt_of_allTestsOf ho h)
  | any cs => exact looksAt_any.2 (looksAt_all.2 (looksAt_of_allTestsOf ho h))
  | const b => exact h.elim
  | among p ls => exact h.elim
  | negated c => exact h.elim
  | related r outer c => exact h.elim

theorem looksAt_of_allTestsOf {P : Column → Prop} {R : Relation → Prop} {o : Operand}
    (ho : P o.base) {cs : List Condition} (h : AllTestsOf o cs) : ∀ c ∈ cs, c.LooksAt P R := by
  cases cs with
  | nil => simp
  | cons c cs =>
    rw [List.forall_mem_cons]
    exact ⟨looksAt_of_isTestOf ho h.1, looksAt_of_allTestsOf ho h.2⟩

end

end Condition

namespace Strategy

/-- The own column of an object that fields of a strategy look at; related rows are found by id. -/
def ownColumn : Strategy → Column
  | text c | integer c | moment c | document c => c
  | related _ _ | keyed | sharedWith | uploadedBy => .objectId

def relation? : Strategy → Option Relation
  | related r _ => some r
  | keyed => some .attributes
  | sharedWith | uploadedBy => some .permissions
  | text _ | integer _ | moment _ | document _ => none

end Strategy

namespace Leaf

open Condition

theorem relations_eq_nil_of_isTestOf {o : Operand} {c : Condition} (h : c.IsTestOf o) :
    c.relations = [] :=
  List.eq_nil_iff_forall_not_mem.2
    (looksAt_of_isTestOf (P := fun _ => True) (R := fun _ => False) trivial h).relations

/-- The condition of a value compares a column of the object or of its record, or a value inside a
document there, or it enters a relation once. -/
theorem condition_cases {d : Directory} {v : Viewer} {f : ResolvedField} {leaf : Leaf}
    {e : Condition} (h : leaf.condition d v f = .ok e) :
    (∃ c, (f.strategy = .text c ∨ f.strategy = .integer c ∨ f.strategy = .moment c) ∧
      e.IsTestOf (.column c)) ∨
    (∃ c, f.strategy = .document c ∧ (∀ l ∈ f.residual.map Text.unescape, '"' ∉ l) ∧
      e.IsTestOf (.document c (Document.pathText (f.residual.map Text.unescape)))) ∨
    ∃ r inner, f.strategy.ownColumn = .objectId ∧ f.strategy.relation? = some r ∧
      inner.relations = [] ∧ e = .ofObject r inner := by
  obtain ⟨path, kind, strategy, residual⟩ := f
  cases strategy with
  | text c =>
    cases leaf with
    | term value =>
      cases h
      exact .inl ⟨c, .inl rfl, isTestOf_textCondition _ value⟩
    | range r => cases h
  | integer c =>
    refine .inl ⟨c, .inr (.inl rfl), ?_⟩
    cases leaf with
    | term value =>
      obtain ⟨n, _, h⟩ := bind_eq_ok_iff.1 h
      cases h
      exact rfl
    | range r => exact isTestOf_of_integerRange h
  | moment c =>
    refine .inl ⟨c, .inr (.inr rfl), ?_⟩
    cases leaf with
    | term value => exact isTestOf_of_momentTerm h
    | range r => exact isTestOf_of_momentRange h
  | related r c =>
    cases leaf with
    | term value =>
      cases h
      exact .inr (.inr ⟨r, _, rfl, rfl,
        relations_eq_nil_of_isTestOf (isTestOf_textCondition (.column c) value), rfl⟩)
    | range r => cases h
  | document c =>
    refine .inr (.inl ⟨c, rfl, ?_⟩)
    cases leaf with
    | term value =>
      obtain ⟨o, ho, h⟩ := bind_eq_ok_iff.1 h
      cases h
      obtain ⟨rfl, hquote⟩ := documentOperand_eq_ok ho
      exact ⟨hquote, isTestOf_textCondition _ value⟩
    | range r =>
      obtain ⟨o, ho, h⟩ := bind_eq_ok_iff.1 h
      cases h
      obtain ⟨rfl, hquote⟩ := documentOperand_eq_ok ho
      exact ⟨hquote, isTestOf_documentRange _ r⟩
  | keyed =>
    obtain ⟨value, segment, rest, a, rfl, rfl, _, _, _, _, rfl⟩ := keyedCondition_eq_ok h
    have hvalue := relations_eq_nil_of_isTestOf (isTestOf_textCondition (.document .attributeValue
      (Document.pathText (rest.map Text.unescape))) value)
    refine .inr (.inr ⟨.attributes, _, rfl, rfl, ?_, rfl⟩)
    simp [relations, relationsOfAll, equals, hvalue]
  | sharedWith =>
    obtain ⟨value, g, rfl, _, _, rfl⟩ := sharedWithCondition_eq_ok h
    exact .inr (.inr ⟨.permissions, _, rfl, rfl, by simp [equals, relations], rfl⟩)
  | uploadedBy =>
    obtain ⟨value, u, rfl, _, _, rfl⟩ := uploadedByCondition_eq_ok h
    exact .inr (.inr ⟨.permissions, _, rfl, rfl,
      by simp [equals, relations, relationsOfAll], rfl⟩)

theorem looksAt_of_condition {d : Directory} {v : Viewer} {f : ResolvedField} {leaf : Leaf}
    {e : Condition} (h : leaf.condition d v f = .ok e) :
    e.LooksAt (· = f.strategy.ownColumn) (f.strategy.relation? = some ·) := by
  rcases condition_cases h with ⟨c, hc, he⟩ | ⟨c, hc, -, he⟩ | ⟨r, inner, hown, hr, hinner, rfl⟩
  · have hown : c = f.strategy.ownColumn := by
      rcases hc with hc | hc | hc <;> rw [hc] <;> rfl
    exact looksAt_of_isTestOf (P := (· = f.strategy.ownColumn)) (o := .column c) hown he
  · have hown : c = f.strategy.ownColumn := by rw [hc]; rfl
    exact looksAt_of_isTestOf (P := (· = f.strategy.ownColumn)) (o := .document c _) hown he
  · exact looksAt_ofObject (P := (· = f.strategy.ownColumn)) hown.symm hr (by simp [hinner])

end Leaf

/-- The fields of a kind look at the object and at the record of that kind, but not at the type. -/
theorem FieldEntry.looks_within {e : FieldEntry} (he : e ∈ tables.flatten) :
    e.strategy.ownColumn ≠ .objectType ∧
      (e.strategy.ownColumn.source = .object ∨
        e.kind.source? = some e.strategy.ownColumn.source) ∧
      (e.strategy.relation? = some .altNames → e.kind = .file) := by
  have hall : ∀ e ∈ tables.flatten, e.strategy.ownColumn ≠ .objectType ∧
      (e.strategy.ownColumn.source = .object ∨
        e.kind.source? = some e.strategy.ownColumn.source) ∧
      (e.strategy.relation? = some .altNames → e.kind = .file) := by decide
  exact hall e he

namespace Kind

def Has (k : Kind) (c : Column) : Prop := c.source = .object ∨ k.source? = some c.source

end Kind

namespace Condition

/-- Whether a condition may be asked of objects of a kind, which must not depend on their type. -/
def SuitsKind (k : Kind) : Condition → Prop :=
  LooksAt (fun c => c ≠ .objectType ∧ k.Has c) fun r => r = .altNames → k = .file

theorem suitsKind_of_belongsTo {d : Directory} {v : Viewer} {f : ResolvedField} {k : Kind}
    (hf : f.BelongsTo k) {leaf : Leaf} {c : Condition} (h : leaf.condition d v f = .ok c) :
    c.SuitsKind k := by
  obtain ⟨e, he, hstrategy, hkind⟩ := hf
  obtain ⟨htype, hsource, hnames⟩ := FieldEntry.looks_within he
  rw [hstrategy] at htype hsource hnames
  refine (Leaf.looksAt_of_condition h).mono ?_ ?_
  · rintro column rfl
    refine ⟨htype, ?_⟩
    rcases hkind with hgeneric | hsame
    · left
      rw [hgeneric] at hsource
      simpa [Kind.source?] using hsource
    · rw [hsame] at hsource
      exact hsource
  · rintro r hr rfl
    rcases hkind with hgeneric | hsame
    · rw [hnames hr] at hgeneric
      cases hgeneric
    · rw [← hsame, hnames hr]

theorem suitsKind_of_compile {d : Directory} {v : Viewer} {b b' : Binding} {q : Query}
    {c : Condition} (h : q.compile d v b = .ok (c, b')) : c.SuitsKind (b'.getD .object) := by
  apply isKept_looksAt.of_compileIn h
  intro l hl e he
  exact suitsKind_of_belongsTo ((Query.keepsKind_of_compileIn h).leaves (by simp) l hl) he

theorem suitsKind_access (v : Viewer) (k : Kind) : v.access.SuitsKind k := by
  unfold Viewer.access Viewer.accessTo
  split
  · exact ⟨by simp [outerColumns], by simp [relations]⟩
  · split
    · exact ⟨by simp [outerColumns], by simp [relations]⟩
    · exact looksAt_ofObject ⟨by decide, .inl rfl⟩ (by simp) (by simp [relations])

theorem suitsKind_afterPosition (sort : SortOrder) (p : Position) (k : Kind) :
    (Plan.afterPosition sort p).SuitsKind k := by
  constructor
  · intro c hc
    simp only [Plan.afterPosition, equals, outerColumns, outerColumnsOfAll, Operand.base,
      List.append_nil, List.cons_append, List.nil_append, List.mem_cons, List.not_mem_nil,
      or_false] at hc
    rcases hc with rfl | rfl | rfl <;> exact ⟨by decide, .inl rfl⟩
  · simp [Plan.afterPosition, equals, relations, relationsOfAll]

def parts : Condition → List Condition
  | all cs => cs
  | c => [c]

end Condition

namespace Plan

variable {d : Directory} {v : Viewer} {o : SearchOptions} {text : Text} {p : Plan}

theorem exists_parts_of_compile (h : compile d v o text = .ok p) :
    ∃ cs, p.condition = .all (ofKind p.kind ++ cs) ∧ ∀ c ∈ cs, c.SuitsKind p.kind := by
  obtain ⟨q, c, b, after, _, hc, hafter, rfl⟩ := compile_eq_ok h
  refine ⟨[c, v.access] ++ after, by simp only [List.append_assoc], fun e he => ?_⟩
  simp only [List.mem_append, List.mem_cons, List.not_mem_nil, or_false] at he
  rcases he with (rfl | rfl) | he
  · exact Condition.suitsKind_of_compile hc
  · exact Condition.suitsKind_access v _
  · rcases afterObject_eq_ok hafter with ⟨_, rfl⟩ | ⟨t, p, _, _, rfl⟩
    · simp at he
    · cases List.mem_singleton.1 he
      exact Condition.suitsKind_afterPosition o.sort p _

theorem looksAt_ofKind (k : Kind) :
    ∀ c ∈ ofKind k, c.LooksAt (· = .objectType) fun _ => False := by
  intro c hc
  unfold ofKind at hc
  split at hc
  · simp at hc
  · cases List.mem_singleton.1 hc
    exact Condition.looksAt_of_isTestOf (P := (· = .objectType)) rfl
      (show Condition.IsTestOf (.column .objectType) _ from rfl)

/-- A plan restricts the type of objects to that of its kind, and does so exactly if its kind is
concrete. -/
theorem restricts_type_iff (h : compile d v o text = .ok p) (tag : Text) :
    .equals (.column .objectType) (.text tag) ∈ p.condition.parts ↔ p.kind.typeTag = some tag := by
  obtain ⟨cs, hcs, hsuits⟩ := exists_parts_of_compile h
  rw [hcs, Condition.parts, List.mem_append]
  constructor
  · rintro (htype | hother)
    · unfold ofKind at htype
      split at htype
      · simp at htype
      · rename_i tag' htag
        simp only [List.mem_singleton, Condition.equals, Condition.compare.injEq,
          Literal.text.injEq, true_and] at htype
        rw [htag, htype]
    · exact absurd rfl ((hsuits _ hother).columns .objectType (by
        simp [Condition.equals, Condition.outerColumns, Operand.base])).1
  · intro htag
    left
    rw [ofKind, htag]
    exact List.mem_singleton.2 rfl

theorem reads_type_iff (h : compile d v o text = .ok p) :
    .objectType ∈ p.condition.outerColumns ↔ p.kind.isConcrete = true := by
  obtain ⟨cs, hcs, hsuits⟩ := exists_parts_of_compile h
  rw [hcs, Condition.outerColumns, Condition.mem_outerColumnsOfAll, Kind.isConcrete_iff_typeTag,
    ofKind]
  constructor
  · rintro ⟨c, hc, htype⟩
    rcases List.mem_append.1 hc with hc | hc
    · cases htag : p.kind.typeTag with
      | none => simp [htag] at hc
      | some tag => rfl
    · exact absurd rfl ((hsuits c hc).columns _ htype).1
  · intro hconcrete
    obtain ⟨tag, htag⟩ := Option.isSome_iff_exists.1 hconcrete
    exact ⟨.equals (.column .objectType) (.text tag), by simp [htag],
      by simp [Condition.equals, Condition.outerColumns, Operand.base]⟩

/-- A plan is of one kind: it reads the object and the record of this kind only, looks at
alternative names for files only, and restricts the type of objects exactly if the kind is concrete.
No other concrete kind is named in the query or asked for with it. -/
theorem one_kind_of_compile (h : compile d v o text = .ok p) :
    (∀ c ∈ p.condition.outerColumns, c.source = .object ∨ p.kind.source? = some c.source) ∧
      (.altNames ∈ p.condition.relations → p.kind = .file) ∧
      (∃ q, Query.parse text = .ok q ∧ ∀ name ∈ q.fieldNames, ∀ first rest k,
        segments name = first :: rest → Kind.ofAlias first = some k → k.isConcrete = true →
          k = p.kind) ∧
      (o.kind = none ∨ o.kind = some .object ∨ o.kind = some p.kind) ∧
      (∀ tag, .equals (.column .objectType) (.text tag) ∈ p.condition.parts ↔
        p.kind.typeTag = some tag) ∧
      (.objectType ∈ p.condition.outerColumns ↔ p.kind.isConcrete = true) := by
  have hlooks : p.condition.LooksAt p.kind.Has fun r => r = .altNames → p.kind = .file := by
    obtain ⟨cs, hcs, hsuits⟩ := exists_parts_of_compile h
    rw [hcs, Condition.looksAt_all]
    intro c hc
    rcases List.mem_append.1 hc with hc | hc
    · refine (looksAt_ofKind _ c hc).mono ?_ fun _ => False.elim
      rintro _ rfl
      exact .inl rfl
    · exact (hsuits c hc).mono (fun _ => And.right) fun _ => id
  obtain ⟨q, c, b, after, hq, hc, hafter, hp⟩ := compile_eq_ok h
  have hkind : p.kind = b.getD .object := by rw [hp]
  have hkeeps := Query.keepsKind_of_compileIn hc
  refine ⟨hlooks.columns, fun hnames => hlooks.relations _ hnames rfl, ⟨q, hq, ?_⟩, ?_,
    restricts_type_iff h, reads_type_iff h⟩
  · intro name hname first rest k hpath halias hconcrete
    obtain ⟨bound, g, hg, hwithin⟩ := hkeeps.names name hname
    rw [ResolvedField.kind_of_resolve hg hpath halias, ← hkind] at hwithin
    rcases hwithin with hgeneric | hsame
    · rw [hgeneric] at hconcrete
      cases hconcrete
    · exact hsame
  · rw [hkind]
    cases hoption : o.kind with
    | none => exact .inl rfl
    | some k =>
      have hgrows := hkeeps.grows
      rw [hoption] at hgrows
      rcases hgrows with hgeneric | hsame
      · exact .inr (.inl (congrArg some hgeneric))
      · exact .inr (.inr (congrArg some hsame))

/-- The size of a file makes all of this query one for files, the name behind it included. -/
theorem one_kind_of_compile_names : ∃ p,
    compile Database.blank.directory (.ofUser ⟨1, ['u']⟩) .default
        "dhash:a OR NOT file.size:1 alt_name:b".toList = .ok p ∧
      p.kind = .file ∧ .altNames ∈ p.condition.relations ∧
      (∀ c ∈ p.condition.outerColumns, c.source = .object ∨ Kind.file.source? = some c.source) ∧
      .equals (.column .objectType) (.text "file".toList) ∈ p.condition.parts := by
  have hcheck : (compile Database.blank.directory (.ofUser ⟨1, ['u']⟩) .default
      "dhash:a OR NOT file.size:1 alt_name:b".toList).toOption.any
        (fun p => p.kind == .file && p.condition.relations.contains .altNames) = true := by
    decide +kernel
  obtain ⟨p, hp, hcheck⟩ := exists_ok_of_any hcheck
  rw [Bool.and_eq_true, beq_iff_eq, List.contains_iff_mem] at hcheck
  obtain ⟨hkind, hnames⟩ := hcheck
  obtain ⟨hcolumns, -, -, -, htype, -⟩ := one_kind_of_compile hp
  rw [hkind] at hcolumns htype
  exact ⟨p, hp, hkind, hnames, hcolumns, (htype "file".toList).2 rfl⟩

end Plan

end SampleSearch
