import SampleSearch.Proofs.CompiledConditions
import SampleSearch.Proofs.HiddenEntities

/-!
# What compiled queries may look at

Attributes and permissions are looked at in two forms only: the value of one attribute that the
viewer can read, and a group or a user that the viewer may know of. Nothing else in the condition
of a query reads their columns, at any depth, so a query tells a viewer nothing through rows that
are none of the viewer's business.
-/

namespace SampleSearch

namespace Column

/-- Whether the column belongs to the rows of attributes or permissions. -/
def isGuarded (c : Column) : Bool := c.source == .attributeRow || c.source == .permission

end Column

namespace Strategy

/-- The column of which a field compares the values, if it is one of its own. -/
def column? : Strategy → Option Column
  | text c | integer c | moment c | related _ c | document c => some c
  | keyed | sharedWith | uploadedBy => none

theorem isGuarded_column {s : Strategy} (hs : s ∈ FieldEntry.strategies) {c : Column}
    (hc : s.column? = some c) : c.isGuarded = false := by
  have hall : ∀ s ∈ FieldEntry.strategies, ∀ c ∈ s.column?, c.isGuarded = false := by decide
  exact hall s hs c hc

end Strategy

namespace AttributeDefinition

def MayBeReadBy (a : AttributeDefinition) (v : Viewer) : Prop :=
  v.has .readingAllAttributes = true ∨
    ∃ p ∈ a.permissions, p.canRead = true ∧ v.isMember p.groupId = true

theorem readableBy_iff {a : AttributeDefinition} {v : Viewer} :
    a.readableBy v = true ↔ a.MayBeReadBy v := by
  simp [readableBy, MayBeReadBy]

end AttributeDefinition

namespace Condition

mutual

/-- A condition and all those that it is built of. -/
def subconditions : Condition → List Condition
  | const b => [const b]
  | compare o comparison l => [compare o comparison l]
  | like o pattern => [like o pattern]
  | among o ls => [among o ls]
  | all parts => all parts :: subconditionsOfAll parts
  | any parts => any parts :: subconditionsOfAll parts
  | negated c => negated c :: subconditions c
  | related r outer c => related r outer c :: subconditions c

def subconditionsOfAll : List Condition → List Condition
  | [] => []
  | c :: cs => subconditions c ++ subconditionsOfAll cs

end

mutual

/-- The columns that are read elsewhere than inside of related attributes and permissions. -/
def openColumns : Condition → List Column
  | const _ => []
  | compare o _ _ => [o.base]
  | like o _ => [o.base]
  | among o _ => [o.base]
  | all parts => openColumnsOfAll parts
  | any parts => openColumnsOfAll parts
  | negated c => openColumns c
  | related .attributes outer _ => [outer]
  | related .permissions outer _ => [outer]
  | related r outer c => outer :: r.link :: openColumns c

def openColumnsOfAll : List Condition → List Column
  | [] => []
  | c :: cs => openColumns c ++ openColumnsOfAll cs

end

theorem mem_subconditionsOfAll {cs : List Condition} {e : Condition} :
    e ∈ subconditionsOfAll cs ↔ ∃ c ∈ cs, e ∈ c.subconditions := by
  induction cs with
  | nil => simp [subconditionsOfAll]
  | cons c cs ih => simp [subconditionsOfAll, ih]

theorem mem_openColumnsOfAll {cs : List Condition} {column : Column} :
    column ∈ openColumnsOfAll cs ↔ ∃ c ∈ cs, column ∈ c.openColumns := by
  induction cs with
  | nil => simp [openColumnsOfAll]
  | cons c cs ih => simp [openColumnsOfAll, ih]

/-- A condition on an attribute row: the key is that of a defined attribute which the viewer may
read, and the value equals a text or, unless the attribute is hidden, matches a pattern. -/
def TestsAttribute (d : Directory) (v : Viewer) (c : Condition) : Prop :=
  ∃ key a path value, d.attribute? key = .ok (some a) ∧ a.MayBeReadBy v ∧
    c = .all [.equals (.column .attributeKey) (.text key), value] ∧
    ((∃ t, value = .equals (.document .attributeValue path) (.text t)) ∨
      a.hidden = false ∧ ∃ pattern, value = .like (.document .attributeValue path) pattern)

/-- A condition on a permission row: it names a group of the viewer or was added by the viewer,
where a manager of users may name every group and every user. -/
def TestsPermission (d : Directory) (v : Viewer) (c : Condition) : Prop :=
  (∃ name g, d.group? name = .ok (some g) ∧
    (v.isMember g.id = true ∨ v.has .manageUsers = true) ∧
    c = .equals (.column .permissionGroup) (.int g.id)) ∨
  ∃ login u, d.user? login = .ok (some u) ∧ (login = v.login ∨ v.has .manageUsers = true) ∧
    c = .all [.equals (.column .permissionUser) (.int u.id),
      .equals (.column .permissionReason) (.text "added".toList)]

/-- A condition looks at attributes and permissions only as the viewer may. -/
structure IsPermitted (d : Directory) (v : Viewer) (c : Condition) : Prop where
  attributes : ∀ outer inner, related .attributes outer inner ∈ c.subconditions →
    outer = .objectId ∧ inner.TestsAttribute d v
  permissions : ∀ outer inner, related .permissions outer inner ∈ c.subconditions →
    outer = .objectId ∧ inner.TestsPermission d v
  columns : ∀ column ∈ c.openColumns, column.isGuarded = false

variable {d : Directory} {v : Viewer}

/-- A condition that is itself no look at attributes or permissions is permitted with its parts. -/
theorem isPermitted_of_parts {c : Condition} (parts : List Condition)
    (hown : ∀ outer inner, c ≠ related .attributes outer inner ∧
      c ≠ related .permissions outer inner)
    (hsub : ∀ e ∈ c.subconditions, e = c ∨ ∃ p ∈ parts, e ∈ p.subconditions)
    (hcolumns : ∀ k ∈ c.openColumns, k.isGuarded = false ∨ ∃ p ∈ parts, k ∈ p.openColumns)
    (h : ∀ p ∈ parts, p.IsPermitted d v) : c.IsPermitted d v := by
  constructor
  · intro outer inner hmem
    rcases hsub _ hmem with heq | ⟨p, hp, hmem⟩
    · exact absurd heq.symm (hown outer inner).1
    · exact (h p hp).attributes outer inner hmem
  · intro outer inner hmem
    rcases hsub _ hmem with heq | ⟨p, hp, hmem⟩
    · exact absurd heq.symm (hown outer inner).2
    · exact (h p hp).permissions outer inner hmem
  · intro k hk
    rcases hcolumns k hk with hopen | ⟨p, hp, hk⟩
    · exact hopen
    · exact (h p hp).columns k hk

theorem isPermitted_all {cs : List Condition} (h : ∀ c ∈ cs, c.IsPermitted d v) :
    (all cs).IsPermitted d v := by
  refine isPermitted_of_parts cs (by simp) ?_ ?_ h
  · intro e he
    simpa [subconditions, mem_subconditionsOfAll] using he
  · intro k hk
    exact .inr (mem_openColumnsOfAll.1 (by simpa only [openColumns] using hk))

theorem isPermitted_any {cs : List Condition} (h : ∀ c ∈ cs, c.IsPermitted d v) :
    (any cs).IsPermitted d v := by
  refine isPermitted_of_parts cs (by simp) ?_ ?_ h
  · intro e he
    simpa [subconditions, mem_subconditionsOfAll] using he
  · intro k hk
    exact .inr (mem_openColumnsOfAll.1 (by simpa only [openColumns] using hk))

theorem isPermitted_negated {c : Condition} (h : c.IsPermitted d v) :
    (negated c).IsPermitted d v := by
  refine isPermitted_of_parts [c] (by simp) ?_ ?_ (by simpa using h)
  · intro e he
    simpa [subconditions] using he
  · intro k hk
    exact .inr ⟨c, List.mem_singleton_self c, by simpa only [openColumns] using hk⟩

theorem isPermitted_compare {o : Operand} (ho : o.base.isGuarded = false) (comparison : Comparison)
    (l : Literal) : (compare o comparison l).IsPermitted d v := by
  refine isPermitted_of_parts [] (by simp) ?_ ?_ (by simp)
  · intro e he
    exact .inl (List.mem_singleton.1 he)
  · intro k hk
    rw [List.mem_singleton.1 hk]
    exact .inl ho

theorem isPermitted_like {o : Operand} (ho : o.base.isGuarded = false) (pattern : Text) :
    (like o pattern).IsPermitted d v := by
  refine isPermitted_of_parts [] (by simp) ?_ ?_ (by simp)
  · intro e he
    exact .inl (List.mem_singleton.1 he)
  · intro k hk
    rw [List.mem_singleton.1 hk]
    exact .inl ho

mutual

theorem isPermitted_of_isTestOf {o : Operand} (ho : o.base.isGuarded = false) {c : Condition}
    (h : c.IsTestOf o) : c.IsPermitted d v := by
  cases c with
  | compare p comparison l =>
    cases (show p = o from h)
    exact isPermitted_compare ho comparison l
  | like p pattern =>
    cases (show p = o from h)
    exact isPermitted_like ho pattern
  | all cs => exact isPermitted_all (isPermitted_of_allTestsOf ho h)
  | any cs => exact isPermitted_any (isPermitted_of_allTestsOf ho h)
  | const b => exact h.elim
  | among p ls => exact h.elim
  | negated c => exact h.elim
  | related r outer c => exact h.elim

theorem isPermitted_of_allTestsOf {o : Operand} (ho : o.base.isGuarded = false)
    {cs : List Condition} (h : AllTestsOf o cs) : ∀ c ∈ cs, c.IsPermitted d v := by
  cases cs with
  | nil => simp
  | cons c cs =>
    rw [List.forall_mem_cons]
    exact ⟨isPermitted_of_isTestOf ho h.1, isPermitted_of_allTestsOf ho h.2⟩

end

theorem isPermitted_ofObject {r : Relation} (hr : r.link.isGuarded = false) {c : Condition}
    (h : c.IsPermitted d v) : (ofObject r c).IsPermitted d v := by
  refine isPermitted_of_parts [c] ?_ ?_ ?_ (by simpa using h)
  · intro outer inner
    constructor
    · rintro heq
      cases heq
      cases hr
    · rintro heq
      cases heq
      cases hr
  · intro e he
    simpa [ofObject, subconditions] using he
  · intro k hk
    cases r with
    | attributes => cases hr
    | permissions => cases hr
    | _ => 
      simp only [ofObject, openColumns, List.mem_cons] at hk
      rcases hk with rfl | rfl | hk
      · exact .inl rfl
      · exact .inl hr
      · exact .inr ⟨c, List.mem_singleton_self c, hk⟩

theorem TestsAttribute.related_not_mem {c : Condition} (h : c.TestsAttribute d v) (r : Relation)
    (outer : Column) (inner : Condition) : related r outer inner ∉ c.subconditions := by
  obtain ⟨key, a, path, value, _, _, rfl, hvalue⟩ := h
  rcases hvalue with ⟨t, rfl⟩ | ⟨_, pattern, rfl⟩
  · simp [equals, subconditions, subconditionsOfAll]
  · simp [equals, subconditions, subconditionsOfAll]

theorem TestsPermission.related_not_mem {c : Condition} (h : c.TestsPermission d v) (r : Relation)
    (outer : Column) (inner : Condition) : related r outer inner ∉ c.subconditions := by
  rcases h with ⟨name, g, _, _, rfl⟩ | ⟨login, u, _, _, rfl⟩
  · simp [equals, subconditions]
  · simp [equals, subconditions, subconditionsOfAll]

theorem isPermitted_ofAttribute {c : Condition} (h : c.TestsAttribute d v) :
    (ofObject .attributes c).IsPermitted d v := by
  constructor
  · intro outer inner hmem
    rcases List.mem_cons.1 hmem with heq | hmem
    · cases heq
      exact ⟨rfl, h⟩
    · exact absurd hmem (h.related_not_mem _ _ _)
  · intro outer inner hmem
    rcases List.mem_cons.1 hmem with heq | hmem
    · cases heq
    · exact absurd hmem (h.related_not_mem _ _ _)
  · intro k hk
    rw [List.mem_singleton.1 hk]
    rfl

theorem isPermitted_ofPermission {c : Condition} (h : c.TestsPermission d v) :
    (ofObject .permissions c).IsPermitted d v := by
  constructor
  · intro outer inner hmem
    rcases List.mem_cons.1 hmem with heq | hmem
    · cases heq
    · exact absurd hmem (h.related_not_mem _ _ _)
  · intro outer inner hmem
    rcases List.mem_cons.1 hmem with heq | hmem
    · cases heq
      exact ⟨rfl, h⟩
    · exact absurd hmem (h.related_not_mem _ _ _)
  · intro k hk
    rw [List.mem_singleton.1 hk]
    rfl

end Condition

namespace Leaf

open Condition

variable {d : Directory} {v : Viewer}

theorem testsAttribute_of_keyedCondition {path : Text} {residual : List Text} {leaf : Leaf}
    {e : Condition} (h : keyedCondition d v path residual leaf = .ok e) :
    ∃ c, e = .ofObject .attributes c ∧ c.TestsAttribute d v := by
  obtain ⟨value, segment, rest, a, rfl, rfl, ha, hread, hwild, _, rfl⟩ := keyedCondition_eq_ok h
  refine ⟨_, rfl, Text.unescape segment, a, Document.pathText (rest.map Text.unescape), _, ha,
    AttributeDefinition.readableBy_iff.1 hread, rfl, ?_⟩
  unfold textCondition
  cases hpattern : Text.hasWildcards value with
  | true =>
    have hshown : a.hidden = false := by
      rw [← Bool.not_eq_true]
      intro hhidden
      rw [hwild hhidden] at hpattern
      cases hpattern
    exact .inr ⟨hshown, Text.likePattern value, rfl⟩
  | false => exact .inl ⟨Text.unescape value, rfl⟩

theorem testsPermission_of_sharedWithCondition {path : Text} {leaf : Leaf} {e : Condition}
    (h : sharedWithCondition d v path leaf = .ok e) :
    ∃ c, e = .ofObject .permissions c ∧ c.TestsPermission d v := by
  obtain ⟨value, g, rfl, hg, hknown, rfl⟩ := sharedWithCondition_eq_ok h
  exact ⟨_, rfl, .inl ⟨Text.unescape value, g, hg, hknown.symm, rfl⟩⟩

theorem testsPermission_of_uploadedByCondition {path : Text} {leaf : Leaf} {e : Condition}
    (h : uploadedByCondition d v path leaf = .ok e) :
    ∃ c, e = .ofObject .permissions c ∧ c.TestsPermission d v := by
  obtain ⟨value, u, rfl, hu, hknown, rfl⟩ := uploadedByCondition_eq_ok h
  exact ⟨_, rfl, .inr ⟨Text.unescape value, u, hu, hknown.symm, rfl⟩⟩

theorem isPermitted_of_condition {f : ResolvedField} (hf : f.strategy ∈ FieldEntry.strategies)
    {leaf : Leaf} {e : Condition} (h : leaf.condition d v f = .ok e) : e.IsPermitted d v := by
  obtain ⟨path, kind, strategy, residual⟩ := f
  have hopen {c : Column} (hc : strategy.column? = some c) : c.isGuarded = false :=
    Strategy.isGuarded_column hf hc
  cases strategy with
  | text c =>
    cases leaf with
    | term value =>
      cases h
      exact isPermitted_of_isTestOf (hopen rfl) (isTestOf_textCondition (.column c) value)
    | range r => cases h
  | integer c =>
    cases leaf with
    | term value =>
      obtain ⟨n, _, h⟩ := bind_eq_ok_iff.1 h
      cases h
      exact isPermitted_compare (o := .column c) (hopen rfl) .eq (.int n)
    | range r => exact isPermitted_of_isTestOf (hopen rfl) (isTestOf_of_integerRange h)
  | moment c =>
    cases leaf with
    | term value => exact isPermitted_of_isTestOf (hopen rfl) (isTestOf_of_momentTerm h)
    | range r => exact isPermitted_of_isTestOf (hopen rfl) (isTestOf_of_momentRange h)
  | related r c =>
    have hr : r.link.isGuarded = false := by
      rcases FieldEntry.related_of_mem_strategies hf with ⟨rfl, _⟩ | ⟨rfl, _⟩ | ⟨rfl, _⟩
      · rfl
      · rfl
      · rfl
    cases leaf with
    | term value =>
      cases h
      exact isPermitted_ofObject hr
        (isPermitted_of_isTestOf (hopen rfl) (isTestOf_textCondition (.column c) value))
    | range r => cases h
  | document c =>
    cases leaf with
    | term value =>
      obtain ⟨o, ho, h⟩ := bind_eq_ok_iff.1 h
      cases h
      obtain ⟨rfl, _⟩ := documentOperand_eq_ok ho
      exact isPermitted_of_isTestOf (hopen rfl) (isTestOf_textCondition _ value)
    | range r =>
      obtain ⟨o, ho, h⟩ := bind_eq_ok_iff.1 h
      cases h
      obtain ⟨rfl, _⟩ := documentOperand_eq_ok ho
      exact isPermitted_of_isTestOf (hopen rfl) (isTestOf_documentRange _ r)
  | keyed =>
    obtain ⟨c, rfl, hc⟩ := testsAttribute_of_keyedCondition h
    exact isPermitted_ofAttribute hc
  | sharedWith =>
    obtain ⟨c, rfl, hc⟩ := testsPermission_of_sharedWithCondition h
    exact isPermitted_ofPermission hc
  | uploadedBy =>
    obtain ⟨c, rfl, hc⟩ := testsPermission_of_uploadedByCondition h
    exact isPermitted_ofPermission hc

end Leaf

namespace Query

variable {d : Directory} {v : Viewer}

theorem isInvariant_isPermitted : IsInvariant d v (Condition.IsPermitted d v) where
  leaf _ hf _ _ h := Leaf.isPermitted_of_condition hf h
  all _ h := Condition.isPermitted_all h
  any _ h := Condition.isPermitted_any h
  negated _ h := Condition.isPermitted_negated h

/-- The condition of a query looks at attributes and permissions only as the viewer may, whatever
the query, the directory and the kind that is bound before. -/
theorem isPermitted_of_compile {b b' : Binding} {q : Query} {c : Condition}
    (h : q.compile d v b = .ok (c, b')) : c.IsPermitted d v :=
  isInvariant_isPermitted.of_compile h

def guardedQuery : Query :=
  all [negated (.field "meta.k.l".toList (word ['x'])),
    .field "shared".toList (fieldGroup (any [word ['g'], phrase ['h']]))]

def guardedCondition : Condition :=
  .all [.negated (.related .attributes .objectId (.all
      [.equals (.column .attributeKey) (.text ['k']),
        .equals (.document .attributeValue "$.\"l\"".toList) (.text ['x'])])),
    .any [.related .permissions .objectId (.equals (.column .permissionGroup) (.int 1)),
      .related .permissions .objectId (.equals (.column .permissionGroup) (.int 1))]]

theorem isPermitted_of_compile_member :
    guardedQuery.compile Directory.secretive ⟨⟨1, ['a']⟩, [⟨1, ['g']⟩], []⟩ none =
        .ok (guardedCondition, some .object) ∧
      guardedCondition.IsPermitted Directory.secretive ⟨⟨1, ['a']⟩, [⟨1, ['g']⟩], []⟩ := by
  have hcompile : guardedQuery.compile Directory.secretive ⟨⟨1, ['a']⟩, [⟨1, ['g']⟩], []⟩ none =
      .ok (guardedCondition, some .object) := rfl
  exact ⟨hcompile, isPermitted_of_compile hcompile⟩

end Query

end SampleSearch
