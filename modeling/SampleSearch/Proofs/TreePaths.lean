import SampleSearch.Query.Tree

/-!
# Paths of trees

A path of a query leads from its root down to a leaf. Groups and prefix operators nest what they
stand around; the nesting of a query is the largest number of them on a path, and its height is
the largest number of nodes on one. Both are weights of paths, and the largest weight is attained.
-/

namespace SampleSearch.Query

/-- The nodes right below the root. -/
def children : Query → List Query
  | all parts => parts
  | any parts => parts
  | negated q => [q]
  | prohibited q => [q]
  | required q => [q]
  | field _ q => [q]
  | group q => [q]
  | fieldGroup q => [q]
  | boost q _ => [q]
  | word _ => []
  | phrase _ => []
  | range _ => []
  | fuzzy _ _ => []
  | proximity _ _ => []
  | regex _ => []

/-- The nodes on a way from the root down to a leaf. -/
inductive IsPath : Query → List Query → Prop
  | leaf {q : Query} : q.children = [] → IsPath q [q]
  | down {q c : Query} {path : List Query} : c ∈ q.children → IsPath c path → IsPath q (q :: path)

theorem isPath_cons_iff {q n : Query} {below : List Query} :
    q.IsPath (n :: below) ↔
      n = q ∧ (below = [] ∧ q.children = [] ∨ ∃ c ∈ q.children, c.IsPath below) := by
  constructor
  · intro h
    cases h with
    | leaf hleaf => exact ⟨rfl, .inl ⟨rfl, hleaf⟩⟩
    | down hc hbelow => exact ⟨rfl, .inr ⟨_, hc, hbelow⟩⟩
  · rintro ⟨rfl, ⟨rfl, hleaf⟩ | ⟨c, hc, hbelow⟩⟩
    · exact .leaf hleaf
    · exact .down hc hbelow

/-- What is left of a path behind some of its nodes is a path of the next one. -/
theorem IsPath.behind {q n : Query} {before after : List Query}
    (h : q.IsPath (before ++ n :: after)) : n.IsPath (n :: after) := by
  induction before generalizing q with
  | nil =>
    obtain ⟨rfl, -⟩ := isPath_cons_iff.1 h
    exact h
  | cons p before ih =>
    rw [List.cons_append, isPath_cons_iff] at h
    obtain ⟨-, ⟨hnil, -⟩ | ⟨c, -, hbelow⟩⟩ := h
    · simp at hnil
    · exact ih hbelow

theorem sizeOf_lt_of_mem_children {q c : Query} (h : c ∈ q.children) : sizeOf c < sizeOf q := by
  have hparts : ∀ parts : List Query, c ∈ parts → sizeOf c < sizeOf parts :=
    fun _ hc => List.sizeOf_lt_of_mem hc
  cases q with
  | all parts =>
    have hc := hparts parts h
    rw [all.sizeOf_spec]
    omega
  | any parts =>
    have hc := hparts parts h
    rw [any.sizeOf_spec]
    omega
  | field name v =>
    rw [List.mem_singleton.1 h, field.sizeOf_spec]
    omega
  | boost v force =>
    rw [List.mem_singleton.1 h, boost.sizeOf_spec]
    omega
  | _ => simp_all [children]

/-- A property of all queries follows if every query has it whose children have it. -/
theorem children_induction {motive : Query → Prop}
    (h : ∀ q, (∀ c ∈ q.children, motive c) → motive q) (q : Query) : motive q :=
  h q fun c _ => children_induction h c
termination_by sizeOf q
decreasing_by exact sizeOf_lt_of_mem_children ‹_›

section

variable (w : Query → Nat)

def weightOf : List Query → Nat
  | [] => 0
  | n :: path => w n + weightOf path

mutual

/-- The largest weight of a path of a query, where nodes have weights. -/
def heaviest : Query → Nat
  | all parts => w (all parts) + heaviestOfAll parts
  | any parts => w (any parts) + heaviestOfAll parts
  | negated q => w (negated q) + heaviest q
  | prohibited q => w (prohibited q) + heaviest q
  | required q => w (required q) + heaviest q
  | field name q => w (field name q) + heaviest q
  | group q => w (group q) + heaviest q
  | fieldGroup q => w (fieldGroup q) + heaviest q
  | boost q force => w (boost q force) + heaviest q
  | word value => w (word value)
  | phrase content => w (phrase content)
  | range r => w (range r)
  | fuzzy value degree => w (fuzzy value degree)
  | proximity content degree => w (proximity content degree)
  | regex pattern => w (regex pattern)

def heaviestOfAll : List Query → Nat
  | [] => 0
  | q :: qs => max (heaviest q) (heaviestOfAll qs)

end

variable {w}

theorem heaviest_eq (q : Query) : q.heaviest w = w q + heaviestOfAll w q.children := by
  cases q <;> simp [heaviest, heaviestOfAll, children]

theorem heaviestOfAll_le_iff {qs : List Query} {n : Nat} :
    heaviestOfAll w qs ≤ n ↔ ∀ q ∈ qs, q.heaviest w ≤ n := by
  induction qs with
  | nil => simp [heaviestOfAll]
  | cons q qs ih => rw [heaviestOfAll, Nat.max_le, ih, List.forall_mem_cons]

theorem exists_heaviestOfAll {qs : List Query} (h : qs ≠ []) :
    ∃ q ∈ qs, heaviestOfAll w qs = q.heaviest w := by
  induction qs with
  | nil => exact absurd rfl h
  | cons q qs ih =>
    by_cases hqs : qs = []
    · subst hqs
      exact ⟨q, List.mem_cons_self, by simp [heaviestOfAll]⟩
    · obtain ⟨p, hp, he⟩ := ih hqs
      rcases Nat.le_total (heaviestOfAll w qs) (q.heaviest w) with hle | hle
      · exact ⟨q, List.mem_cons_self, Nat.max_eq_left hle⟩
      · exact ⟨p, List.mem_cons_of_mem q hp, (Nat.max_eq_right hle).trans he⟩

theorem IsPath.weightOf_le {q : Query} {path : List Query} (h : q.IsPath path) :
    weightOf w path ≤ q.heaviest w := by
  induction h with
  | @leaf q hleaf => simp [weightOf, heaviest_eq, hleaf, heaviestOfAll]
  | @down q c path hc _ ih =>
    have hchild := heaviestOfAll_le_iff.1 (Nat.le_refl (heaviestOfAll w q.children)) c hc
    rw [heaviest_eq, weightOf]
    omega

/-- Some path has the largest weight. -/
theorem exists_isPath_weightOf (q : Query) :
    ∃ path, q.IsPath path ∧ weightOf w path = q.heaviest w := by
  induction q using children_induction with
  | h q ih =>
    by_cases hleaf : q.children = []
    · exact ⟨[q], .leaf hleaf, by simp [weightOf, heaviest_eq, hleaf, heaviestOfAll]⟩
    · obtain ⟨c, hc, he⟩ := exists_heaviestOfAll (w := w) hleaf
      obtain ⟨path, hpath, hweight⟩ := ih c hc
      exact ⟨q :: path, .down hc hpath, by rw [heaviest_eq, weightOf, hweight, he]⟩

end

/-- Groups and prefix operators, which share one limit. -/
def nests : Query → Bool
  | negated _ => true
  | prohibited _ => true
  | required _ => true
  | group _ => true
  | fieldGroup _ => true
  | _ => false

/-- The largest number of groups and prefix operators on a path. -/
def nesting (q : Query) : Nat := q.heaviest fun n => n.nests.toNat

/-- The largest number of nodes on a path. -/
def height (q : Query) : Nat := q.heaviest fun _ => 1

theorem weightOf_nests (path : List Query) :
    weightOf (fun n => n.nests.toNat) path = path.countP nests := by
  induction path with
  | nil => rfl
  | cons n path ih =>
    rw [weightOf, ih, List.countP_cons, Nat.add_comm]
    cases n.nests <;> rfl

theorem weightOf_one (path : List Query) : weightOf (fun _ => 1) path = path.length := by
  induction path with
  | nil => rfl
  | cons n path ih => rw [weightOf, ih, List.length_cons, Nat.add_comm]

theorem IsPath.countP_nests_le {q : Query} {path : List Query} (h : q.IsPath path) :
    path.countP nests ≤ q.nesting := by
  rw [← weightOf_nests]
  exact h.weightOf_le

theorem exists_isPath_countP_nests (q : Query) :
    ∃ path, q.IsPath path ∧ path.countP nests = q.nesting := by
  obtain ⟨path, hpath, hweight⟩ := exists_isPath_weightOf (w := fun n => n.nests.toNat) q
  exact ⟨path, hpath, by rw [← weightOf_nests, hweight, nesting]⟩

theorem nesting_le_of_paths {q : Query} {n : Nat}
    (h : ∀ path, q.IsPath path → path.countP nests ≤ n) : q.nesting ≤ n := by
  obtain ⟨path, hpath, hcount⟩ := exists_isPath_countP_nests q
  rw [← hcount]
  exact h path hpath

theorem IsPath.length_le {q : Query} {path : List Query} (h : q.IsPath path) :
    path.length ≤ q.height := by
  rw [← weightOf_one]
  exact h.weightOf_le

theorem nesting_eq (q : Query) :
    q.nesting = q.nests.toNat + heaviestOfAll (fun n => n.nests.toNat) q.children :=
  heaviest_eq q

theorem height_eq (q : Query) : q.height = 1 + heaviestOfAll (fun _ => 1) q.children :=
  heaviest_eq q

theorem nesting_le_iff {q : Query} {n : Nat} (h : q.nests = false) :
    q.nesting ≤ n ↔ ∀ c ∈ q.children, c.nesting ≤ n := by
  rw [nesting_eq, h, Bool.toNat_false, Nat.zero_add]
  exact heaviestOfAll_le_iff

theorem nesting_of_nests {q c : Query} (hchild : q.children = [c]) (h : q.nests = true) :
    q.nesting = c.nesting + 1 := by
  have hchildren : heaviestOfAll (fun n => n.nests.toNat) [c] = c.nesting := Nat.max_zero _
  rw [nesting_eq, hchild, h, Bool.toNat_true, hchildren, Nat.add_comm]

theorem height_le_succ_iff {q : Query} {n : Nat} :
    q.height ≤ n + 1 ↔ ∀ c ∈ q.children, c.height ≤ n := by
  rw [height_eq, Nat.add_comm, Nat.succ_le_succ_iff]
  exact heaviestOfAll_le_iff

end SampleSearch.Query
