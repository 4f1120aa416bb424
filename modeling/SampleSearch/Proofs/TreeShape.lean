import SampleSearch.Proofs.RecursionDepth
import SampleSearch.Proofs.RoundTrip

/-!
# Shape and depth of parsed trees

In the tree of a parsed query the parts of a conjunction or disjunction are at least two, and no
part could have been merged into it. Boosts stand around values and groups only, and parentheses
that are the value of a field are told apart from others. The number of groups and prefix
operators on a path has a limit, and so has the number of boosts in a row. Between two nodes that
nest there is at most a disjunction, a conjunction, a field and its boosts: with these limits no
tree is higher than 4420 nodes, and recursion over it goes no deeper.
-/

namespace SampleSearch.Query

def isSeries : Query → Bool
  | all _ => true
  | any _ => true
  | _ => false

def isAny : Query → Bool
  | any _ => true
  | _ => false

def isPrefixed : Query → Bool
  | negated _ => true
  | prohibited _ => true
  | required _ => true
  | _ => false

def isField : Query → Bool
  | field _ _ => true
  | _ => false

def isBoost : Query → Bool
  | boost _ _ => true
  | _ => false

def isGroup : Query → Bool
  | group _ => true
  | _ => false

def isFieldGroup : Query → Bool
  | fieldGroup _ => true
  | _ => false

/-- What may stand right below a node, and how many parts there are. -/
def IsRegular : Query → Prop
  | all parts => 2 ≤ parts.length ∧ ∀ p ∈ parts, p.isSeries = false
  | any parts => 2 ≤ parts.length ∧ ∀ p ∈ parts, p.isAny = false
  | negated q => q.isSeries = false
  | prohibited q => q.isSeries = false
  | required q => q.isSeries = false
  | boost q _ => q.isSeries = false ∧ q.isPrefixed = false ∧ q.isField = false
  | _ => True

/-- Whether nodes lead to the value of a field or into boosts of the value. -/
def LeadsToValue (before : List Query) : Prop :=
  ∃ outer name v boosts, before = outer ++ field name v :: boosts ∧
    ∀ b ∈ boosts, b.isBoost = true

/-- Whether a path has the shape of those of parsed queries. -/
structure IsShaped (path : List Query) : Prop where
  regular : ∀ n ∈ path, n.IsRegular
  fieldGroups : ∀ before q after, path = before ++ fieldGroup q :: after → LeadsToValue before
  groups : ∀ before q after, path = before ++ group q :: after → ¬ LeadsToValue before
  boosts : ∀ chain, chain <:+: path → (∀ b ∈ chain, b.isBoost = true) →
    chain.length ≤ maxNesting

/-- The number of boosts that stand directly in each other at the root. -/
def boosts : Query → Nat
  | boost q _ => boosts q + 1
  | _ => 0

/-- What a parsed query has at each of its nodes. -/
structure IsLocal (n : Query) : Prop where
  regular : n.IsRegular
  fieldGroups : ∀ c ∈ n.children, c.core.isFieldGroup = true → n.isField = true ∨ n.isBoost = true
  groups : n.isField = true → ∀ c ∈ n.children, c.core.isGroup = false
  boosts : n.boosts ≤ maxNesting

/-- Whether a property holds at all nodes of a tree. -/
def Throughout (R : Query → Prop) (q : Query) : Prop := ∀ path, q.IsPath path → ∀ n ∈ path, R n

theorem throughout_of_children {R : Query → Prop} {q : Query} (hq : R q)
    (h : ∀ c ∈ q.children, c.Throughout R) : q.Throughout R := by
  intro path hpath n hn
  cases hpath with
  | leaf _ =>
    obtain rfl := List.mem_singleton.1 hn
    exact hq
  | down hc hbelow =>
    rcases List.mem_cons.1 hn with rfl | hn
    · exact hq
    · exact h _ hc _ hbelow n hn

section

variable {q : Query}

theorem core_boost (q : Query) (f : Text) : (boost q f).core = q.core := rfl

/-- A field group on a path stands in the value of a field, or in boosts at the root. -/
theorem leadsToValue_of_isPath (h : q.Throughout IsLocal) {before : List Query} {g : Query}
    {after : List Query} (hpath : q.IsPath (before ++ fieldGroup g :: after)) :
    LeadsToValue before ∨
      (∀ b ∈ before, b.isBoost = true) ∧ q.core.isFieldGroup = true := by
  induction before generalizing q with
  | nil =>
    obtain ⟨rfl, -⟩ := isPath_cons_iff.1 hpath
    exact .inr ⟨by simp, rfl⟩
  | cons n before ih =>
    have hlocal := h _ hpath n (by simp)
    rw [List.cons_append, isPath_cons_iff] at hpath
    obtain ⟨rfl, ⟨hnil, -⟩ | ⟨c, hc, hbelow⟩⟩ := hpath
    · simp at hnil
    · have hthrough : c.Throughout IsLocal := fun path hp m hm =>
        h _ (.down hc hp) m (List.mem_cons_of_mem _ hm)
      rcases ih hthrough hbelow with ⟨outer, name, v, boosts, rfl, hboosts⟩ | ⟨hboosts, hcore⟩
      · exact .inl ⟨n :: outer, name, v, boosts, rfl, hboosts⟩
      · rcases hlocal.fieldGroups c hc hcore with hfield | hboost
        · cases n with
          | field name v => exact .inl ⟨[], name, v, before, rfl, hboosts⟩
          | _ => cases hfield
        · cases n with
          | boost v force =>
            obtain rfl := List.mem_singleton.1 hc
            exact .inr ⟨List.forall_mem_cons.2 ⟨rfl, hboosts⟩, hcore⟩
          | _ => cases hboost

theorem core_of_isPath {boosts : List Query} {n : Query} {after : List Query}
    (h : q.IsPath (boosts ++ n :: after)) (hboosts : ∀ b ∈ boosts, b.isBoost = true) :
    q.core = n.core := by
  induction boosts generalizing q with
  | nil =>
    obtain ⟨rfl, -⟩ := isPath_cons_iff.1 h
    rfl
  | cons b boosts ih =>
    obtain ⟨hb, hrest⟩ := List.forall_mem_cons.1 hboosts
    rw [List.cons_append, isPath_cons_iff] at h
    obtain ⟨rfl, ⟨hnil, -⟩ | ⟨c, hc, hbelow⟩⟩ := h
    · simp at hnil
    · cases b with
      | boost v force =>
        obtain rfl := List.mem_singleton.1 hc
        have hcore := ih hbelow hrest
        exact hcore
      | _ => cases hb

theorem length_le_boosts {chain after : List Query} (h : q.IsPath (chain ++ after))
    (hchain : ∀ b ∈ chain, b.isBoost = true) : chain.length ≤ q.boosts := by
  induction chain generalizing q with
  | nil => simp
  | cons b chain ih =>
    obtain ⟨hb, hrest⟩ := List.forall_mem_cons.1 hchain
    rw [List.cons_append, isPath_cons_iff] at h
    obtain ⟨rfl, hbelow⟩ := h
    cases b with
    | boost v force =>
      obtain ⟨-, hleaf⟩ | ⟨c, hc, hbelow⟩ := hbelow
      · cases hleaf
      · obtain rfl := List.mem_singleton.1 hc
        exact Nat.succ_le_succ (ih hbelow hrest)
    | _ => cases hb

/-- The shape of paths follows from what holds at the nodes. -/
theorem IsPath.isShaped {path : List Query} (hpath : q.IsPath path)
    (h : q.Throughout IsLocal) (hroot : q.core.isFieldGroup = false) : IsShaped path where
  regular n hn := (h path hpath n hn).regular
  fieldGroups before g after he := by
    subst he
    rcases leadsToValue_of_isPath h hpath with hleads | ⟨-, hcore⟩
    · exact hleads
    · rw [hroot] at hcore
      cases hcore
  groups before g after he := by
    rintro ⟨outer, name, v, boosts, rfl, hboosts⟩
    subst he
    have hlocal := h _ hpath (field name v) (by simp)
    rw [List.append_assoc, List.cons_append] at hpath
    obtain ⟨-, ⟨hnil, -⟩ | ⟨c, hc, hbelow⟩⟩ := isPath_cons_iff.1 hpath.behind
    · simp at hnil
    · have hgroup := hlocal.groups rfl c hc
      rw [core_of_isPath hbelow hboosts] at hgroup
      cases hgroup
  boosts chain hchain hboosts := by
    obtain ⟨before, after, rfl⟩ := hchain
    cases chain with
    | nil => simp
    | cons b chain =>
      have hlocal := h _ hpath b (by simp)
      rw [List.append_assoc, List.cons_append] at hpath
      exact Nat.le_trans (length_le_boosts hpath.behind hboosts) hlocal.boosts

end

section

variable {E : Text → Prop} {P : Query → Prop} {base : Query → Prop}

theorem isLocal_of_leaf {q : Query} (hleaf : q.children = []) (hregular : q.IsRegular)
    (hboosts : q.boosts = 0) : q.Throughout IsLocal := by
  refine throughout_of_children ⟨hregular, ?_, ?_, ?_⟩ ?_ <;> simp [hleaf, hboosts]

theorem isLocal_of_child {n c : Query} (hchild : n.children = [c]) (hregular : n.IsRegular)
    (hfield : n.isField = false) (hboosts : n.boosts = 0) (hc : c.Throughout IsLocal)
    (hcore : c.core.isFieldGroup = false) : n.Throughout IsLocal := by
  refine throughout_of_children ⟨hregular, ?_, ?_, ?_⟩ ?_ <;> simp_all

/-- What a modifier can stand behind. -/
structure IsBase (b : Query) : Prop where
  isLocal : b.Throughout IsLocal
  noSeries : b.isSeries = false
  noPrefix : b.isPrefixed = false
  noField : b.isField = false
  noBoost : b.boosts = 0

theorem IsLeaf.isBase {q : Query} (h : IsLeaf E q) : q.IsBase := by
  cases h <;> exact ⟨isLocal_of_leaf rfl trivial rfl, rfl, rfl, rfl, rfl⟩

theorem IsModified.boosts_eq (hbase : ∀ b, base b → b.boosts = 0) {n : Nat} {q : Query}
    (h : IsModified base n q) : q.boosts = n := by
  induction h with
  | plain hb => exact hbase _ hb
  | fuzzy _ _ => rfl
  | proximity _ _ => rfl
  | boost _ _ _ _ ih => exact congrArg (· + 1) ih

theorem IsModified.le_maxNesting {n : Nat} {q : Query} (h : IsModified base n q) :
    n ≤ maxNesting := by
  cases h with
  | boost _ hn _ _ => exact hn
  | _ => exact Nat.zero_le _

/-- Modifiers make of a base a tree that can stand in a further boost. -/
theorem IsModified.isLocal (hbase : ∀ b, base b → b.IsBase) {n : Nat} {q : Query}
    (h : IsModified base n q) :
    q.Throughout IsLocal ∧ q.isSeries = false ∧ q.isPrefixed = false ∧ q.isField = false := by
  have hle := h.le_maxNesting
  induction h with
  | plain hb =>
    have hb := hbase _ hb
    exact ⟨hb.isLocal, hb.noSeries, hb.noPrefix, hb.noField⟩
  | fuzzy _ _ => exact ⟨isLocal_of_leaf rfl trivial rfl, rfl, rfl, rfl⟩
  | proximity _ _ => exact ⟨isLocal_of_leaf rfl trivial rfl, rfl, rfl, rfl⟩
  | @boost n q f hq hn hne hf ih =>
    obtain ⟨hlocal, hseries, hprefix, hfield⟩ := ih (Nat.le_of_lt hn)
    refine ⟨throughout_of_children ⟨⟨hseries, hprefix, hfield⟩, ?_, ?_, ?_⟩ ?_, rfl, rfl, rfl⟩
    · exact fun _ _ _ => .inr rfl
    · rintro ⟨⟩
    · have hboosts := hq.boosts_eq fun b hb => (hbase b hb).noBoost
      rw [boosts, hboosts]
      exact hle
    · intro c hc
      obtain rfl := List.mem_singleton.1 hc
      exact hlocal

/-- What can be a part of a series or stand behind a prefix operator. -/
structure IsPart (q : Query) : Prop where
  isLocal : q.Throughout IsLocal
  noSeries : q.isSeries = false
  noFieldGroup : q.core.isFieldGroup = false

theorem IsSeparated.isLocal {combine : List Query → Query}
    (hcombine : combine = .all ∨ combine = .any)
    (hregular : ∀ parts, 2 ≤ parts.length → (∀ p ∈ parts, P p) → (combine parts).IsRegular)
    (hP : ∀ q, P q → q.Throughout IsLocal ∧ q.core.isFieldGroup = false) {q : Query}
    (h : IsSeparated P combine q) : q.Throughout IsLocal ∧ q.core.isFieldGroup = false := by
  rcases h with hq | ⟨parts, hlen, hparts, rfl⟩
  · exact hP q hq
  · have hreg := hregular parts hlen hparts
    have hlocal : ∀ p ∈ parts, p.Throughout IsLocal := fun p hp => (hP p (hparts p hp)).1
    have hcore : ∀ p ∈ parts, p.core.isFieldGroup = false := fun p hp => (hP p (hparts p hp)).2
    rcases hcombine with rfl | rfl
    · exact ⟨throughout_of_children ⟨hreg, by simp_all [children], by simp [isField],
        Nat.zero_le _⟩ hlocal, rfl⟩
    · exact ⟨throughout_of_children ⟨hreg, by simp_all [children], by simp [isField],
        Nat.zero_le _⟩ hlocal, rfl⟩

theorem isAny_of_isSeries {q : Query} (h : q.isSeries = false) : q.isAny = false := by
  cases q with
  | any parts => cases h
  | _ => rfl

theorem IsDisjunction.isLocal (hP : ∀ q, P q → q.IsPart) {q : Query} (h : IsDisjunction P q) :
    q.Throughout IsLocal ∧ q.core.isFieldGroup = false := by
  refine IsSeparated.isLocal (.inr rfl) (fun parts hlen hparts => ⟨hlen, fun p hp => ?_⟩)
    (fun _ => IsSeparated.isLocal (.inl rfl) (fun parts hlen hparts => ⟨hlen, fun p hp => ?_⟩)
      fun q hq => ⟨(hP q hq).isLocal, (hP q hq).noFieldGroup⟩) h
  · rcases hparts p hp with hpart | ⟨_, _, _, rfl⟩
    · exact isAny_of_isSeries (hP p hpart).noSeries
    · rfl
  · exact (hP p (hparts p hp)).noSeries

theorem IsValue.isBase (hP : ∀ q, P q → q.IsPart) {q : Query} (h : IsValue E P q) :
    q.IsBase := by
  cases h with
  | leaf hleaf => exact hleaf.isBase
  | fieldGroup hgroup =>
    obtain ⟨hlocal, hcore⟩ := hgroup.isLocal hP
    exact ⟨isLocal_of_child rfl trivial rfl rfl hlocal hcore, rfl, rfl, rfl, rfl⟩

theorem IsAtom.isBase (hP : ∀ q, P q → q.IsPart) {q : Query} (h : IsAtom E P q) :
    q.IsBase := by
  cases h with
  | leaf hleaf _ => exact hleaf.isBase
  | group hgroup =>
    obtain ⟨hlocal, hcore⟩ := hgroup.isLocal hP
    exact ⟨isLocal_of_child rfl trivial rfl rfl hlocal hcore, rfl, rfl, rfl, rfl⟩

theorem isGroup_of_isValue {q : Query} (h : IsValue E P q) : q.isGroup = false := by
  cases h with
  | leaf hleaf => cases hleaf <;> rfl
  | fieldGroup => rfl

theorem isFieldGroup_of_isAtom {q : Query} (h : IsAtom E P q) : q.isFieldGroup = false := by
  cases h with
  | leaf hleaf _ => cases hleaf <;> rfl
  | group => rfl

theorem IsOperandWith.isPart (hP : ∀ q, P q → q.IsPart) {q : Query} (h : IsOperandWith E P q) :
    q.IsPart := by
  cases h with
  | prefixed hwrap hq =>
    obtain ⟨hlocal, hseries, hcore⟩ := hP _ hq
    rcases mem_prefixOperators.1 hwrap with rfl | rfl | rfl <;>
      exact ⟨isLocal_of_child rfl hseries rfl rfl hlocal hcore, rfl, rfl⟩
  | field hfield =>
    obtain ⟨-, -, hv⟩ := hfield
    obtain ⟨hlocal, -⟩ := hv.isLocal fun _ hb => hb.isBase hP
    obtain ⟨_, hvalue, -⟩ := hv.exists_base fun _ hb => hb.core
    have hgroup := isGroup_of_isValue hvalue
    refine ⟨throughout_of_children ⟨trivial, ?_, ?_, Nat.zero_le _⟩ ?_, rfl, rfl⟩ <;>
      simp_all [children, isField]
  | modified hmod =>
    obtain ⟨hlocal, hseries, -⟩ := hmod.isLocal fun _ hb => hb.isBase hP
    obtain ⟨_, hatom, -⟩ := hmod.exists_base fun _ hb => hb.core
    exact ⟨hlocal, hseries, isFieldGroup_of_isAtom hatom⟩

theorem IsOperand.isPart {depth : Nat} {q : Query} (h : IsOperand E depth q) : q.IsPart := by
  induction depth generalizing q with
  | zero => exact IsOperandWith.isPart (by simp) h
  | succ depth ih => exact IsOperandWith.isPart (fun _ hq => ih hq) h

theorem nesting_core (q : Query) : q.core.nesting = q.nesting := by
  induction q using children_induction with
  | h q ih =>
    cases q with
    | boost v f =>
      rw [core_boost, ih v List.mem_cons_self, nesting_eq (boost v f)]
      simp [children, heaviestOfAll, nests, nesting]
    | _ => rfl

theorem IsModified.height_le (hcore : ∀ b, base b → b.core = b) {n : Nat} {q : Query}
    (h : IsModified base n q) : q.height ≤ q.core.height + n := by
  induction h with
  | plain hb =>
    rw [hcore _ hb]
    exact Nat.le_refl _
  | fuzzy _ _ => exact Nat.le_refl _
  | proximity _ _ => exact Nat.le_refl _
  | boost _ _ _ _ ih =>
    refine height_le_succ_iff.2 fun c hc => ?_
    obtain rfl := List.mem_singleton.1 hc
    exact ih

/-- How deep a tree nests and how high it is. -/
structure IsBounded (depth high : Nat) (q : Query) : Prop where
  nesting_le : q.nesting ≤ depth
  height_le : q.height ≤ high

variable {depth high : Nat}

theorem IsSeparated.isBounded {combine : List Query → Query}
    (hcombine : combine = .all ∨ combine = .any)
    (hP : ∀ q, P q → q.IsBounded depth high) {q : Query} (h : IsSeparated P combine q) :
    q.IsBounded depth (high + 1) := by
  rcases h with hq | ⟨parts, -, hparts, rfl⟩
  · exact ⟨(hP q hq).nesting_le, Nat.le_succ_of_le (hP q hq).height_le⟩
  · have hchildren : (combine parts).children = parts := by rcases hcombine with rfl | rfl <;> rfl
    have hnests : (combine parts).nests = false := by rcases hcombine with rfl | rfl <;> rfl
    rw [← hchildren] at hparts
    exact ⟨(nesting_le_iff hnests).2 fun c hc => (hP c (hparts c hc)).nesting_le,
      height_le_succ_iff.2 fun c hc => (hP c (hparts c hc)).height_le⟩

theorem IsDisjunction.isBounded (hP : ∀ q, P q → q.IsBounded depth high) {q : Query}
    (h : IsDisjunction P q) : q.IsBounded depth (high + 2) :=
  IsSeparated.isBounded (.inr rfl) (fun _ => IsSeparated.isBounded (.inl rfl) hP) h

theorem IsLeaf.isBounded {q : Query} (h : IsLeaf E q) : q.IsBounded 0 1 := by
  cases h <;> exact ⟨Nat.le_refl _, Nat.le_refl _⟩

theorem isBounded_of_nests {n c : Query} (hchild : n.children = [c]) (hnests : n.nests = true)
    (hnesting : c.nesting < depth) (hheight : c.height ≤ high) : n.IsBounded depth (high + 1) := by
  constructor
  · rw [nesting_of_nests hchild hnests]
    exact hnesting
  · refine height_le_succ_iff.2 fun p hp => ?_
    rw [hchild] at hp
    obtain rfl := List.mem_singleton.1 hp
    exact hheight

section

variable (hinner : ∀ q, IsDisjunction P q → q.nesting < depth ∧ q.height ≤ high)

include hinner

theorem IsValue.isBounded {q : Query} (h : IsValue E P q) : q.IsBounded depth (high + 1) := by
  cases h with
  | leaf hleaf =>
    obtain ⟨hnesting, hheight⟩ := hleaf.isBounded
    exact ⟨Nat.le_trans hnesting (Nat.zero_le _), Nat.le_trans hheight (Nat.le_add_left 1 high)⟩
  | fieldGroup hgroup =>
    obtain ⟨hnesting, hheight⟩ := hinner _ hgroup
    exact isBounded_of_nests rfl rfl hnesting hheight

theorem IsAtom.isBounded {q : Query} (h : IsAtom E P q) : q.IsBounded depth (high + 1) := by
  cases h with
  | leaf hleaf _ => exact IsValue.isBounded hinner (.leaf hleaf)
  | group hgroup =>
    obtain ⟨hnesting, hheight⟩ := hinner _ hgroup
    exact isBounded_of_nests rfl rfl hnesting hheight

omit hinner in
theorem IsModified.isBounded (hbase : ∀ b, base b → b.core = b ∧ b.IsBounded depth (high + 1))
    {n : Nat} {q : Query} (h : IsModified base n q) :
    q.IsBounded depth (high + 1 + maxNesting) := by
  have hcore : ∀ b, base b → b.core = b := fun b hb => (hbase b hb).1
  obtain ⟨_, hb, -⟩ := h.exists_base hcore
  obtain ⟨hnesting, hheight⟩ := (hbase _ hb).2
  have hmodified := h.height_le hcore
  have hn := h.le_maxNesting
  rw [nesting_core] at hnesting
  exact ⟨hnesting, by omega⟩

/-- Above what stands in parentheses an operand has a field, its boosts and the group at most. -/
theorem IsOperandWith.isBounded {q : Query} (h : IsOperandWith E P q) :
    q.IsBounded depth (high + 2 + maxNesting) := by
  cases h with
  | @prefixed wrap q hwrap hq =>
    obtain ⟨hnesting, hheight⟩ := hinner _ (.inl (.inl hq))
    have hbounded : (wrap q).IsBounded depth (high + 1) := by
      rcases mem_prefixOperators.1 hwrap with rfl | rfl | rfl <;>
        exact isBounded_of_nests rfl rfl hnesting hheight
    exact ⟨hbounded.nesting_le, Nat.le_trans hbounded.height_le (by omega)⟩
  | field hfield =>
    obtain ⟨-, -, hv⟩ := hfield
    obtain ⟨hnesting, hheight⟩ := hv.isBounded fun _ hb => ⟨hb.core, hb.isBounded hinner⟩
    rw [show high + 2 + maxNesting = high + 1 + maxNesting + 1 by omega]
    refine ⟨(nesting_le_iff rfl).2 fun c hc => ?_, height_le_succ_iff.2 fun c hc => ?_⟩
    · obtain rfl := List.mem_singleton.1 hc
      exact hnesting
    · obtain rfl := List.mem_singleton.1 hc
      exact hheight
  | modified hmod =>
    obtain ⟨hnesting, hheight⟩ := hmod.isBounded fun _ hb => ⟨hb.core, hb.isBounded hinner⟩
    exact ⟨hnesting, Nat.le_trans hheight (by omega)⟩

end

theorem IsOperand.isBounded {depth : Nat} {q : Query} (h : IsOperand E depth q) :
    q.IsBounded depth ((maxNesting + 4) * depth + (maxNesting + 2)) := by
  induction depth generalizing q with
  | zero =>
    have hnone : ∀ q, IsDisjunction (fun _ => False) q → q.nesting < 0 ∧ q.height ≤ 0 := by
      intro q hq
      obtain ⟨p, hp⟩ := hq.exists_part
      obtain ⟨_, hfalse⟩ := hp.exists_part
      exact hfalse.elim
    have hbounded := IsOperandWith.isBounded hnone h
    exact ⟨hbounded.nesting_le, Nat.le_trans hbounded.height_le (by omega)⟩
  | succ depth ih =>
    have hinner : ∀ q, IsDisjunction (IsOperand E depth) q → q.nesting < depth + 1 ∧
        q.height ≤ (maxNesting + 4) * depth + (maxNesting + 2) + 2 := fun q hq => by
      obtain ⟨hnesting, hheight⟩ := hq.isBounded fun _ hp => ih hp
      exact ⟨Nat.lt_succ_of_le hnesting, hheight⟩
    have hbounded := IsOperandWith.isBounded hinner h
    exact ⟨hbounded.nesting_le, Nat.le_trans hbounded.height_le (by rw [Nat.mul_succ]; omega)⟩

end

/-- The tree of every query has the shape of parsed trees on all of its paths. No path has more than
64 groups and prefix operators or 4420 nodes, so printing and compiling are done within this depth
of recursion. -/
theorem shape_of_parse {s : Text} {q : Query} (h : parse s = .ok q) :
    (∀ path, q.IsPath path →
        IsShaped path ∧ path.countP nests ≤ maxNesting ∧ path.length ≤ 4420) ∧
      textWithin 4420 q = some q.text ∧
      ∀ d v b, compileWithin d v 4420 none b q = (q.compile d v b).mapError some := by
  have htree := isDisjunction_of_parseWith yields_anyEnd h
  obtain ⟨hlocal, hcore⟩ := htree.isLocal fun _ hp => IsOperand.isPart hp
  obtain ⟨hnesting, hheight⟩ := htree.isBounded fun _ hp => IsOperand.isBounded hp
  have hheight : q.height ≤ 4420 := hheight
  refine ⟨fun path hpath => ⟨hpath.isShaped hlocal hcore, ?_, ?_⟩,
    textWithin_of_height_le hheight, fun d v b => compileWithin_of_height_le hheight none b⟩
  · exact Nat.le_trans hpath.countP_nests_le hnesting
  · exact Nat.le_trans hpath.length_le hheight

def wordsInGroup : Query :=
  .any [.boost (.word "b".toList) "2".toList, .prohibited (.word "c".toList)]

def boostedGroup : Query := .boost (.fieldGroup wordsInGroup) "3".toList

/-- A field whose value is a boosted group, beside a group behind a prefix operator. -/
def groupedValue : Query :=
  .all [.field "a".toList boostedGroup, .negated (.group (.word "d".toList))]

/-- The path to the word behind a prefix operator in the field. -/
def groupedPath : List Query :=
  [groupedValue, .field "a".toList boostedGroup, boostedGroup, .fieldGroup wordsInGroup,
    wordsInGroup, .prohibited (.word "c".toList), .word "c".toList]

theorem isPath_groupedPath : groupedValue.IsPath groupedPath :=
  .down List.mem_cons_self <| .down List.mem_cons_self <| .down List.mem_cons_self <|
    .down List.mem_cons_self <| .down (List.mem_cons_of_mem _ List.mem_cons_self) <|
    .down List.mem_cons_self <| .leaf rfl

theorem shape_of_parse_groupedValue :
    parse "a:(b^2 OR -c)^3 !(d)".toList = .ok groupedValue ∧
      groupedValue.IsPath groupedPath ∧ IsShaped groupedPath ∧
      groupedPath.countP nests = 2 ∧ groupedPath.countP nests ≤ maxNesting ∧
      groupedPath.length = 7 ∧ groupedPath.length ≤ 4420 ∧
      textWithin 4420 groupedValue = some groupedValue.text := by
  have hparse : parse "a:(b^2 OR -c)^3 !(d)".toList = .ok groupedValue :=
    eq_ok_of_toOption (by decide +kernel)
  obtain ⟨hpaths, htext, -⟩ := shape_of_parse hparse
  obtain ⟨hshaped, hnesting, hlength⟩ := hpaths groupedPath isPath_groupedPath
  exact ⟨hparse, isPath_groupedPath, hshaped, rfl, hnesting, rfl, hlength, htext⟩

end SampleSearch.Query
