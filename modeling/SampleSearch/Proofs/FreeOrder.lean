import Mathlib.Data.Fin.VecNotation
import Mathlib.Data.List.FinRange
import Mathlib.Data.List.Perm.Basic
import SampleSearch.Proofs.FieldTargets
import SampleSearch.Proofs.PointRanges

/-!
# The order of operands

A query is walked from left to right, and a field may bind the kind for those behind it. If every
path in a query names a kind or a field of all kinds, though, the order of operands does not matter:
all paths lead to the same places whatever is bound, and binding one kind after the other gives the
same result in any order. So a query is compiled if it is compiled in another order, to a condition
whose parts are in that order, and both conditions have the same truth.
-/

namespace SampleSearch

/-- How the parts of a tree are put into another order: those of a conjunction or disjunction are
permuted, after each of them has been rearranged by itself. -/
inductive Rearrangement
  | keep
  | inside (inner : Rearrangement)
  | parts (n : Nat) (order : Equiv.Perm (Fin n)) (inner : Fin n → Rearrangement)

instance : LeftCommutative Truth.both where
  left_comm a b c := by cases a <;> cases b <;> cases c <;> rfl

instance : LeftCommutative Truth.either where
  left_comm a b c := by cases a <;> cases b <;> cases c <;> rfl

namespace Condition

/-- Whether a condition becomes another one by a rearrangement. -/
inductive Rearranged : Rearrangement → Condition → Condition → Prop
  | keep (c : Condition) : Rearranged .keep c c
  | negated {r c e} : Rearranged r c e → Rearranged (.inside r) (.negated c) (.negated e)
  | all {n order inner} {cs es : Fin n → Condition} : (∀ i, Rearranged (inner i) (cs i) (es i)) →
      Rearranged (.parts n order inner) (.all (List.ofFn cs)) (.all (List.ofFn (es ∘ order)))
  | any {n order inner} {cs es : Fin n → Condition} : (∀ i, Rearranged (inner i) (cs i) (es i)) →
      Rearranged (.parts n order inner) (.any (List.ofFn cs)) (.any (List.ofFn (es ∘ order)))

theorem foldr_rearranged {α β : Type} {op : α → β → β} [LeftCommutative op] {n : Nat}
    (order : Equiv.Perm (Fin n)) {f : Condition → α} {cs es : Fin n → Condition}
    (h : ∀ i, f (cs i) = f (es i)) (b : β) :
    ((List.ofFn (es ∘ order)).map f).foldr op b = ((List.ofFn cs).map f).foldr op b := by
  have hsame : f ∘ cs = f ∘ es := funext h
  rw [((order.ofFn_comp_perm es).map f).foldr_eq, List.map_ofFn, List.map_ofFn, hsame]

variable {db : Database} {s : Scope}

theorem truthOfAll_eq_foldr (cs : List Condition) :
    truthOfAll db s cs = (cs.map (truth db s)).foldr Truth.both .yes := by
  induction cs with
  | nil => rfl
  | cons c cs ih => rw [truthOfAll, ih, List.map_cons, List.foldr_cons]

theorem truthOfAny_eq_foldr (cs : List Condition) :
    truthOfAny db s cs = (cs.map (truth db s)).foldr Truth.either .no := by
  induction cs with
  | nil => rfl
  | cons c cs ih => rw [truthOfAny, ih, List.map_cons, List.foldr_cons]

theorem allReadable_eq_foldr (cs : List Condition) :
    allReadable db s cs = (cs.map (isReadable db s)).foldr and true := by
  induction cs with
  | nil => rfl
  | cons c cs ih => rw [allReadable, ih, List.map_cons, List.foldr_cons]

theorem allReadable_rearranged {n : Nat} (order : Equiv.Perm (Fin n)) {cs es : Fin n → Condition}
    (h : ∀ i, (cs i).isReadable db s = (es i).isReadable db s) :
    allReadable db s (List.ofFn cs) = allReadable db s (List.ofFn (es ∘ order)) := by
  rw [allReadable_eq_foldr, allReadable_eq_foldr, foldr_rearranged order h]

theorem Rearranged.meansSame {r : Rearrangement} {c e : Condition} (h : Rearranged r c e) :
    c.MeansSame e := by
  induction h with
  | keep c => exact .refl c
  | negated _ ih =>
    exact ⟨fun db s => by rw [isReadable, isReadable, ih.isReadable],
      fun db s => by rw [truth, truth, ih.truth]⟩
  | @all n order inner cs es _ ih =>
    constructor
    · intro db s
      rw [isReadable, isReadable, allReadable_rearranged order fun i => (ih i).isReadable db s]
    · intro db s
      rw [truth, truth, truthOfAll_eq_foldr, truthOfAll_eq_foldr,
        foldr_rearranged order fun i => (ih i).truth db s]
  | @any n order inner cs es _ ih =>
    constructor
    · intro db s
      rw [isReadable, isReadable, allReadable_rearranged order fun i => (ih i).isReadable db s]
    · intro db s
      rw [truth, truth, truthOfAny_eq_foldr, truthOfAny_eq_foldr,
        foldr_rearranged order fun i => (ih i).truth db s]

end Condition

theorem Kind.toOption_bind_comm (b : Binding) (j k : Kind) :
    ((bind b j).toOption.bind fun b' => (bind b' k).toOption) =
      (bind b k).toOption.bind fun b' => (bind b' j).toOption := by
  cases b with
  | none => cases j <;> cases k <;> rfl
  | some i => cases i <;> cases j <;> cases k <;> rfl

namespace ResolvedField

/-- Binds a query by the kinds that paths name, one after the other. -/
def bindAll? (b : Binding) : List Text → Option Binding
  | [] => some b
  | name :: names => (Kind.bind b (namedKind name)).toOption.bind fun b' => bindAll? b' names

theorem bindAll?_append (b : Binding) (names others : List Text) :
    bindAll? b (names ++ others) = (bindAll? b names).bind fun b' => bindAll? b' others := by
  induction names generalizing b with
  | nil => rfl
  | cons name names ih =>
    rw [List.cons_append, bindAll?, bindAll?, Option.bind_assoc]
    simp only [ih]

theorem bindAll?_perm {names others : List Text} (h : names.Perm others) (b : Binding) :
    bindAll? b names = bindAll? b others := by
  induction h generalizing b with
  | nil => rfl
  | cons name _ ih => simp only [bindAll?, ih]
  | swap name other names =>
    simp only [bindAll?, ← Option.bind_assoc]
    rw [Kind.toOption_bind_comm]
  | trans _ _ ih ih' => rw [ih, ih']

end ResolvedField

namespace Query

/-- Whether a query becomes another one by a rearrangement. Groups and fields do not count as
parts, because nothing stands for them in the condition. -/
inductive Rearranged : Rearrangement → Query → Query → Prop
  | keep (q : Query) : Rearranged .keep q q
  | negated {r p q} : Rearranged r p q → Rearranged (.inside r) (.negated p) (.negated q)
  | prohibited {r p q} : Rearranged r p q → Rearranged (.inside r) (.prohibited p) (.prohibited q)
  | required {r p q} : Rearranged r p q → Rearranged r (.required p) (.required q)
  | group {r p q} : Rearranged r p q → Rearranged r (.group p) (.group q)
  | fieldGroup {r p q} : Rearranged r p q → Rearranged r (.fieldGroup p) (.fieldGroup q)
  | boost {r p q} (force) : Rearranged r p q → Rearranged r (.boost p force) (.boost q force)
  | field {r p q} (name) : Rearranged r p q → Rearranged r (.field name p) (.field name q)
  | all {n order inner} {ps qs : Fin n → Query} : (∀ i, Rearranged (inner i) (ps i) (qs i)) →
      Rearranged (.parts n order inner) (.all (List.ofFn ps)) (.all (List.ofFn (qs ∘ order)))
  | any {n order inner} {ps qs : Fin n → Query} : (∀ i, Rearranged (inner i) (ps i) (qs i)) →
      Rearranged (.parts n order inner) (.any (List.ofFn ps)) (.any (List.ofFn (qs ∘ order)))

theorem exists_undone {n : Nat} {ps qs : Fin n → Query} (order : Equiv.Perm (Fin n))
    (h : ∀ i, ∃ r, Rearranged r (qs i) (ps i)) :
    ∃ (inner : Fin n → Rearrangement) (ps' : Fin n → Query),
      (∀ i, Rearranged (inner i) ((qs ∘ order) i) (ps' i)) ∧ ps' ∘ order.symm = ps := by
  obtain ⟨inner, hinner⟩ := Classical.skolem.1 h
  refine ⟨inner ∘ order, ps ∘ order, fun i => hinner (order i), ?_⟩
  rw [Function.comp_assoc, Equiv.self_comp_symm, Function.comp_id]

/-- A rearrangement can be undone. -/
theorem Rearranged.undo {r : Rearrangement} {p q : Query} (h : Rearranged r p q) :
    ∃ r', Rearranged r' q p := by
  induction h with
  | keep q => exact ⟨_, .keep q⟩
  | negated _ ih => exact ih.elim fun _ h => ⟨_, .negated h⟩
  | prohibited _ ih => exact ih.elim fun _ h => ⟨_, .prohibited h⟩
  | required _ ih => exact ih.elim fun _ h => ⟨_, .required h⟩
  | group _ ih => exact ih.elim fun _ h => ⟨_, .group h⟩
  | fieldGroup _ ih => exact ih.elim fun _ h => ⟨_, .fieldGroup h⟩
  | boost force _ ih => exact ih.elim fun _ h => ⟨_, .boost force h⟩
  | field name _ ih => exact ih.elim fun _ h => ⟨_, .field name h⟩
  | @all n order inner ps qs _ ih =>
    obtain ⟨undone, ps', hparts, rfl⟩ := exists_undone order ih
    exact ⟨_, .all hparts⟩
  | @any n order inner ps qs _ ih =>
    obtain ⟨undone, ps', hparts, rfl⟩ := exists_undone order ih
    exact ⟨_, .any hparts⟩

theorem fieldNamesOfAll_eq_flatMap (qs : List Query) :
    fieldNamesOfAll qs = qs.flatMap fieldNames := by
  induction qs with
  | nil => rfl
  | cons q qs ih => rw [fieldNamesOfAll, ih, List.flatMap_cons]

theorem fieldNamesOfAll_perm {n : Nat} {ps qs : Fin n → Query} (order : Equiv.Perm (Fin n))
    (h : ∀ i, (fieldNames (ps i)).Perm (fieldNames (qs i))) :
    (fieldNamesOfAll (List.ofFn ps)).Perm (fieldNamesOfAll (List.ofFn (qs ∘ order))) := by
  have hparts : (fieldNamesOfAll (List.ofFn ps)).Perm (fieldNamesOfAll (List.ofFn qs)) := by
    simp only [fieldNamesOfAll_eq_flatMap, List.ofFn_eq_map, List.flatMap_map]
    exact List.Perm.flatMap_left _ fun i _ => h i
  refine hparts.trans ?_
  simp only [fieldNamesOfAll_eq_flatMap]
  exact (order.ofFn_comp_perm qs).symm.flatMap_right _

theorem Rearranged.fieldNames_perm {r : Rearrangement} {p q : Query} (h : Rearranged r p q) :
    p.fieldNames.Perm q.fieldNames := by
  induction h with
  | keep q => exact .refl _
  | negated _ ih => simpa only [fieldNames] using ih
  | prohibited _ ih => simpa only [fieldNames] using ih
  | required _ ih => simpa only [fieldNames] using ih
  | group _ ih => simpa only [fieldNames] using ih
  | fieldGroup _ ih => simpa only [fieldNames] using ih
  | boost force _ ih => simpa only [fieldNames] using ih
  | field name _ ih => simpa only [fieldNames] using ih.cons name
  | @all n order inner ps qs _ ih => simpa only [fieldNames] using fieldNamesOfAll_perm order ih
  | @any n order inner ps qs _ ih => simpa only [fieldNames] using fieldNamesOfAll_perm order ih

variable {d : Directory} {v : Viewer}

mutual

/-- The condition of a query as far as kinds do not matter: every path is resolved with nothing
bound. -/
def freeCondition (d : Directory) (v : Viewer) (field : Option ResolvedField) :
    Query → Option Condition
  | all parts => (freeConditions d v field parts).map .all
  | any parts => (freeConditions d v field parts).map .any
  | negated q => (freeCondition d v field q).map .negated
  | prohibited q => (freeCondition d v field q).map .negated
  | group q => freeCondition d v field q
  | fieldGroup q => freeCondition d v field q
  | .field name q =>
    (ResolvedField.resolve name none).toOption.bind fun f => freeCondition d v (some f) q
  | word value => (leafCondition d v field (.term value)).toOption
  | phrase content => (leafCondition d v field (.term content)).toOption
  | range r => (leafCondition d v field (.range r)).toOption
  | _ => none

def freeConditions (d : Directory) (v : Viewer) (field : Option ResolvedField) :
    List Query → Option (List Condition)
  | [] => some []
  | q :: qs =>
    (freeCondition d v field q).bind fun c => (freeConditions d v field qs).map fun cs => c :: cs

end

theorem toOption_value_free {f g : Option ResolvedField}
    (hfg : f.map ResolvedField.target = g.map ResolvedField.target) (b : Binding) (leaf : Leaf) :
    (do .ok (← leafCondition d v f leaf, b)).toOption =
      (leafCondition d v g leaf).toOption.bind fun c =>
        (ResolvedField.bindAll? b []).map fun e => (c, e) := by
  rw [toOption_bind, toOption_leafCondition hfg]
  rfl

/-- A path that names a kind or a field of all kinds is resolved under a binding as it is without
one, and binds what it names. -/
theorem toOption_resolve_free {name : Text} (hfree : ResolvedField.IsFree name) (b : Binding) :
    (∃ f g, ResolvedField.resolve name none = .ok f ∧ ResolvedField.resolve name b = .ok g ∧
        g.target = f.target ∧ Kind.bind b g.kind = Kind.bind b (ResolvedField.namedKind name)) ∨
      (ResolvedField.resolve name none).toOption = none ∧
        (ResolvedField.resolve name b).toOption = none := by
  cases hnone : ResolvedField.resolve name none with
  | ok f =>
    obtain ⟨g, hg, htarget⟩ := hfree.exists_resolve hnone b
    exact .inl ⟨f, g, rfl, hg, htarget, ResolvedField.bind_kind_of_resolve hg⟩
  | error x =>
    refine .inr ⟨rfl, ?_⟩
    cases hb : ResolvedField.resolve name b with
    | error y => rfl
    | ok g =>
      obtain ⟨f, hf, -⟩ := hfree.exists_resolve hb none
      rw [hnone] at hf
      cases hf

mutual

/-- A query in which all paths name a kind or a field of all kinds is compiled if its values have
conditions and its kinds go together, whatever their order. -/
theorem toOption_compileIn_free {f g : Option ResolvedField}
    (hfg : f.map ResolvedField.target = g.map ResolvedField.target) {q : Query}
    (hfree : ∀ name ∈ q.fieldNames, ResolvedField.IsFree name) (b : Binding) :
    (compileIn d v f b q).toOption = (freeCondition d v g q).bind fun c =>
      (ResolvedField.bindAll? b q.fieldNames).map fun e => (c, e) := by
  cases q with
  | all parts =>
    rw [fieldNames] at hfree ⊢
    rw [compileIn, toOption_bind, toOption_compileParts_free hfg hfree, freeCondition]
    cases freeConditions d v g parts with
    | none => rfl
    | some cs => cases ResolvedField.bindAll? b (fieldNamesOfAll parts) <;> rfl
  | any parts =>
    rw [fieldNames] at hfree ⊢
    rw [compileIn, toOption_bind, toOption_compileParts_free hfg hfree, freeCondition]
    cases freeConditions d v g parts with
    | none => rfl
    | some cs => cases ResolvedField.bindAll? b (fieldNamesOfAll parts) <;> rfl
  | negated q =>
    rw [fieldNames] at hfree ⊢
    rw [compileIn, toOption_bind, toOption_compileIn_free hfg hfree, freeCondition]
    cases freeCondition d v g q with
    | none => rfl
    | some c => cases ResolvedField.bindAll? b q.fieldNames <;> rfl
  | prohibited q =>
    rw [fieldNames] at hfree ⊢
    rw [compileIn, toOption_bind, toOption_compileIn_free hfg hfree, freeCondition]
    cases freeCondition d v g q with
    | none => rfl
    | some c => cases ResolvedField.bindAll? b q.fieldNames <;> rfl
  | group q =>
    rw [fieldNames] at hfree ⊢
    rw [compileIn, freeCondition]
    exact toOption_compileIn_free hfg hfree b
  | fieldGroup q =>
    rw [fieldNames] at hfree ⊢
    rw [compileIn, freeCondition]
    exact toOption_compileIn_free hfg hfree b
  | field name q =>
    rw [fieldNames, List.forall_mem_cons] at hfree
    rw [compileIn, toOption_bind, freeCondition, fieldNames, ResolvedField.bindAll?]
    rcases toOption_resolve_free hfree.1 b with ⟨f', g', hf', hg', htarget, hbind⟩ | ⟨hf', hg'⟩
    · rw [hf', hg']
      have hrest : ∀ e, (compileIn d v (some g') e q).toOption =
          (freeCondition d v (some f') q).bind fun c =>
            (ResolvedField.bindAll? e q.fieldNames).map fun e => (c, e) :=
        toOption_compileIn_free (by simp [htarget]) hfree.2
      change (Kind.bind b g'.kind >>= fun e => compileIn d v (some g') e q).toOption = _
      rw [toOption_bind, hbind]
      cases (Kind.bind b (ResolvedField.namedKind name)).toOption with
      | none => exact (Option.bind_fun_none _).symm
      | some e => exact hrest e
    · rw [hf', hg']
      rfl
  | word value => exact toOption_value_free hfg b _
  | phrase content => exact toOption_value_free hfg b _
  | range r => exact toOption_value_free hfg b _
  | required q => rfl
  | fuzzy value degree => rfl
  | proximity content degree => rfl
  | boost q force => rfl
  | regex pattern => rfl

theorem toOption_compileParts_free {f g : Option ResolvedField}
    (hfg : f.map ResolvedField.target = g.map ResolvedField.target) {qs : List Query}
    (hfree : ∀ name ∈ fieldNamesOfAll qs, ResolvedField.IsFree name) (b : Binding) :
    (compileParts d v f b qs).toOption = (freeConditions d v g qs).bind fun cs =>
      (ResolvedField.bindAll? b (fieldNamesOfAll qs)).map fun e => (cs, e) := by
  cases qs with
  | nil => rfl
  | cons q qs =>
    rw [fieldNamesOfAll, List.forall_mem_append] at hfree
    have hrest := toOption_compileParts_free hfg hfree.2
    rw [compileParts, toOption_bind, toOption_compileIn_free hfg hfree.1, freeConditions,
      fieldNamesOfAll, ResolvedField.bindAll?_append]
    cases freeCondition d v g q with
    | none => rfl
    | some c =>
      cases ResolvedField.bindAll? b q.fieldNames with
      | none => exact (Option.bind_fun_none _).symm
      | some e =>
        change (compileParts d v f e qs >>= fun r => .ok (c :: r.1, r.2)).toOption = _
        rw [toOption_bind, hrest]
        simp only [Option.bind_some]
        cases freeConditions d v g qs with
        | none => rfl
        | some cs => cases ResolvedField.bindAll? e (fieldNamesOfAll qs) <;> rfl

end

theorem freeConditions_ofFn {field : Option ResolvedField} {n : Nat} {qs : Fin n → Query}
    {cs : List Condition} :
    freeConditions d v field (List.ofFn qs) = some cs ↔
      ∃ c : Fin n → Condition, cs = List.ofFn c ∧
        ∀ i, freeCondition d v field (qs i) = some (c i) := by
  induction n generalizing cs with
  | zero =>
    rw [List.ofFn_zero, freeConditions, Option.some.injEq]
    constructor
    · rintro rfl
      exact ⟨fun i => i.elim0, List.ofFn_zero.symm, fun i => i.elim0⟩
    · rintro ⟨c, rfl, -⟩
      exact List.ofFn_zero.symm
  | succ n ih =>
    rw [List.ofFn_succ, freeConditions]
    simp only [Option.bind_eq_some_iff, Option.map_eq_some_iff, ih]
    constructor
    · rintro ⟨c, hc, rest, ⟨cs, rfl, hcs⟩, rfl⟩
      refine ⟨Fin.cons c cs, ?_, ?_⟩
      · rw [List.ofFn_succ]
        rfl
      · exact Fin.cases hc hcs
    · rintro ⟨c, rfl, hc⟩
      exact ⟨c 0, hc 0, _, ⟨fun i => c i.succ, rfl, fun i => hc i.succ⟩, List.ofFn_succ.symm⟩

theorem exists_freeConditions {field : Option ResolvedField} {n : Nat}
    {inner : Fin n → Rearrangement} {ps qs : Fin n → Query} (order : Equiv.Perm (Fin n))
    (h : ∀ i c, freeCondition d v field (ps i) = some c →
      ∃ e, freeCondition d v field (qs i) = some e ∧ Condition.Rearranged (inner i) c e)
    {cs : List Condition} (hcs : freeConditions d v field (List.ofFn ps) = some cs) :
    ∃ c e : Fin n → Condition, cs = List.ofFn c ∧
      freeConditions d v field (List.ofFn (qs ∘ order)) = some (List.ofFn (e ∘ order)) ∧
      ∀ i, Condition.Rearranged (inner i) (c i) (e i) := by
  obtain ⟨c, rfl, hc⟩ := freeConditions_ofFn.1 hcs
  obtain ⟨e, he⟩ := Classical.skolem.1 fun i => h i (c i) (hc i)
  exact ⟨c, e, rfl, freeConditions_ofFn.2 ⟨e ∘ order, rfl, fun i => (he (order i)).1⟩,
    fun i => (he i).2⟩

/-- The condition of a rearranged query is rearranged in the same way. -/
theorem Rearranged.exists_freeCondition {r : Rearrangement} {p q : Query} (h : Rearranged r p q)
    {field : Option ResolvedField} {c : Condition} (hc : freeCondition d v field p = some c) :
    ∃ e, freeCondition d v field q = some e ∧ Condition.Rearranged r c e := by
  induction h generalizing field c with
  | keep q => exact ⟨c, hc, .keep c⟩
  | negated _ ih =>
    rw [freeCondition, Option.map_eq_some_iff] at hc
    obtain ⟨c, hc, rfl⟩ := hc
    obtain ⟨e, he, hce⟩ := ih hc
    exact ⟨.negated e, by rw [freeCondition, he, Option.map_some], .negated hce⟩
  | prohibited _ ih =>
    rw [freeCondition, Option.map_eq_some_iff] at hc
    obtain ⟨c, hc, rfl⟩ := hc
    obtain ⟨e, he, hce⟩ := ih hc
    exact ⟨.negated e, by rw [freeCondition, he, Option.map_some], .negated hce⟩
  | required _ ih => cases hc
  | group _ ih =>
    rw [freeCondition] at hc ⊢
    exact ih hc
  | fieldGroup _ ih =>
    rw [freeCondition] at hc ⊢
    exact ih hc
  | boost force _ ih => cases hc
  | field name _ ih =>
    rw [freeCondition, Option.bind_eq_some_iff] at hc
    obtain ⟨f, hf, hc⟩ := hc
    obtain ⟨e, he, hce⟩ := ih hc
    exact ⟨e, by rw [freeCondition, hf, Option.bind_some, he], hce⟩
  | @all n order inner ps qs _ ih =>
    rw [freeCondition, Option.map_eq_some_iff] at hc
    obtain ⟨_, hcs, rfl⟩ := hc
    obtain ⟨cs, es, rfl, hes, hrearranged⟩ := exists_freeConditions order (fun i _ => ih i) hcs
    exact ⟨_, by rw [freeCondition, hes, Option.map_some], .all hrearranged⟩
  | @any n order inner ps qs _ ih =>
    rw [freeCondition, Option.map_eq_some_iff] at hc
    obtain ⟨_, hcs, rfl⟩ := hc
    obtain ⟨cs, es, rfl, hes, hrearranged⟩ := exists_freeConditions order (fun i _ => ih i) hcs
    exact ⟨_, by rw [freeCondition, hes, Option.map_some], .any hrearranged⟩

theorem compile_eq_ok_iff_free {b b' : Binding} {q : Query} {c : Condition}
    (hfree : ∀ name ∈ q.fieldNames, ResolvedField.IsFree name) :
    q.compile d v b = .ok (c, b') ↔ freeCondition d v none q = some c ∧
      ResolvedField.bindAll? b q.fieldNames = some b' := by
  rw [compile, ← toOption_eq_some_iff, toOption_compileIn_free (g := none) rfl hfree]
  simp [Option.bind_eq_some_iff, Option.map_eq_some_iff]

theorem exists_compile_of_rearranged {r : Rearrangement} {p q : Query} (h : Rearranged r p q)
    (hfree : ∀ name ∈ p.fieldNames, ResolvedField.IsFree name) {b b' : Binding} {c : Condition}
    (hc : p.compile d v b = .ok (c, b')) :
    ∃ e, q.compile d v b = .ok (e, b') ∧ Condition.Rearranged r c e := by
  have hnames := h.fieldNames_perm
  obtain ⟨hc, hb⟩ := (compile_eq_ok_iff_free hfree).1 hc
  obtain ⟨e, he, hce⟩ := h.exists_freeCondition hc
  rw [ResolvedField.bindAll?_perm hnames] at hb
  exact ⟨e, (compile_eq_ok_iff_free fun name hname => hfree name (hnames.mem_iff.2 hname)).2
    ⟨he, hb⟩, hce⟩

/-- If all paths in a query start with a kind or with a field of all kinds, the query is compiled
if and only if it is compiled with its operands in another order. Both are bound to the same kind,
and their conditions have the same parts in the two orders, and the same truth. -/
theorem compile_in_any_order {r : Rearrangement} {p q : Query} (h : Rearranged r p q)
    (hfree : ∀ name ∈ p.fieldNames, ResolvedField.IsFree name) (b : Binding) :
    ((∃ x, p.compile d v b = .ok x) ↔ ∃ x, q.compile d v b = .ok x) ∧
    ∀ c b', p.compile d v b = .ok (c, b') →
      ∃ e, q.compile d v b = .ok (e, b') ∧ Condition.Rearranged r c e ∧ c.MeansSame e := by
  have hforth : ∀ c b', p.compile d v b = .ok (c, b') →
      ∃ e, q.compile d v b = .ok (e, b') ∧ Condition.Rearranged r c e :=
    fun c b' hc => exists_compile_of_rearranged h hfree hc
  refine ⟨⟨?_, ?_⟩, fun c b' hc => ?_⟩
  · rintro ⟨⟨c, b'⟩, hc⟩
    obtain ⟨e, he, -⟩ := hforth c b' hc
    exact ⟨_, he⟩
  · rintro ⟨⟨e, b'⟩, he⟩
    obtain ⟨r', h'⟩ := h.undo
    obtain ⟨c, hc, -⟩ := exists_compile_of_rearranged h'
      (fun name hname => hfree name (h.fieldNames_perm.mem_iff.2 hname)) he
    exact ⟨_, hc⟩
  · obtain ⟨e, he, hce⟩ := hforth c b' hc
    exact ⟨e, he, hce, hce.meansSame⟩

theorem Rearranged.all_swap {r r' : Rearrangement} {p p' q q' : Query} (h : Rearranged r p q)
    (h' : Rearranged r' p' q') :
    Rearranged (.parts 2 (Equiv.swap 0 1) ![r, r']) (.all [p, p']) (.all [q', q]) := by
  have hparts : Rearranged (.parts 2 (Equiv.swap 0 1) ![r, r']) (.all (List.ofFn ![p, p']))
      (.all (List.ofFn (![q, q'] ∘ Equiv.swap 0 1))) := .all (Fin.forall_fin_two.2 ⟨h, h'⟩)
  simpa [List.ofFn_succ] using hparts

theorem Rearranged.any_swap {r r' : Rearrangement} {p p' q q' : Query} (h : Rearranged r p q)
    (h' : Rearranged r' p' q') :
    Rearranged (.parts 2 (Equiv.swap 0 1) ![r, r']) (.any [p, p']) (.any [q', q]) := by
  have hparts : Rearranged (.parts 2 (Equiv.swap 0 1) ![r, r']) (.any (List.ofFn ![p, p']))
      (.any (List.ofFn (![q, q'] ∘ Equiv.swap 0 1))) := .any (Fin.forall_fin_two.2 ⟨h, h'⟩)
  simpa [List.ofFn_succ] using hparts

def ofSize : Query := .field "file.size".toList (.word ['5'])

def ofTag : Query := .field "tag".toList (.word ['a'])

def ofHash : Query := .negated (.field "object.dhash".toList (.word ['p']))

/-- The operand that names the kind of files may come last, at both depths. -/
theorem compile_in_any_order_swapped : ∃ r c e,
    (Query.all [.any [ofSize, ofTag], ofHash]).compile Database.blank.directory
      (.ofUser ⟨1, ['u']⟩) none = .ok (c, some .file) ∧
    (Query.all [ofHash, .any [ofTag, ofSize]]).compile Database.blank.directory
      (.ofUser ⟨1, ['u']⟩) none = .ok (e, some .file) ∧
    Condition.Rearranged r c e ∧ c.MeansSame e := by
  have hrearranged := (Rearranged.any_swap (.keep ofSize) (.keep ofTag)).all_swap (.keep ofHash)
  have hfree : ∀ name ∈ (Query.all [.any [ofSize, ofTag], ofHash]).fieldNames,
      ResolvedField.IsFree name := by
    change ∀ name ∈ ["file.size".toList, "tag".toList, "object.dhash".toList], _
    simp only [List.forall_mem_cons]
    exact ⟨⟨"file".toList, ["size".toList], by decide, .inl (by decide)⟩,
      ⟨"tag".toList, [], by decide, .inr (by decide)⟩,
      ⟨"object".toList, ["dhash".toList], by decide, .inl (by decide)⟩, by simp⟩
  have hcompile := compile_in_any_order (d := Database.blank.directory) (v := .ofUser ⟨1, ['u']⟩)
    hrearranged hfree none
  obtain ⟨e, he, hce, hsame⟩ := hcompile.2 _ (some .file) rfl
  exact ⟨_, _, e, rfl, he, hce, hsame⟩

end Query

end SampleSearch
