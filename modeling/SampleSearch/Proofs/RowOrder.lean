import SampleSearch.Proofs.DistinctKeys
import SampleSearch.Proofs.OrderlyConditions
import SampleSearch.Store.Change

/-!
# The order of rows

Every change keeps the rows of each table in the order of their ids. In such a database the
attributes of an object are determined by what they are, and so is the order in which they are
looked at.
-/

namespace SampleSearch

namespace Database

/-- Whether the rows of every table are in its order. -/
def IsOrdered (db : Database) : Prop :=
  ∀ t, (db.rows t).Pairwise fun r s => beforeOrSame t r s = true

theorem beforeOrSame_trans (t : Table) (a b c : t.Record) (hab : beforeOrSame t a b = true)
    (hbc : beforeOrSame t b c = true) : beforeOrSame t a c = true := by
  cases t <;> simp only [beforeOrSame, Table.rowId?, decide_eq_true_eq] at *
  all_goals omega

theorem beforeOrSame_total (t : Table) (a b : t.Record) :
    (beforeOrSame t a b || beforeOrSame t b a) = true := by
  cases t <;> simp only [beforeOrSame, Table.rowId?, Bool.or_eq_true, decide_eq_true_eq, or_self]
  all_goals omega

theorem pairwise_ordered (t : Table) (rows : List t.Record) :
    (ordered t rows).Pairwise fun r s => beforeOrSame t r s = true :=
  List.pairwise_mergeSort (beforeOrSame_trans t) (beforeOrSame_total t) rows

variable {db : Database}

theorem IsOrdered.replace (h : db.IsOrdered) {t : Table} {rows : List t.Record}
    (hrows : rows.Pairwise fun r s => beforeOrSame t r s = true) :
    (db.replace t rows).IsOrdered := by
  intro u
  by_cases hu : u = t
  · subst hu
    rw [rows_replace_self]
    exact hrows
  · rw [rows_replace_of_ne db hu]
    exact h u

theorem IsOrdered.prune (h : db.IsOrdered) : db.prune.IsOrdered := by
  have hfold : ∀ (ts : List Table) (db : Database), db.IsOrdered →
      (ts.foldl pruneTable db).IsOrdered := by
    intro ts
    induction ts with
    | nil => exact fun db h => h
    | cons t ts ih => exact fun db h => ih _ (h.replace ((h t).filter _))
  exact hfold Table.all db h

theorem checked_eq_ok {changed db' : Database} (h : changed.checked = .ok db') : db' = changed := by
  unfold checked at h
  split at h
  · exact (Except.ok.inj h).symm
  · cases h

theorem IsOrdered.insertRow (h : db.IsOrdered) {table : Text} {a : Assignment} {db' : Database}
    (hrow : db.insertRow table a = .ok db') : db'.IsOrdered := by
  obtain ⟨t, -, hrow⟩ := bind_eq_ok_iff.1 hrow
  obtain ⟨-, -, hrow⟩ := bind_eq_ok_iff.1 hrow
  obtain ⟨-, -, hrow⟩ := bind_eq_ok_iff.1 hrow
  split at hrow
  · cases hrow
  · rw [checked_eq_ok hrow]
    exact h.replace (pairwise_ordered t _)

theorem IsOrdered.insertRows (h : db.IsOrdered) (table : Text) (count : Nat)
    (rows : List Assignment) : (db.insertRows table count rows).1.IsOrdered := by
  induction rows generalizing db count with
  | nil => exact h
  | cons a rows ih =>
    rw [Database.insertRows]
    cases hrow : db.insertRow table a with
    | error e => exact h
    | ok changed => exact ih (h.insertRow hrow) (count + 1)

theorem IsOrdered.updateRows (h : db.IsOrdered) {t : Table} {values condition : Assignment}
    {result : Database × Nat} (hrows : db.updateRows t values condition = .ok result) :
    result.1.IsOrdered := by
  obtain ⟨-, -, hrows⟩ := bind_eq_ok_iff.1 hrows
  obtain ⟨-, -, hrows⟩ := bind_eq_ok_iff.1 hrows
  obtain ⟨-, -, hrows⟩ := bind_eq_ok_iff.1 hrows
  simp only at hrows
  split at hrows
  · cases hrows
  · obtain ⟨changed, hchanged, hrows⟩ := bind_eq_ok_iff.1 hrows
    cases hrows
    rw [checked_eq_ok hchanged]
    exact h.replace (pairwise_ordered t _)

theorem IsOrdered.deleteRows (h : db.IsOrdered) {t : Table} {condition : Assignment}
    {result : Database × Nat} (hrows : db.deleteRows t condition = .ok result) :
    result.1.IsOrdered := by
  obtain ⟨-, -, hrows⟩ := bind_eq_ok_iff.1 hrows
  obtain ⟨changed, hchanged, hrows⟩ := bind_eq_ok_iff.1 hrows
  cases hrows
  rw [checked_eq_ok hchanged]
  exact (h.replace ((h t).filter _)).prune

theorem IsOrdered.settle (h : db.IsOrdered) {result : Except SearchError (Database × Nat)}
    (hresult : ∀ r, result = .ok r → r.1.IsOrdered) : (db.settle result).1.IsOrdered := by
  cases result with
  | error e => exact h
  | ok r => exact hresult r rfl

/-- Every change keeps the rows in order. -/
theorem IsOrdered.apply (h : db.IsOrdered) (change : Change) : (db.apply change).1.IsOrdered := by
  cases change with
  | insert table rows => exact h.insertRows table 0 rows
  | update table values condition =>
    refine h.settle fun r hr => ?_
    obtain ⟨t, -, hrows⟩ := bind_eq_ok_iff.1 hr
    exact h.updateRows hrows
  | delete table condition =>
    refine h.settle fun r hr => ?_
    obtain ⟨t, -, hrows⟩ := bind_eq_ok_iff.1 hr
    exact h.deleteRows hrows

theorem isOrdered_blank : blank.IsOrdered := fun _ => .nil

/-- The attributes of an object come in the same order wherever they are the same. -/
theorem attributesOf_eq {db₁ db₂ : Database} (hi₁ : db₁.isIntact = true)
    (hi₂ : db₂.isIntact = true) (ho₁ : db₁.IsOrdered) (ho₂ : db₂.IsOrdered) {id : Int}
    (h : ∀ a : AttributeRecord, a.objectId = id →
      (a ∈ db₁.rows .attributes ↔ a ∈ db₂.rows .attributes)) :
    db₁.attributesOf id = db₂.attributesOf id := by
  have hnodup : ∀ {db : Database}, db.isIntact = true → (db.attributesOf id).Nodup := fun hi =>
    (nodup_of_keysDistinct (keysDistinct_rows hi .attributes) fun r => by
      simp [sharesKey, Table.keys]).filter _
  have hmem : ∀ a, a ∈ db₁.attributesOf id ↔ a ∈ db₂.attributesOf id := by
    intro a
    rw [attributesOf, attributesOf, List.mem_filter, List.mem_filter, beq_iff_eq]
    exact and_congr_left (h a)
  -- Both are in the order of ids, and an intact database has no two attributes of one id.
  have hperm := (List.perm_ext_iff_of_nodup (hnodup hi₁) (hnodup hi₂)).2 hmem
  refine hperm.eq_of_pairwise (fun a b ha hb hab hba => ?_) ((ho₁ .attributes).filter _)
    ((ho₂ .attributes).filter _)
  have ha' : a ∈ db₁.rows .attributes := (List.mem_filter.1 ha).1
  have hb' : b ∈ db₁.rows .attributes := (List.mem_filter.1 ((hmem b).2 hb)).1
  refine eq_of_sharesKey (keysDistinct_rows hi₁ .attributes) ha' hb' ?_
  have hids : a.id = b.id := by
    simp only [beforeOrSame, Table.rowId?, decide_eq_true_eq] at hab hba
    omega
  simp [sharesKey, Table.keys, hids]

end Database

end SampleSearch
