import SampleSearch.Proofs.LeafMeaning
import SampleSearch.Proofs.RowOrder

/-!
# Rows under new ids

The id of a new row lies behind the ids of the rows that are there, but not behind those of rows
that have been deleted. What refers to a row goes with it wherever the schema declares the
reference, so nothing of that kind is found under a new id. The groups of rights and the related
users of permissions are not declared: they outlive what they name, unless every step takes care
of them.
-/

namespace SampleSearch

namespace Database

def after (db : Database) (cs : List Change) : Database :=
  cs.foldl (fun db c => (db.apply c).1) db

def Along (P : Database → Database → Prop) : Database → List Change → Prop
  | _, [] => True
  | db, c :: cs => P db (db.apply c).1 ∧ Along P (db.apply c).1 cs

theorem after_induction {J : Database → Prop} {P : Database → Database → Prop}
    (hstep : ∀ db c, J db → P db (db.apply c).1 → J (db.apply c).1) {db : Database} (h : J db)
    {cs : List Change} (hrun : db.Along P cs) : J (db.after cs) := by
  induction cs generalizing db with
  | nil => exact h
  | cons c cs ih => exact ih (hstep db c h hrun.1) hrun.2

theorem along_of_forall {P : Database → Database → Prop} (h : ∀ db db', P db db')
    (db : Database) (cs : List Change) : db.Along P cs := by
  induction cs generalizing db with
  | nil => trivial
  | cons c cs ih => exact ⟨h _ _, ih _⟩

variable {db db' : Database}

theorem isIntact_of_checked {changed : Database} (h : changed.checked = .ok db') :
    db'.isIntact = true := by
  unfold checked at h
  split at h
  · cases h
    assumption
  · cases h

/-- An accepted row is appended, up to the order of the table, and leaves the database intact. -/
theorem insertRow_eq_ok {table : Text} {a : Assignment} (h : db.insertRow table a = .ok db') :
    ∃ t r, Table.ofName? table = some t ∧ t.insertedRow? (db.rows t) a = some r ∧
      db' = db.replace t (ordered t (db.rows t ++ [r])) ∧ db'.isIntact = true := by
  obtain ⟨t, ht, h⟩ := bind_eq_ok_iff.1 h
  obtain ⟨-, -, h⟩ := bind_eq_ok_iff.1 h
  obtain ⟨-, -, h⟩ := bind_eq_ok_iff.1 h
  have hname : Table.ofName? table = some t := by
    unfold tableNamed at ht
    split at ht
    · cases ht
      assumption
    · cases ht
  split at h
  · cases h
  · rename_i r hr
    exact ⟨t, r, hname, hr, checked_eq_ok h, isIntact_of_checked h⟩

theorem isIntact_insertRows (hi : db.isIntact = true) (table : Text) (count : Nat)
    (rows : List Assignment) : (db.insertRows table count rows).1.isIntact = true := by
  induction rows generalizing db count with
  | nil => exact hi
  | cons a rows ih =>
    rw [Database.insertRows]
    cases hrow : db.insertRow table a with
    | error e => exact hi
    | ok changed =>
      obtain ⟨-, -, -, -, -, hchanged⟩ := insertRow_eq_ok hrow
      exact ih hchanged (count + 1)

theorem isIntact_updateRows {t : Table} {values condition : Assignment}
    {result : Database × Nat} (h : db.updateRows t values condition = .ok result) :
    result.1.isIntact = true := by
  obtain ⟨-, -, h⟩ := bind_eq_ok_iff.1 h
  obtain ⟨-, -, h⟩ := bind_eq_ok_iff.1 h
  obtain ⟨-, -, h⟩ := bind_eq_ok_iff.1 h
  simp only at h
  split at h
  · cases h
  · obtain ⟨changed, hchanged, h⟩ := bind_eq_ok_iff.1 h
    cases h
    exact isIntact_of_checked hchanged

theorem isIntact_deleteRows {t : Table} {condition : Assignment} {result : Database × Nat}
    (h : db.deleteRows t condition = .ok result) : result.1.isIntact = true := by
  obtain ⟨-, -, h⟩ := bind_eq_ok_iff.1 h
  obtain ⟨changed, hchanged, h⟩ := bind_eq_ok_iff.1 h
  cases h
  exact isIntact_of_checked hchanged

theorem isIntact_settle (hi : db.isIntact = true) {result : Except SearchError (Database × Nat)}
    (h : ∀ r, result = .ok r → r.1.isIntact = true) : (db.settle result).1.isIntact = true := by
  cases result with
  | error e => exact hi
  | ok r => exact h r rfl

theorem isIntact_apply (hi : db.isIntact = true) (c : Change) :
    (db.apply c).1.isIntact = true := by
  cases c with
  | insert table rows => exact isIntact_insertRows hi table 0 rows
  | update table values condition =>
    refine isIntact_settle hi fun r hr => ?_
    obtain ⟨t, -, h⟩ := bind_eq_ok_iff.1 hr
    exact isIntact_updateRows h
  | delete table condition =>
    refine isIntact_settle hi fun r hr => ?_
    obtain ⟨t, -, h⟩ := bind_eq_ok_iff.1 hr
    exact isIntact_deleteRows h

theorem isIntact_after (cs : List Change) : (blank.after cs).isIntact = true :=
  after_induction (J := fun db => db.isIntact = true) (P := fun _ _ => True)
    (fun _ c hi _ => isIntact_apply hi c) isIntact_blank (along_of_forall (fun _ _ => trivial) _ cs)

theorem lt_nextRowId {t : Table} {rows : List t.Record} {r : t.Record} (hr : r ∈ rows) {i : Int}
    (hi : t.rowId? r = some i) : i < nextRowId t rows := by
  have hmem : i ∈ rows.filterMap t.rowId? := List.mem_filterMap.2 ⟨r, hr, hi⟩
  unfold nextRowId
  cases hmax : (rows.filterMap t.rowId?).max? with
  | none =>
    rw [List.max?_eq_none_iff] at hmax
    rw [hmax] at hmem
    cases hmem
  | some m =>
    have hle : i ≤ m := (List.max?_eq_some_iff.1 hmax).2 i hmem
    exact Int.lt_add_one_of_le hle

theorem rowId?_of_keys {t : Table} {r : t.Record} {i : Int}
    (h : (t.keys r).head? = some [.int i]) : t.rowId? r = some i := by
  cases t <;> simp_all [Table.keys, Table.rowId?]
  cases hk : r.key <;> simp [hk, Cell.ofOption] at h

theorem hasRow_nextRowId (db : Database) (t : Table) :
    db.hasRow t (.int (nextRowId t (db.rows t))) = false := by
  rw [hasRow, List.any_eq_false]
  intro r hr hkey
  exact Int.lt_irrefl _ (lt_nextRowId hr (rowId?_of_keys (beq_iff_eq.1 hkey)))

theorem rowId?_insertedRow {t : Table} (ht : t.columns.head? = some .rowId)
    {rows : List t.Record} {a : Assignment} (hid : a.find? "id".toList = none) {r : t.Record}
    (h : t.insertedRow? rows a = some r) : t.rowId? r = some (nextRowId t rows) := by
  have hcell : a.inserted (nextRowId t rows) .rowId = .int (nextRowId t rows) := by
    have hfind : a.find? ColumnSpec.rowId.name = none := hid
    rw [Assignment.inserted, hfind]
    rfl
  unfold Table.insertedRow? Table.row? at h
  split at h
  · cases t <;> cases ht
    all_goals
      simp only [Table.columns, List.map_cons, List.map_nil, hcell, Table.ofCells?,
        ObjectRecord.ofCells?, FileRecord.ofCells?, ConfigRecord.ofCells?, BlobRecord.ofCells?,
        TagRecord.ofCells?, CommentRecord.ofCells?, AttributeRecord.ofCells?, User.ofCells?,
        GroupRecord.ofCells?] at h
      split at h
      · rename_i heq
        cases h
        have hfirst := (List.cons.inj heq).1
        exact congrArg some (Cell.int.inj hfirst).symm
      · cases h
  · cases h

/-- What an inserted row finds: it is behind all others, and none of the other tables declares a
reference to it. -/
theorem newRow_unreferenced (hi : db.isIntact = true) {t : Table}
    (ht : t.columns.head? = some .rowId) {a : Assignment} (hid : a.find? "id".toList = none)
    (h : db.insertRow t.name a = .ok db') :
    ∃ r, (db'.rows t).Perm (r :: db.rows t) ∧ t.rowId? r = some (nextRowId t (db.rows t)) ∧
      ∀ u, u ≠ t → db'.rows u = db.rows u ∧
        ∀ s ∈ db'.rows u, (t, Cell.int (nextRowId t (db.rows t))) ∉ u.references s := by
  obtain ⟨t', r, hname, hr, rfl, -⟩ := insertRow_eq_ok h
  obtain rfl : t = t' := by rwa [Table.ofName?_name, Option.some.injEq] at hname
  refine ⟨r, ?_, rowId?_insertedRow ht hid hr, fun u hu => ?_⟩
  · rw [rows_replace_self]
    exact (List.mergeSort_perm _ _).trans (List.perm_append_singleton r _)
  · rw [rows_replace_of_ne db hu]
    refine ⟨rfl, fun s hs href => ?_⟩
    have hanchored := ((isIntact_iff db).1 hi u).2 s hs
    have hfound := List.all_eq_true.1 hanchored _ href
    rw [hasRow_nextRowId] at hfound
    cases hfound

/-- Whether every right names a group, and every permission at most a user as its related one. -/
structure NamesExisting (db : Database) : Prop where
  rights : ∀ r ∈ db.rows .rights, db.hasRow .groups r.groupId = true
  permissions : ∀ p ∈ db.rows .permissions,
    p.relatedUser = .empty ∨ db.hasRow .users p.relatedUser = true

/-- Whether a step only puts in rights of existing groups, and permissions that name nobody or an
existing user as the related one. -/
structure PutsExisting (db db' : Database) : Prop where
  rights : ∀ r ∈ db'.rows .rights, r ∉ db.rows .rights → db'.hasRow .groups r.groupId = true
  permissions : ∀ p ∈ db'.rows .permissions, p ∉ db.rows .permissions →
    p.relatedUser = .empty ∨ db'.hasRow .users p.relatedUser = true

/-- Whether a step takes no group away from a right that stays, and no related user from a
permission that stays. -/
structure SparesNamed (db db' : Database) : Prop where
  rights : ∀ r ∈ db'.rows .rights, r ∈ db.rows .rights →
    db.hasRow .groups r.groupId = true → db'.hasRow .groups r.groupId = true
  permissions : ∀ p ∈ db'.rows .permissions, p ∈ db.rows .permissions →
    db.hasRow .users p.relatedUser = true → db'.hasRow .users p.relatedUser = true

theorem namesExisting_blank : blank.NamesExisting :=
  ⟨fun _ h => (List.not_mem_nil h).elim, fun _ h => (List.not_mem_nil h).elim⟩

theorem NamesExisting.step (h : db.NamesExisting) (hputs : db.PutsExisting db')
    (hspares : db.SparesNamed db') : db'.NamesExisting := by
  constructor
  · intro r hr
    by_cases hold : r ∈ db.rows .rights
    · exact hspares.rights r hr hold (h.rights r hold)
    · exact hputs.rights r hr hold
  · intro p hp
    by_cases hold : p ∈ db.rows .permissions
    · exact (h.permissions p hold).imp_right (hspares.permissions p hp hold)
    · exact hputs.permissions p hp hold

def Careful (db db' : Database) : Prop := db.PutsExisting db' ∧ db.SparesNamed db'

theorem namesExisting_after {cs : List Change} (h : blank.Along Careful cs) :
    (blank.after cs).NamesExisting :=
  after_induction (fun _ _ hold hstep => hold.step hstep.1 hstep.2) namesExisting_blank h

theorem exists_id_of_hasRow {t : Table} {key : Cell} (ht : t.columns.head? = some .rowId)
    (h : db.hasRow t key = true) : ∃ i, key = .int i := by
  obtain ⟨r, -, hr⟩ := List.any_eq_true.1 h
  cases t <;> cases ht
  all_goals
    rw [beq_iff_eq, Table.keys, List.head?_cons, Option.some.injEq] at hr
    exact ⟨_, (List.cons.inj hr).1.symm⟩

/-- Whether nobody is in a group and nothing is shared with it. -/
structure StandsAlone (db : Database) (g : GroupRecord) : Prop where
  members : ∀ m ∈ db.rows .members, m.groupId ≠ g.id
  permissions : ∀ p ∈ db.rows .permissions, p.groupId ≠ g.id

/-- Whether no right names a group, so that joining it makes no attribute readable. -/
structure GrantsNothing (db : Database) (g : GroupRecord) : Prop where
  rights : ∀ r ∈ db.rows .rights, r.groupId ≠ .int g.id
  readable : ∀ key a, db.attribute? key = .ok (some a) →
    ∀ v : Viewer, a.readableBy (v.join g.group) = a.readableBy v

/-- Whether no permission names a user, so that no object counts as uploaded by that user. -/
structure CreditsNothing (db : Database) (u : User) : Prop where
  permissions : ∀ p ∈ db.rows .permissions, p.relatedUser ≠ .int u.id
  uploads : ∀ (v : Viewer) path leaf e, Leaf.exactName path leaf = .ok u.login →
    Leaf.uploadedByCondition db.directory v path leaf = .ok e →
    ∀ o, e.truth db (db.scope o) = .no

theorem exists_of_mem_mapM {ε α β : Type} {f : α → Except ε β} {as : List α} {bs : List β}
    (h : as.mapM f = .ok bs) {b : β} (hb : b ∈ bs) : ∃ a ∈ as, f a = .ok b := by
  induction as generalizing bs with
  | nil =>
    cases h
    cases hb
  | cons a as ih =>
    rw [List.mapM_cons] at h
    obtain ⟨c, hc, h⟩ := bind_eq_ok_iff.1 h
    obtain ⟨cs, hcs, h⟩ := bind_eq_ok_iff.1 h
    cases h
    rcases List.mem_cons.1 hb with rfl | hb
    · exact ⟨a, List.mem_cons_self, hc⟩
    · obtain ⟨a', ha', hf⟩ := ih hcs hb
      exact ⟨a', List.mem_cons_of_mem a ha', hf⟩

theorem right_of_mem_permissions {key : Text} {a : AttributeDefinition}
    (h : db.attribute? key = .ok (some a)) {p : AttributePermission} (hp : p ∈ a.permissions) :
    ∃ r ∈ db.rows .rights, r.groupId = .int p.groupId := by
  unfold attribute? at h
  split at h
  · cases h
  · obtain ⟨hidden, -, h⟩ := bind_eq_ok_iff.1 h
    obtain ⟨ps, hps, h⟩ := bind_eq_ok_iff.1 h
    cases h
    obtain ⟨r, hr, hread⟩ := exists_of_mem_mapM hps hp
    obtain ⟨id, hid, hread⟩ := bind_eq_ok_iff.1 hread
    obtain ⟨_, -, hread⟩ := bind_eq_ok_iff.1 hread
    obtain ⟨_, -, hread⟩ := bind_eq_ok_iff.1 hread
    cases hread
    refine ⟨r, (List.mem_filter.1 hr).1, ?_⟩
    unfold number at hid
    split at hid
    · cases hid
      assumption
    · cases hid

theorem grantsNothing_of_rights {g : GroupRecord}
    (h : ∀ r ∈ db.rows .rights, r.groupId ≠ .int g.id) : db.GrantsNothing g := by
  refine ⟨h, fun key a ha v => ?_⟩
  have hother : ∀ p ∈ a.permissions, g.id ≠ p.groupId := by
    intro p hp heq
    obtain ⟨r, hr, hid⟩ := right_of_mem_permissions ha hp
    exact h r hr (by rw [hid, heq])
  rw [AttributeDefinition.readableBy, AttributeDefinition.readableBy, Viewer.has_join]
  congr 1
  rw [Bool.eq_iff_iff, List.any_eq_true, List.any_eq_true]
  refine exists_congr fun p => and_congr_right fun hp => ?_
  have hnot : (g.group.id == p.groupId) = false := beq_eq_false_iff_ne.2 (hother p hp)
  rw [Viewer.isMember_join, hnot, Bool.or_false]

theorem creditsNothing_of_permissions (hi : db.isIntact = true) {u : User}
    (hu : u ∈ db.rows .users) (hids : ∀ p ∈ db.rows .permissions,
      p.relatedUser = .empty ∨ ∃ i, p.relatedUser = .int i ∧ i ≠ u.id) :
    db.CreditsNothing u := by
  constructor
  · intro p hp heq
    obtain hempty | ⟨i, hint, hne⟩ := hids p hp
    · rw [heq] at hempty
      cases hempty
    · rw [heq] at hint
      exact hne (Cell.int.inj hint).symm
  · intro v path leaf e hname he o
    obtain ⟨value, rfl, htruth⟩ := Leaf.truth_uploadedBy (o := o) he
    obtain ⟨value', hterm, hlogin⟩ := Leaf.exactName_eq_ok hname
    cases hterm
    have hfound : db.user? (Text.unescape value) = some u :=
      (user?_eq_some_iff hi).2 ⟨hu, hlogin⟩
    have hnone : ∀ p ∈ db.rows .permissions,
        (p.relatedUser.stands .eq (.int u.id) == .yes) = false := by
      intro p hp
      rw [beq_eq_false_iff_ne, Ne, Cell.stands_eq_yes]
      obtain hempty | ⟨i, hint, hne⟩ := hids p hp
      · rw [hempty, Cell.compare?_empty_left]
        exact Option.some_ne_none _ ∘ Eq.symm
      · rw [hint, Cell.compare?_int_eq_iff]
        exact hne
    rw [htruth, hfound, List.any_eq_false.2]
    · rfl
    · intro p hp
      rw [Option.any_some, hnone p hp]
      simp

/-- Whatever changes have been made, nobody is in a new group and nothing is shared with it, and a
new user is in no group. If every step took care of the groups and users that are named without
being declared, no right names the new group and no permission the new user: neither of them takes
over what was granted or credited under an id that is used again. -/
theorem new_ids_start_bare (cs : List Change) {a : Assignment}
    (hid : a.find? "id".toList = none) {db : Database} :
    ((blank.after cs).insertRow Table.groups.name a = .ok db →
      ∃ g, (db.rows .groups).Perm (g :: (blank.after cs).rows .groups) ∧ db.StandsAlone g ∧
        (blank.Along Careful cs → db.GrantsNothing g)) ∧
    ((blank.after cs).insertRow Table.users.name a = .ok db →
      ∃ u, (db.rows .users).Perm (u :: (blank.after cs).rows .users) ∧
        (∀ m ∈ db.rows .members, m.userId ≠ u.id) ∧
        (blank.Along Careful cs → db.CreditsNothing u)) := by
  have hi := isIntact_after cs
  constructor
  · intro h
    obtain ⟨g, hperm, hnew, hothers⟩ := newRow_unreferenced hi rfl hid h
    have hgid : g.id = nextRowId .groups ((blank.after cs).rows .groups) := Option.some.inj hnew
    refine ⟨g, hperm, ⟨fun m hm heq => ?_, fun p hp heq => ?_⟩, fun hrun => ?_⟩
    · refine (hothers .members (by decide)).2 m hm ?_
      rw [← hgid, ← heq]
      simp [Table.references]
    · refine (hothers .permissions (by decide)).2 p hp ?_
      rw [← hgid, ← heq]
      simp [Table.references]
    · refine grantsNothing_of_rights fun r hr heq => ?_
      rw [(hothers .rights (by decide)).1] at hr
      have hnamed := (namesExisting_after hrun).rights r hr
      rw [heq, hgid, hasRow_nextRowId] at hnamed
      cases hnamed
  · intro h
    obtain ⟨u, hperm, hnew, hothers⟩ := newRow_unreferenced hi rfl hid h
    have huid : u.id = nextRowId .users ((blank.after cs).rows .users) := Option.some.inj hnew
    refine ⟨u, hperm, fun m hm heq => ?_, fun hrun => ?_⟩
    · refine (hothers .members (by decide)).2 m hm ?_
      rw [← huid, ← heq]
      simp [Table.references]
    · obtain ⟨-, -, -, -, -, hintact⟩ := insertRow_eq_ok h
      refine creditsNothing_of_permissions hintact (hperm.mem_iff.2 List.mem_cons_self) ?_
      intro p hp
      rw [(hothers .permissions (by decide)).1] at hp
      refine ((namesExisting_after hrun).permissions p hp).imp_right fun hnamed => ?_
      obtain ⟨i, hint⟩ := exists_id_of_hasRow rfl hnamed
      refine ⟨i, hint, fun heq => ?_⟩
      rw [hint, heq, huid, hasRow_nextRowId] at hnamed
      cases hnamed

instance (db db' : Database) : Decidable (db.PutsExisting db') :=
  decidable_of_iff
    ((∀ r ∈ db'.rows .rights, r ∉ db.rows .rights → db'.hasRow .groups r.groupId = true) ∧
      ∀ p ∈ db'.rows .permissions, p ∉ db.rows .permissions →
        p.relatedUser = .empty ∨ db'.hasRow .users p.relatedUser = true)
    ⟨fun h => ⟨h.1, h.2⟩, fun h => ⟨h.1, h.2⟩⟩

instance (db db' : Database) : Decidable (db.SparesNamed db') :=
  decidable_of_iff
    ((∀ r ∈ db'.rows .rights, r ∈ db.rows .rights →
        db.hasRow .groups r.groupId = true → db'.hasRow .groups r.groupId = true) ∧
      ∀ p ∈ db'.rows .permissions, p ∈ db.rows .permissions →
        db.hasRow .users p.relatedUser = true → db'.hasRow .users p.relatedUser = true)
    ⟨fun h => ⟨h.1, h.2⟩, fun h => ⟨h.1, h.2⟩⟩

instance (db db' : Database) : Decidable (db.Careful db') :=
  inferInstanceAs (Decidable (db.PutsExisting db' ∧ db.SparesNamed db'))

def appended (db : Database) (t : Table) (a : Assignment) : Database :=
  db.replace t (db.rows t ++ (t.insertedRow? (db.rows t) a).toList)

def takesLast (db : Database) (t : Table) (a : Assignment) : Bool :=
  !a.isEmpty && a.fits t.columns && (t.insertedRow? (db.rows t) a).any (fun r =>
    (db.rows t).all fun s => beforeOrSame t s r) && (db.appended t a).isIntact

/-- Such a row stays where it is put, so nothing has to be sorted. -/
theorem insertRow_of_takesLast (ho : db.IsOrdered) {t : Table} {a : Assignment}
    (h : db.takesLast t a = true) : db.insertRow t.name a = .ok (db.appended t a) := by
  simp only [takesLast, Bool.and_eq_true, Bool.not_eq_true', Option.any_eq_true] at h
  obtain ⟨⟨⟨hsome, hfits⟩, r, hr, hlast⟩, hintact⟩ := h
  have hsorted : (db.rows t ++ [r]).Pairwise fun r s => beforeOrSame t r s = true := by
    rw [List.pairwise_append]
    refine ⟨ho t, List.pairwise_singleton _ r, fun s hs r' hr' => ?_⟩
    rw [List.mem_singleton.1 hr']
    exact List.all_eq_true.1 hlast s hs
  have hchanged : db.replace t (ordered t (db.rows t ++ [r])) = db.appended t a := by
    rw [appended, hr, ordered, List.mergeSort_of_pairwise hsorted, Option.toList_some]
  have hname : tableNamed t.name = .ok t := by
    rw [tableNamed, Table.ofName?_name]
  have hcolumns : requireSome a = .ok () := by rw [requireSome, if_neg (by simp [hsome])]
  have hfit : requireFit t a = .ok () := by rw [requireFit, if_pos hfits]
  refine bind_eq_ok_iff.2 ⟨t, hname, bind_eq_ok_iff.2 ⟨(), hcolumns, bind_eq_ok_iff.2
    ⟨(), hfit, ?_⟩⟩⟩
  rw [hr]
  change (db.replace t (ordered t (db.rows t ++ [r]))).checked = _
  rw [hchanged, checked, if_pos hintact]

/-- The database after a change that sorts nothing: a row is put behind all others, or rows are
deleted. -/
def change? (db : Database) : Change → Option Database
  | .insert table [a] =>
    (Table.ofName? table).bind fun t => if db.takesLast t a then some (db.appended t a) else none
  | .delete table condition => some (db.apply (.delete table condition)).1
  | _ => none

theorem apply_of_change? (ho : db.IsOrdered) {c : Change} (h : db.change? c = some db') :
    (db.apply c).1 = db' := by
  unfold change? at h
  split at h
  · rename_i table a
    obtain ⟨t, ht, h⟩ := Option.bind_eq_some_iff.1 h
    split at h
    · rename_i htakes
      cases h
      obtain rfl : t.name = table := by
        have hfound := List.find?_some ht
        exact beq_iff_eq.1 hfound
      rw [apply, insertRows, insertRow_of_takesLast ho htakes]
      rfl
    · cases h
  · cases h
    rfl
  · cases h

def replay? (P : Database → Database → Prop) [∀ db db', Decidable (P db db')] :
    Database → List Change → Option Database
  | db, [] => some db
  | db, c :: cs =>
    (db.change? c).bind fun db' => if P db db' then replay? P db' cs else none

theorem along_of_replay? {P : Database → Database → Prop} [∀ db db', Decidable (P db db')]
    {cs : List Change} (ho : db.IsOrdered) (h : replay? P db cs = some db') :
    db.Along P cs ∧ db.after cs = db' ∧ db'.IsOrdered := by
  induction cs generalizing db with
  | nil =>
    cases h
    exact ⟨trivial, rfl, ho⟩
  | cons c cs ih =>
    obtain ⟨next, hnext, h⟩ := Option.bind_eq_some_iff.1 h
    split at h
    · rename_i hP
      obtain rfl := apply_of_change? ho hnext
      obtain ⟨halong, hafter, hordered⟩ := ih (ho.apply c) h
      exact ⟨⟨hP, halong⟩, hafter, hordered⟩
    · cases h

def arrivals : List Change :=
  [.insert "user".toList [[("login".toList, .text ['u'])]],
   .insert "group".toList [[("name".toList, .text ['g'])]],
   .insert "group".toList [[("name".toList, .text ['h'])]],
   .insert "attribute_definition".toList [[("key".toList, .text ['k'])]],
   .insert "attribute_permission".toList
     [[("key".toList, .text ['k']), ("group_id".toList, .int 2), ("can_read".toList, .int 1)]],
   .insert "object".toList [[("dhash".toList, .text ['p']), ("type".toList, .text "object".toList),
     ("upload_time".toList, .text "2021-01-05 00:00:00".toList)]],
   .insert "permission".toList [[("object_id".toList, .int 1), ("group_id".toList, .int 1),
     ("reason_type".toList, .text "added".toList), ("related_user_id".toList, .int 1)]]]

def clearance : List Change :=
  [.delete "attribute_permission".toList [("group_id".toList, .int 2)],
   .delete "permission".toList [("related_user_id".toList, .int 1)]]

def departures : List Change :=
  [.delete "group".toList [("name".toList, .text ['h'])],
   .delete "user".toList [("login".toList, .text ['u'])]]

def newGroup : Assignment := [("name".toList, .text ['n'])]

def newUser : Assignment := [("login".toList, .text ['n'])]

/-- After a run that clears away what names the second group and the user, a new group and a new
user get their ids again, but nothing of what they had. -/
theorem new_ids_start_bare_departures : ∃ db db₁ db₂,
    blank.after (arrivals ++ (clearance ++ departures)) = db ∧
    nextRowId .groups (db.rows .groups) = 2 ∧ nextRowId .users (db.rows .users) = 1 ∧
    db.insertRow Table.groups.name newGroup = .ok db₁ ∧
    db.insertRow Table.users.name newUser = .ok db₂ ∧
    (∃ g, (db₁.rows .groups).Perm (g :: db.rows .groups) ∧ db₁.StandsAlone g ∧
      db₁.GrantsNothing g) ∧
    ∃ u, (db₂.rows .users).Perm (u :: db.rows .users) ∧
      (∀ m ∈ db₂.rows .members, m.userId ≠ u.id) ∧ db₂.CreditsNothing u := by
  have hrun : (replay? Careful blank (arrivals ++ (clearance ++ departures))).any (fun db =>
      db.takesLast .groups newGroup && db.takesLast .users newUser &&
        nextRowId .groups (db.rows .groups) == 2 && nextRowId .users (db.rows .users) == 1) =
      true := by decide +kernel
  obtain ⟨db, hdb, hchecks⟩ := (Option.any_eq_true _ _).1 hrun
  simp only [Bool.and_eq_true, beq_iff_eq] at hchecks
  obtain ⟨⟨⟨hgroup, huser⟩, hgroupId⟩, huserId⟩ := hchecks
  obtain ⟨halong, rfl, hordered⟩ := along_of_replay? isOrdered_blank hdb
  have hinserted := insertRow_of_takesLast hordered hgroup
  have hinserted' := insertRow_of_takesLast hordered huser
  obtain ⟨g, hg, halone, hgrants⟩ := (new_ids_start_bare _ (by decide)).1 hinserted
  obtain ⟨u, hu, hmembers, hcredits⟩ := (new_ids_start_bare _ (by decide)).2 hinserted'
  exact ⟨_, _, _, rfl, hgroupId, huserId, hinserted, hinserted', ⟨g, hg, halone, hgrants halong⟩,
    u, hu, hmembers, hcredits halong⟩

def grantsRead (db : Database) (key : Text) (g : GroupRecord) : Bool :=
  (db.rows .rights).any (fun r => r.groupId == .int g.id) &&
    (db.attribute? key).toOption.any fun found => found.any fun a =>
      a.readableBy ((Viewer.ofUser ⟨0, []⟩).join g.group)

def creditsUpload (db : Database) (u : User) : Bool :=
  (db.rows .permissions).any (fun p => p.relatedUser == .int u.id) &&
    (Leaf.uploadedByCondition db.directory (.ofUser u) [] (.term u.login)).toOption.any fun e =>
      (db.rows .objects).any fun o => e.truth db (db.scope o) == .yes

/-- Without that the new group takes over the right of the one that had its id, and the new user the
upload, although every step of the run names only what exists. -/
theorem new_ids_take_over : ∃ db db₁ db₂,
    blank.Along PutsExisting (arrivals ++ departures) ∧
    blank.after (arrivals ++ departures) = db ∧
    db.insertRow Table.groups.name newGroup = .ok db₁ ∧
    db.insertRow Table.users.name newUser = .ok db₂ ∧
    (∃ g ∈ db₁.rows .groups, g ∉ db.rows .groups ∧ db₁.grantsRead ['k'] g = true) ∧
    ∃ u ∈ db₂.rows .users, u ∉ db.rows .users ∧ db₂.creditsUpload u = true := by
  have hrun : (replay? PutsExisting blank (arrivals ++ departures)).any (fun db =>
      db.takesLast .groups newGroup && db.takesLast .users newUser &&
        decide (∃ g ∈ (db.appended .groups newGroup).rows .groups, g ∉ db.rows .groups ∧
          (db.appended .groups newGroup).grantsRead ['k'] g = true) &&
        decide (∃ u ∈ (db.appended .users newUser).rows .users, u ∉ db.rows .users ∧
          (db.appended .users newUser).creditsUpload u = true)) = true := by decide +kernel
  obtain ⟨db, hdb, hchecks⟩ := (Option.any_eq_true _ _).1 hrun
  simp only [Bool.and_eq_true, decide_eq_true_eq] at hchecks
  obtain ⟨⟨⟨hgroup, huser⟩, hgrants⟩, hcredits⟩ := hchecks
  obtain ⟨halong, hafter, hordered⟩ := along_of_replay? isOrdered_blank hdb
  exact ⟨db, _, _, halong, hafter, insertRow_of_takesLast hordered hgroup,
    insertRow_of_takesLast hordered huser, hgrants, hcredits⟩

end Database

end SampleSearch
