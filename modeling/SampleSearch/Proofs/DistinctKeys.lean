import SampleSearch.Store.Lookup

/-!
# Rows found by their keys

In an intact database no two rows of a table share the value of a key. A row is then found by any
value of its keys, and every table lists its rows once.
-/

namespace SampleSearch

namespace Database

theorem sharesKey_comm (t : Table) (r s : t.Record) : sharesKey t r s = sharesKey t s r := by
  have hswap : ∀ as bs : List (List Cell),
      ((as.zip bs).any fun p => p.1 == p.2 && !p.1.contains .empty) =
        ((bs.zip as).any fun p => p.1 == p.2 && !p.1.contains .empty) := by
    intro as
    induction as with
    | nil => intro bs; cases bs <;> rfl
    | cons a as ih =>
      intro bs
      cases bs with
      | nil => rfl
      | cons b bs =>
        rw [List.zip_cons_cons, List.zip_cons_cons, List.any_cons, List.any_cons, ih bs]
        congr 1
        by_cases h : a = b
        · rw [h]
        · have hab : (a == b) = false := beq_eq_false_iff_ne.2 h
          have hba : (b == a) = false := beq_eq_false_iff_ne.2 fun hb => h hb.symm
          simp only [hab, hba, Bool.false_and]
  exact hswap (t.keys r) (t.keys s)

theorem eq_of_sharesKey {t : Table} {rows : List t.Record} (h : keysDistinct t rows = true)
    {r s : t.Record} (hr : r ∈ rows) (hs : s ∈ rows) (hk : sharesKey t r s = true) : r = s := by
  induction rows with
  | nil => simp at hr
  | cons a rows ih =>
    simp only [keysDistinct, Bool.and_eq_true, Bool.not_eq_true', List.any_eq_false] at h
    obtain ⟨hfirst, hrest⟩ := h
    rcases List.mem_cons.1 hr with rfl | hr'
    · rcases List.mem_cons.1 hs with rfl | hs'
      · rfl
      · exact absurd hk (hfirst s hs')
    · rcases List.mem_cons.1 hs with rfl | hs'
      · rw [sharesKey_comm] at hk
        exact absurd hk (hfirst r hr')
      · exact ih hrest hr' hs'

theorem nodup_of_keysDistinct {t : Table} {rows : List t.Record}
    (h : keysDistinct t rows = true) (hself : ∀ r, sharesKey t r r = true) : rows.Nodup := by
  induction rows with
  | nil => simp
  | cons a rows ih =>
    simp only [keysDistinct, Bool.and_eq_true, Bool.not_eq_true', List.any_eq_false] at h
    obtain ⟨hfirst, hrest⟩ := h
    refine List.nodup_cons.2 ⟨fun hmem => ?_, ih hrest⟩
    exact hfirst a hmem (hself a)

variable {db : Database} (hi : db.isIntact = true)

include hi

theorem keysDistinct_rows (t : Table) : keysDistinct t (db.rows t) = true :=
  ((isIntact_iff db).1 hi t).1

theorem nodup_objects : (db.rows .objects).Nodup :=
  nodup_of_keysDistinct (keysDistinct_rows hi .objects) fun r => by
    simp [sharesKey, Table.keys]

theorem object_eq_of_id {r s : ObjectRecord} (hr : r ∈ db.rows .objects)
    (hs : s ∈ db.rows .objects) (h : r.id = s.id) : r = s :=
  eq_of_sharesKey (t := .objects) (keysDistinct_rows hi .objects) hr hs (by
    simp [sharesKey, Table.keys, h])

theorem pairwise_ids : (db.rows .objects).Pairwise fun a b => a.id ≠ b.id := by
  refine (nodup_objects hi).imp_of_mem fun ha hb hne heq => ?_
  exact hne (object_eq_of_id hi ha hb heq)

theorem object_eq_of_dhash {r s : ObjectRecord} (hr : r ∈ db.rows .objects)
    (hs : s ∈ db.rows .objects) (h : r.dhash = s.dhash) : r = s :=
  eq_of_sharesKey (t := .objects) (keysDistinct_rows hi .objects) hr hs (by
    simp [sharesKey, Table.keys, h])

theorem find?_eq_some_iff {t : Table} {p : t.Record → Bool}
    (hp : ∀ r s, p r = true → p s = true → sharesKey t r s = true) {r : t.Record} :
    (db.rows t).find? p = some r ↔ r ∈ db.rows t ∧ p r = true := by
  constructor
  · intro h
    exact ⟨List.mem_of_find?_eq_some h, List.find?_some h⟩
  · rintro ⟨hr, hpr⟩
    cases hf : (db.rows t).find? p with
    | none => exact absurd hpr (List.find?_eq_none.1 hf r hr)
    | some s =>
      rw [eq_of_sharesKey (keysDistinct_rows hi t) (List.mem_of_find?_eq_some hf) hr
        (hp s r (List.find?_some hf) hpr)]

theorem user?_eq_some_iff {login : Text} {u : User} :
    db.user? login = some u ↔ u ∈ db.rows .users ∧ u.login = login := by
  have h := find?_eq_some_iff hi (t := .users) (p := fun u : User => u.login == login)
    (by intro r s hr hs; simp_all [sharesKey, Table.keys]) (r := u)
  simpa [user?] using h

theorem file?_eq_some_iff {id : Int} {r : FileRecord} :
    db.file? id = some r ↔ r ∈ db.rows .files ∧ r.id = id := by
  have h := find?_eq_some_iff hi (t := .files) (p := fun r : FileRecord => r.id == id)
    (by intro r s hr hs; simp_all [sharesKey, Table.keys]) (r := r)
  simpa [file?] using h

theorem config?_eq_some_iff {id : Int} {r : ConfigRecord} :
    db.config? id = some r ↔ r ∈ db.rows .configs ∧ r.id = id := by
  have h := find?_eq_some_iff hi (t := .configs) (p := fun r : ConfigRecord => r.id == id)
    (by intro r s hr hs; simp_all [sharesKey, Table.keys]) (r := r)
  simpa [config?] using h

theorem blob?_eq_some_iff {id : Int} {r : BlobRecord} :
    db.blob? id = some r ↔ r ∈ db.rows .blobs ∧ r.id = id := by
  have h := find?_eq_some_iff hi (t := .blobs) (p := fun r : BlobRecord => r.id == id)
    (by intro r s hr hs; simp_all [sharesKey, Table.keys]) (r := r)
  simpa [blob?] using h

end Database

end SampleSearch
