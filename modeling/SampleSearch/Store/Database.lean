import SampleSearch.Store.Table

/-! # Databases

A database holds the rows of every table. It is intact if no two rows of a table share the value
of a key and every row that is referred to exists. Rows with ids are kept in the order of their
ids, all others in the order of their insertion.
-/

namespace SampleSearch

structure Database where
  rows : (t : Table) → List t.Record

namespace Database

def blank : Database := ⟨fun _ => []⟩

instance : Inhabited Database := ⟨blank⟩

def replace (db : Database) (t : Table) (rows : List t.Record) : Database :=
  ⟨fun u => if h : u = t then h ▸ rows else db.rows u⟩

@[simp] theorem rows_blank (t : Table) : blank.rows t = [] := rfl

@[simp] theorem rows_replace_self (db : Database) (t : Table) (rows : List t.Record) :
    (db.replace t rows).rows t = rows := by simp [replace]

theorem rows_replace_of_ne (db : Database) {t u : Table} (h : u ≠ t) (rows : List t.Record) :
    (db.replace t rows).rows u = db.rows u := by simp [replace, h]

/-- Whether two rows share the value of a key; an empty value is not shared. -/
def sharesKey (t : Table) (r s : t.Record) : Bool :=
  ((t.keys r).zip (t.keys s)).any fun p => p.1 == p.2 && !p.1.contains .empty

def keysDistinct (t : Table) : List t.Record → Bool
  | [] => true
  | r :: rs => !rs.any (sharesKey t r) && keysDistinct t rs

def hasRow (db : Database) (t : Table) (key : Cell) : Bool :=
  (db.rows t).any fun r => (t.keys r).head? == some [key]

def isAnchored (db : Database) (t : Table) (r : t.Record) : Bool :=
  (t.references r).all fun p => db.hasRow p.1 p.2

def isIntact (db : Database) : Bool :=
  Table.all.all fun t => keysDistinct t (db.rows t) && (db.rows t).all (db.isAnchored t)

theorem isIntact_iff (db : Database) :
    db.isIntact = true ↔
      ∀ t, keysDistinct t (db.rows t) = true ∧ ∀ r ∈ db.rows t, db.isAnchored t r = true := by
  simp [isIntact, Table.mem_all]

theorem isIntact_blank : blank.isIntact = true := by decide

/-- Drops the rows of a table that have lost a row they refer to. -/
def pruneTable (db : Database) (t : Table) : Database :=
  db.replace t ((db.rows t).filter (db.isAnchored t))

/-- Drops all rows that have lost a row they refer to. Every table comes behind those that it
refers to, so one pass is enough. -/
def prune (db : Database) : Database := Table.all.foldl pruneTable db

def beforeOrSame (t : Table) (r s : t.Record) : Bool :=
  match t.rowId? r, t.rowId? s with
  | some i, some j => i ≤ j
  | _, _ => true

def ordered (t : Table) (rows : List t.Record) : List t.Record := rows.mergeSort (beforeOrSame t)

/-- The id of a new row: one behind the largest id. -/
def nextRowId (t : Table) (rows : List t.Record) : Int :=
  match (rows.filterMap t.rowId?).max? with
  | none => 1
  | some i => i + 1

end Database

end SampleSearch
