import SampleSearch.Error
import SampleSearch.Store.Database

/-! # Changes

Rows are inserted, updated and deleted with cells given by the names of columns. A change either
leaves the database intact or is refused and changes nothing. Rows are inserted one by one, so
those in front of a refused one stay.
-/

namespace SampleSearch

abbrev Assignment := List (Text × Cell)

inductive Change
  | insert (table : Text) (rows : List Assignment)
  | update (table : Text) (values condition : Assignment)
  | delete (table : Text) (condition : Assignment)
  deriving DecidableEq, Repr

namespace Assignment

def find? (a : Assignment) (name : Text) : Option Cell :=
  (List.find? (fun p => p.1 == name) a).map Prod.snd

def fits (a : Assignment) (columns : List ColumnSpec) : Bool :=
  a.all fun p => columns.any fun c => c.name == p.1

def inserted (a : Assignment) (nextRowId : Int) (c : ColumnSpec) : Cell :=
  let cell := ((a.find? c.name).getD c.absent).convert c.columnClass
  if c.columnClass = .rowId ∧ cell = .empty then .int nextRowId else cell

def updated (a : Assignment) (c : ColumnSpec) (old : Cell) : Cell :=
  match a.find? c.name with
  | none => old
  | some new => new.convert c.columnClass

def selects (a : Assignment) (columns : List ColumnSpec) (cells : List Cell) : Bool :=
  (columns.zip cells).all fun p =>
    match a.find? p.1.name with
    | none => true
    | some wanted => p.2.agrees (wanted.convert p.1.columnClass)

end Assignment

namespace Table

/-- The row of a list of cells if every required cell is there and of the right type. -/
def row? (t : Table) (cells : List Cell) : Option t.Record :=
  if (t.columns.zip cells).all fun p => !p.1.isRequired || p.2 != .empty then t.ofCells? cells
  else none

def insertedRow? (t : Table) (rows : List t.Record) (a : Assignment) : Option t.Record :=
  t.row? (t.columns.map (a.inserted (Database.nextRowId t rows)))

def updatedRow? (t : Table) (a : Assignment) (r : t.Record) : Option t.Record :=
  t.row? ((t.columns.zip (t.cells r)).map fun p => a.updated p.1 p.2)

end Table

namespace Database

def checked (db : Database) : Except SearchError Database :=
  if db.isIntact then .ok db else storageFailure "constraint failed"

def tableNamed (name : Text) : Except SearchError Table :=
  match Table.ofName? name with
  | some t => .ok t
  | none => storageFailure "no such table"

def requireFit (t : Table) (a : Assignment) : Except SearchError Unit :=
  if a.fits t.columns then .ok () else storageFailure "no such column"

def requireSome (a : Assignment) : Except SearchError Unit :=
  if a.isEmpty then storageFailure "no columns given" else .ok ()

def insertRow (db : Database) (table : Text) (a : Assignment) : Except SearchError Database := do
  let t ← tableNamed table
  requireSome a
  requireFit t a
  match t.insertedRow? (db.rows t) a with
  | none => storageFailure "a cell is missing or of the wrong type"
  | some r => (db.replace t (ordered t (db.rows t ++ [r]))).checked

/-- Inserts rows up to the first one that is refused. The result is the database with the rows in
front of it, and the number of all rows or the reason. -/
def insertRows (db : Database) (table : Text) (count : Nat) :
    List Assignment → Database × Except SearchError Nat
  | [] => (db, .ok count)
  | a :: rows =>
    match db.insertRow table a with
    | .error e => (db, .error e)
    | .ok changed => changed.insertRows table (count + 1) rows

def selected (t : Table) (condition : Assignment) (r : t.Record) : Bool :=
  condition.selects t.columns (t.cells r)

def updateRows (db : Database) (t : Table) (values condition : Assignment) :
    Except SearchError (Database × Nat) := do
  requireSome values
  requireFit t values
  requireFit t condition
  let rows := (db.rows t).mapM fun r =>
    if selected t condition r then t.updatedRow? values r else some r
  match rows with
  | none => storageFailure "a cell is missing or of the wrong type"
  | some rows =>
    let changed ← (db.replace t (ordered t rows)).checked
    .ok (changed, (db.rows t).countP (selected t condition))

/-- Deletes the selected rows with all that refer to them, and tells how many were selected. -/
def deleteRows (db : Database) (t : Table) (condition : Assignment) :
    Except SearchError (Database × Nat) := do
  requireFit t condition
  let kept := (db.rows t).filter fun r => !selected t condition r
  let changed ← (db.replace t kept).prune.checked
  .ok (changed, (db.rows t).countP (selected t condition))

/-- A refused change leaves the database as it is. -/
def settle (db : Database) (result : Except SearchError (Database × Nat)) :
    Database × Except SearchError Nat :=
  match result with
  | .error e => (db, .error e)
  | .ok (changed, n) => (changed, .ok n)

/-- Applies a change and tells the number of rows that it concerns. -/
def apply (db : Database) : Change → Database × Except SearchError Nat
  | .insert table rows => db.insertRows table 0 rows
  | .update table values condition =>
    db.settle ((tableNamed table).bind fun t => db.updateRows t values condition)
  | .delete table condition =>
    db.settle ((tableNamed table).bind fun t => db.deleteRows t condition)

end Database

end SampleSearch
