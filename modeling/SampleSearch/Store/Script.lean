import SampleSearch.Json.Printer
import SampleSearch.Json.Reader
import SampleSearch.Store.Basic

/-! # Scripts

A change can be written as a JSON object. It names a table and, by the kind of the change, the rows
to insert, the values to set and the cells that select rows. A repository is written as the changes
that make it.
-/

namespace SampleSearch

namespace Assignment

def ofJson? : Option Json → Option Assignment
  | some (.object members) =>
    members.mapM fun m => (Cell.ofJson? m.2).map fun c => (m.1, c)
  | some .null => some []
  | none => some []
  | some _ => none

end Assignment

namespace Change

def insertName : Text := "insert".toList

def updateName : Text := "update".toList

def deleteName : Text := "delete".toList

def ofJson? (j : Json) : Option Change := do
  let name ← j.getText? "do"
  if name = insertName then
    let rows ← (j.getArray "rows").mapM fun r => Assignment.ofJson? (some r)
    some (.insert (← j.getText? "table") rows)
  else if name = updateName then
    some (.update (← j.getText? "table") (← Assignment.ofJson? (j.get? "set"))
      (← Assignment.ofJson? (j.get? "where")))
  else if name = deleteName then
    some (.delete (← j.getText? "table") (← Assignment.ofJson? (j.get? "where")))
  else none

end Change

namespace Cell

/-- A cell as it is written into a script. An infinite number only stands in a column of whole
numbers, which reads it back from a numeral that is too large; broken texts are not stored. -/
def json : Cell → Json
  | empty => .null
  | int n => .int n
  | real negative size => .real negative size
  | infinite negative => .string (if negative then "-9e999".toList else "9e999".toList)
  | text t => .string t
  | broken _ => .null

end Cell

namespace Database

def rowJson (t : Table) (r : t.Record) : Json :=
  .object ((t.columns.zip (t.cells r)).map fun p => (p.1.name, p.2.json))

def tableJson (db : Database) (t : Table) : Json :=
  .object [("do".toList, .string Change.insertName), ("table".toList, .string t.name),
    ("rows".toList, .array ((db.rows t).map (rowJson t)))]

def json (db : Database) : List Json := Table.all.map db.tableJson

end Database

namespace Store

def applyJson? (db : Database) (j : Json) : Option Database := do
  match db.apply (← Change.ofJson? j) with
  | (changed, .ok _) => some changed
  | (_, .error _) => none

def ofChanges? (changes : List Json) : Option Store :=
  (changes.foldlM applyJson? Database.blank).map ready

/-- The text of a repository: one change on each line, and nothing for a bare one. -/
def fileText : Store → Text
  | bare => []
  | ready db => db.json.flatMap fun j => j.compact ++ ['\n']

def ofFileText? (lines : List Text) : Option Store :=
  match lines.filter fun l => !l.isEmpty with
  | [] => some bare
  | ls => (ls.mapM Json.read?).bind ofChanges?

end Store

end SampleSearch
