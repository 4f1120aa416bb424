import SampleSearch.Json.Printer

/-! # Formats of output

Results are shown to humans line by line, or as JSON in one line or indented. A JSON result stands
in an envelope that tells which tool made it and when.
-/

namespace SampleSearch

inductive OutputFormat
  | human
  | json
  | pretty
  deriving DecidableEq, Repr

namespace OutputFormat

def all : List OutputFormat := [human, json, pretty]

def name : OutputFormat → Text
  | human => "human".toList
  | json => "json".toList
  | pretty => "pretty".toList

def ofName? (name : Text) : Option OutputFormat := all.find? fun f => f.name == name

theorem ofName?_name (f : OutputFormat) : ofName? f.name = some f := by cases f <;> decide

def isJson (f : OutputFormat) : Bool := f != human

/-- A JSON value in a format; only the pretty one is indented. -/
def render (f : OutputFormat) (j : Json) : Text :=
  match f with
  | pretty => j.pretty
  | _ => j.compact

end OutputFormat

/-- What marks a single run of the tool. -/
structure Stamp where
  executionId : Text
  timestamp : Text
  deriving DecidableEq, Repr

namespace Json

def schemaVersion : Text := "1.0.0".toList

def toolName : Text := "malsearch".toList

/-- A result in its envelope. -/
def envelope (stamp : Stamp) (data : Json) : Json :=
  .object [("schema_version".toList, .string schemaVersion),
    ("execution_id".toList, .string stamp.executionId), ("tool".toList, .string toolName),
    ("timestamp".toList, .string stamp.timestamp), ("data".toList, data)]

end Json

end SampleSearch
