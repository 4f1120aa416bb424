import SampleSearch.Error
import SampleSearch.Report.Format
import SampleSearch.Search.Hit
import SampleSearch.Sql.Fragment

/-! # Results

What a run of the tool has to tell: the hits of a search, the statement that a query is compiled to,
or an error with its advice. All of them have a JSON form and a form for humans.
-/

namespace SampleSearch

structure SearchReport where
  hits : List Hit
  query : Text
  kind : Kind
  total : Nat
  limit : Nat

structure StatementReport where
  query : Text
  kind : Kind
  sql : Text
  parameters : List Json
  /-- The steps that the database announces for the statement. -/
  steps : List Text

structure ErrorNotice where
  code : Text
  severity : Text
  message : Text
  offset : Option Nat
  remediation : Option Text
  deriving DecidableEq, Repr

def totalLine (total : Nat) : Text := "total: ".toList ++ Text.ofNat total

/-- Lines, each with its end. -/
def lines (ls : List Text) : Text := ls.flatMap fun l => l ++ ['\n']

def Parameter.json : Parameter → Json
  | int n => .int n
  | text t => .string t

namespace SearchReport

def json (r : SearchReport) : Json :=
  .object [("results".toList, .array (r.hits.map Hit.json)), ("query".toList, .string r.query),
    ("object_type".toList, .string r.kind.resultName), ("total_count".toList, .ofNat r.total),
    ("limit".toList, .ofNat r.limit)]

def text (r : SearchReport) : Text := lines (totalLine r.total :: r.hits.map Hit.line)

end SearchReport

namespace StatementReport

/-- The report of a statement whose steps the database does not announce. -/
def ofFragment (query : Text) (kind : Kind) (f : Fragment) : StatementReport :=
  ⟨query, kind, f.text, f.parameters.map Parameter.json, []⟩

def json (r : StatementReport) : Json :=
  .object [("query".toList, .string r.query),
    ("object_type".toList, .string r.kind.resultName), ("sql".toList, .string r.sql),
    ("params".toList, .array r.parameters),
    ("plan".toList, .array (r.steps.map .string))]

def parameterLine (p : Json × Nat) : Text :=
  '?' :: Text.ofNat (p.2 + 1) ++ " = ".toList ++ p.1.compact

def text (r : StatementReport) : Text :=
  lines (r.sql :: [] :: r.parameters.zipIdx.map parameterLine ++
    [] :: r.steps.map fun s => "plan: ".toList ++ s)

end StatementReport

namespace ErrorNotice

def ofReport (r : ErrorReport) : ErrorNotice :=
  ⟨r.kind.code, r.kind.severity, r.text, r.offset, r.kind.remediation⟩

def ofError (e : SearchError) : ErrorNotice := ofReport e.report

/-- An offset that is missing is left out, advice that is missing is null. -/
def json (n : ErrorNotice) : Json :=
  .object ([("code".toList, .string n.code), ("error".toList, .string n.severity),
    ("message".toList, .string n.message)] ++
    (match n.offset with
      | none => []
      | some k => [("offset".toList, .ofNat k)]) ++
    [("remediation".toList, .ofOption .string n.remediation)])

def text (n : ErrorNotice) : Text :=
  lines (("ERROR [".toList ++ n.code ++ "]: ".toList ++ n.message) ::
    n.remediation.toList.map fun r => "Hint: ".toList ++ r)

end ErrorNotice

end SampleSearch
