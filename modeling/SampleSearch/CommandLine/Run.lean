import SampleSearch.CommandLine.Invocation
import SampleSearch.Report.Payload
import SampleSearch.Search.Answer
import SampleSearch.Sql.Statement
import SampleSearch.Store.Basic

/-! # Runs

A run is given the repository in the file that the invocation names, if there is such a file. It
ends with an exit code, with what it writes, and with the repository that it leaves in the file.
Searches and explanations need the file, while the command that prepares a repository makes it. An
error is written as a result of its own: to humans on the error output, as JSON on the output.
-/

namespace SampleSearch

structure RunResult where
  exitCode : Nat
  output : Text
  errors : Text
  /-- The repository in the file afterwards. -/
  store : Option Store

namespace RunResult

def succeeded : Nat := 0

def failed : Nat := 1

/-- The exit code of arguments that make no sense. -/
def misused : Nat := 2

def printed (store : Option Store) (output : Text) : RunResult := ⟨succeeded, output, [], store⟩

end RunResult

def versionLine : Text := "malsearch 0.3.0".toList

/-- A JSON result on lines of its own. -/
def OutputFormat.document (f : OutputFormat) (stamp : Stamp) (data : Json) : Text :=
  lines [f.render (.envelope stamp data)]

def SearchReport.render (r : SearchReport) (f : OutputFormat) (stamp : Stamp) : Text :=
  if f.isJson then f.document stamp r.json else r.text

def StatementReport.render (r : StatementReport) (f : OutputFormat) (stamp : Stamp) : Text :=
  if f.isJson then f.document stamp r.json else r.text

/-- Tells that the repository in a file has been prepared. -/
def preparedText (path : Text) (f : OutputFormat) (stamp : Stamp) : Text :=
  if f.isJson then f.document stamp (.object [("database".toList, .string path)])
  else lines ["initialized ".toList ++ path]

namespace QueryArguments

def search (a : QueryArguments) (db : Database) : Except SearchError SearchReport := do
  let answer ← db.search a.login a.options a.query
  .ok ⟨answer.hits, a.query, answer.plan.kind, answer.total, answer.plan.limit⟩

def explain (a : QueryArguments) (db : Database) : Except SearchError StatementReport := do
  let p ← db.explained a.login a.options a.query
  .ok (.ofFragment a.query p.kind (.selection p))

end QueryArguments

namespace Invocation

/-- The database in a file, which must exist. -/
def existing (path : Text) : Option Store → Except SearchError Database
  | none => .error (.databaseNotFound path)
  | some s => s.database

/-- What a command writes, and the repository that it leaves in the file. -/
def perform (i : Invocation) (stamp : Stamp) (file : Option Store) :
    Except SearchError (Text × Option Store) := do
  match i.database with
  | none => .error .noDatabase
  | some path =>
    match i.command with
    | .initialise => .ok (preparedText path i.format stamp, some (file.getD .bare).prepared)
    | .search args =>
      let report ← args.search (← existing path file)
      .ok (report.render i.format stamp, file)
    | .explain args =>
      let report ← args.explain (← existing path file)
      .ok (report.render i.format stamp, file)

def refusal (i : Invocation) (stamp : Stamp) (file : Option Store) (e : SearchError) :
    RunResult :=
  let notice := ErrorNotice.ofError e
  if i.format.isJson then ⟨RunResult.failed, i.format.document stamp notice.json, [], file⟩
  else ⟨RunResult.failed, [], notice.text, file⟩

def result (i : Invocation) (stamp : Stamp) (file : Option Store) : RunResult :=
  match i.perform stamp file with
  | .ok (output, store) => .printed store output
  | .error e => i.refusal stamp file e

end Invocation

namespace Request

/-- The file that a request is about. -/
def path? : Request → Option Text
  | run i => i.database
  | _ => none

def result (stamp : Stamp) (file : Option Store) : Request → RunResult
  | run i => i.result stamp file
  | version => .printed file (lines [versionLine])
  | help => .printed file []
  | malformed => ⟨RunResult.misused, [], [], file⟩

end Request

end SampleSearch
