import SampleSearch.Compile.Plan
import SampleSearch.Report.Format

/-! # Invocations

An invocation names a database, a format of output and a command. Options have the form `--name
value` or `--name=value`, where a value of its own may not start with a hyphen unless it is nothing
else. The options of the database and the format stand in front of the command or behind it, and
the place behind it wins; all others belong to one command. No option occurs twice in one place.
-/

namespace SampleSearch

structure QueryArguments where
  query : Text
  login : Text
  options : SearchOptions
  deriving DecidableEq, Repr

inductive Command
  | search (args : QueryArguments)
  | explain (args : QueryArguments)
  | initialise
  deriving DecidableEq, Repr

structure Invocation where
  format : OutputFormat
  database : Option Text
  command : Command
  deriving DecidableEq, Repr

inductive Request
  | run (i : Invocation)
  | version
  | help
  | malformed
  deriving DecidableEq, Repr

inductive CommandName
  | search
  | explain
  | initialise
  | help
  deriving DecidableEq, Repr

def CommandName.ofText? (t : Text) : Option CommandName :=
  if t = "search".toList then some search
  else if t = "explain".toList then some explain
  else if t = "init-db".toList then some initialise
  else if t = "help".toList then some help
  else none

inductive OptionName
  | database
  | output
  | query
  | user
  | kind
  | limit
  | olderThan
  | sort
  deriving DecidableEq, Repr

namespace OptionName

def all : List OptionName := [database, output, query, user, kind, limit, olderThan, sort]

def text : OptionName → Text
  | database => "db".toList
  | output => "output".toList
  | query => "query".toList
  | user => "user".toList
  | kind => "type".toList
  | limit => "limit".toList
  | olderThan => "older-than".toList
  | sort => "sort".toList

/-- Whether the option stands in any place; all others need a command with a query. -/
def isGlobal : OptionName → Bool
  | database => true
  | output => true
  | _ => false

def belongsTo (o : OptionName) : Option CommandName → Bool
  | some .search => true
  | some .explain => true
  | _ => o.isGlobal

end OptionName

def SortOrder.ofName? (t : Text) : Option SortOrder :=
  if t = "newest".toList then some .newest
  else if t = "oldest".toList then some .oldest
  else none

/-- A whole number with an optional plus sign, from one to the largest limit. -/
def limit? (t : Text) : Option Nat := do
  let digits := match t with
    | '+' :: s => s
    | s => s
  let n ← Text.nat? digits
  if 1 ≤ n && n ≤ SearchOptions.maxLimit then some n else none

namespace OptionName

def accepts (o : OptionName) (value : Text) : Bool :=
  match o with
  | database => !value.isEmpty
  | output => (OutputFormat.ofName? value).isSome
  | query => true
  | user => true
  | kind => (Kind.ofAlias value).isSome
  | limit => (limit? value).isSome
  | olderThan => true
  | sort => (SortOrder.ofName? value).isSome

end OptionName

abbrev GivenOptions := List (OptionName × Text)

namespace GivenOptions

def value? (g : GivenOptions) (o : OptionName) : Option Text :=
  (List.find? (fun p => p.1 == o) g).map Prod.snd

/-- The options of a search, where those that are missing have their usual value. -/
def searchOptions (g : GivenOptions) : SearchOptions where
  kind := (g.value? .kind).bind Kind.ofAlias
  limit := ((g.value? .limit).bind limit?).getD SearchOptions.maxLimit
  sort := ((g.value? .sort).bind SortOrder.ofName?).getD .newest
  olderThan := g.value? .olderThan

def queryArguments? (g : GivenOptions) : Option QueryArguments := do
  some ⟨← g.value? .query, ← g.value? .user, g.searchOptions⟩

def command? (g : GivenOptions) : CommandName → Option Command
  | .search => g.queryArguments?.map .search
  | .explain => g.queryArguments?.map .explain
  | .initialise => some .initialise
  | .help => none

end GivenOptions

/-- One argument, or two of them for an option and its value. -/
inductive Argument
  | given (o : OptionName) (value : Text)
  | version
  | help
  /-- Two hyphens, behind which nothing may follow. -/
  | finish
  | word (t : Text)
  | unknown
  deriving DecidableEq, Repr

namespace Argument

def isValue : Text → Bool
  | ['-'] => true
  | '-' :: _ => false
  | _ => true

def splitLong (t : Text) : Text × Option Text :=
  match t.dropWhile (· != '=') with
  | [] => (t, none)
  | _ :: value => (t.takeWhile (· != '='), some value)

def long (place : Option CommandName) (t : Text) (rest : List Text) : Argument × List Text :=
  match splitLong t with
  | (name, attached) =>
    if name = "version".toList ∧ place = none ∧ attached = none then (version, rest)
    else if name = "help".toList ∧ attached = none then (help, rest)
    else
      match OptionName.all.find? fun o => o.text == name && o.belongsTo place, attached, rest with
      | none, _, _ => (unknown, rest)
      | some o, some value, rest => (given o value, rest)
      | some o, none, value :: rest => (if isValue value then given o value else unknown, rest)
      | some _, none, [] => (unknown, [])

/-- Reads the first of a list of arguments, with a value behind it if it takes one. -/
def read (place : Option CommandName) (first : Text) (rest : List Text) : Argument × List Text :=
  match first with
  | ['-', '-'] => (finish, rest)
  | '-' :: '-' :: t => long place t rest
  | '-' :: 'h' :: _ => (help, rest)
  | '-' :: 'V' :: _ => (if place = none then version else unknown, rest)
  | '-' :: _ :: _ => (unknown, rest)
  | t => (word t, rest)

theorem length_long_le (place : Option CommandName) (t : Text) (rest : List Text) :
    (long place t rest).2.length ≤ rest.length := by
  unfold long
  split
  split
  · simp
  · split
    · simp
    · split <;> simp

theorem length_read_le (place : Option CommandName) (first : Text) (rest : List Text) :
    (read place first rest).2.length ≤ rest.length := by
  unfold read
  split
  · simp
  · exact length_long_le _ _ _
  · simp
  · simp
  · simp
  · simp

end Argument

namespace Request

/-- Adds an option, which must be the first of its name in its place and have a proper value. -/
def add? (g : GivenOptions) (o : OptionName) (value : Text) : Option GivenOptions :=
  if (g.value? o).isNone && o.accepts value then some (g ++ [(o, value)]) else none

def ofOptions (before : GivenOptions) (name : CommandName) (behind : GivenOptions) : Request :=
  match behind.command? name with
  | none => malformed
  | some command =>
    let value (o : OptionName) : Option Text := (behind.value? o).or (before.value? o)
    run ⟨((value .output).bind OutputFormat.ofName?).getD .human, value .database, command⟩

def behindCommand (before : GivenOptions) (name : CommandName) (g : GivenOptions) :
    List Text → Request
  | [] => ofOptions before name g
  | first :: rest =>
    match h : Argument.read (some name) first rest with
    | (.given o value, left) =>
      have : left.length ≤ rest.length := by
        have hl := Argument.length_read_le (some name) first rest
        rwa [h] at hl
      match add? g o value with
      | none => malformed
      | some g => behindCommand before name g left
    | (.help, _) => help
    | (.finish, left) => if left.isEmpty then ofOptions before name g else malformed
    | _ => malformed
termination_by arguments => arguments.length

/-- The help command takes at most the name of another command. -/
def helpOn : List Text → Request
  | [] => help
  | [t] => if (CommandName.ofText? t).isSome then help else malformed
  | _ => malformed

def inFront (g : GivenOptions) : List Text → Request
  | [] => malformed
  | first :: rest =>
    match h : Argument.read none first rest with
    | (.given o value, left) =>
      have : left.length ≤ rest.length := by
        have hl := Argument.length_read_le none first rest
        rwa [h] at hl
      match add? g o value with
      | none => malformed
      | some g => inFront g left
    | (.version, _) => version
    | (.help, _) => help
    | (.word t, left) =>
      match CommandName.ofText? t with
      | none => malformed
      | some .help => helpOn left
      | some name => behindCommand g name [] left
    | _ => malformed
termination_by arguments => arguments.length

def ofArguments (arguments : List Text) : Request := inFront [] arguments

end Request

end SampleSearch
