import SampleSearch.Kind

/-! # Errors

An error is the cause of a refused query or of a failed access to the repository. Its report has a
code, a message and advice. An entity that is missing and one that the user must not see are the
same cause, so an error never tells them apart.
-/

namespace SampleSearch

inductive ErrorKind
  | parse
  | unsupportedGrammar
  | fieldNotQueryable
  | multipleKinds
  | notFound
  | storage
  | document
  | io
  deriving DecidableEq, Repr

namespace ErrorKind

def code : ErrorKind → Text
  | parse => "MWS-E101".toList
  | unsupportedGrammar => "MWS-E102".toList
  | fieldNotQueryable => "MWS-E103".toList
  | multipleKinds => "MWS-E104".toList
  | notFound => "MWS-E105".toList
  | storage => "MWS-E901".toList
  | document => "MWS-E902".toList
  | io => "MWS-E903".toList

/-- Whether the query itself is at fault. -/
def isClient : ErrorKind → Bool
  | storage => false
  | document => false
  | io => false
  | _ => true

def severity (k : ErrorKind) : Text :=
  if k.isClient then "warning".toList else "error".toList

/-- What stands in front of a message of this kind. -/
def heading : ErrorKind → Text
  | parse => "Parse error: ".toList
  | unsupportedGrammar => "Unsupported grammar: ".toList
  | fieldNotQueryable => "Field not queryable: ".toList
  | multipleKinds => "Multiple object types in query: ".toList
  | notFound => []
  | storage => "SQLite error: ".toList
  | document => "JSON error: ".toList
  | io => "I/O error: ".toList

def remediation : ErrorKind → Option Text
  | parse => some "Check quoting, parentheses and range brackets in the query.".toList
  | unsupportedGrammar =>
    some "Ranges and wildcards are only allowed on fields that support them.".toList
  | fieldNotQueryable =>
    some "Prefix every term with a known field, e.g. file.name:foo or tag:bar.".toList
  | multipleKinds =>
    some "Search one object type at a time (file, static, blob or object).".toList
  | notFound => none
  | storage => some "The database may be locked or missing its schema. Try init-db.".toList
  | document => some "A stored JSON document could not be decoded.".toList
  | io => some "Check file permissions and disk space.".toList

end ErrorKind

/-- What is told about an error. -/
structure ErrorReport where
  kind : ErrorKind
  message : Text
  /-- Number of code points in front of the place of a parse error. -/
  offset : Option Nat
  deriving DecidableEq, Repr

namespace ErrorReport

def text (r : ErrorReport) : Text := r.kind.heading ++ r.message

end ErrorReport

/-- Why a text is no query. -/
inductive SyntaxFault
  | emptyQuery
  | unexpectedEnd
  | unexpected (c : Char)
  | unexpectedAfterField (c : Char)
  | unexpectedKeyword (word : Text)
  | missingValue
  | emptyGroup
  | unclosedGroup
  | missingTo
  | unclosedRange
  | tooDeep
  | misplacedTilde
  | missingBoost
  | danglingEscape
  | missingTerm
  | unclosedQuote
  | unclosedRegex
  deriving DecidableEq, Repr

def SyntaxFault.text : SyntaxFault → Text
  | emptyQuery => "Query cannot be empty".toList
  | unexpectedEnd => "Unexpected end of query".toList
  | unexpected c => "Unexpected ".toList ++ Text.quoted [c]
  | unexpectedAfterField c => "Unexpected ".toList ++ Text.quoted [c] ++ " after field name".toList
  | unexpectedKeyword word => "Unexpected keyword ".toList ++ Text.quoted word
  | missingValue => "Missing value after field name".toList
  | emptyGroup => "Empty group".toList
  | unclosedGroup => "Missing closing parenthesis".toList
  | missingTo => "Expected 'TO' in range".toList
  | unclosedRange => "Expected ']' or '\x7d' to close range".toList
  | tooDeep => "Query is nested too deeply".toList
  | misplacedTilde => "'~' must follow a term or a phrase".toList
  | missingBoost => "'^' must be followed by a number".toList
  | danglingEscape => "Dangling escape character".toList
  | missingTerm => "Expected a term".toList
  | unclosedQuote => "Missing closing quote".toList
  | unclosedRegex => "Missing closing '/' for regex".toList

inductive SearchError
  | badSyntax (fault : SyntaxFault) (offset : Nat)
  | unsupportedNode (name : Text)
  | rangeUnsupported (path : Text)
  | exclusiveRange (path : Text)
  | wildcardUnsupported (path : Text)
  | notNumeric (path value : Text)
  | numberOutOfRange (path value : Text)
  | notADate (path value : Text)
  | missingField
  | emptySegment (path : Text)
  | missingFieldName (path : Text)
  | unknownField (path : Text) (kind : Kind)
  | noSubfields (name : Text)
  | missingAttributeKey (path : Text)
  | badLabel (segment : Text)
  | hiddenWildcard
  | kindConflict (bound other : Kind)
  | noSuchAttribute (key : Text)
  | noSuchGroup (name : Text)
  | noSuchUser (login : Text)
  | noSuchObject (dhash : Text)
  | storageFault (message : Text)
  | malformedCapabilities
  | noDatabase
  | databaseNotFound (path : Text)
  deriving DecidableEq, Repr

namespace SearchError

def kind : SearchError → ErrorKind
  | badSyntax _ _ => .parse
  | unsupportedNode _ => .unsupportedGrammar
  | rangeUnsupported _ => .unsupportedGrammar
  | exclusiveRange _ => .unsupportedGrammar
  | wildcardUnsupported _ => .unsupportedGrammar
  | notNumeric _ _ => .unsupportedGrammar
  | numberOutOfRange _ _ => .unsupportedGrammar
  | notADate _ _ => .unsupportedGrammar
  | missingField => .fieldNotQueryable
  | emptySegment _ => .fieldNotQueryable
  | missingFieldName _ => .fieldNotQueryable
  | unknownField _ _ => .fieldNotQueryable
  | noSubfields _ => .fieldNotQueryable
  | missingAttributeKey _ => .fieldNotQueryable
  | badLabel _ => .fieldNotQueryable
  | hiddenWildcard => .fieldNotQueryable
  | kindConflict _ _ => .multipleKinds
  | noSuchAttribute _ => .notFound
  | noSuchGroup _ => .notFound
  | noSuchUser _ => .notFound
  | noSuchObject _ => .notFound
  | storageFault _ => .storage
  | malformedCapabilities => .document
  | noDatabase => .io
  | databaseNotFound _ => .io

def message : SearchError → Text
  | badSyntax fault offset =>
    fault.text ++ " (at character ".toList ++ Text.ofNat offset ++ [')']
  | unsupportedNode name => name ++ " is not supported".toList
  | rangeUnsupported path =>
    "Range queries are not supported for field ".toList ++ Text.quoted path
  | exclusiveRange path => "Exclusive ranges are not allowed for field ".toList ++ Text.quoted path
  | wildcardUnsupported path => "Wildcards are not allowed for field ".toList ++ Text.quoted path
  | notNumeric path value =>
    "Field ".toList ++ Text.quoted path ++ " accepts only numeric values, got ".toList ++
      Text.quoted value
  | numberOutOfRange path value =>
    "Value ".toList ++ Text.quoted value ++ " is out of range for field ".toList ++
      Text.quoted path
  | notADate path value =>
    "Field ".toList ++ Text.quoted path ++
      " expects a date in YYYY-MM-DD[ HH:MM[:SS]] format, got ".toList ++ Text.quoted value
  | missingField => "You must specify a field".toList
  | emptySegment path =>
    "Field ".toList ++ Text.quoted path ++ " contains an empty path segment".toList
  | missingFieldName path => "Missing field name after ".toList ++ Text.quoted path
  | unknownField path kind =>
    "Field ".toList ++ Text.quoted path ++ " is not queryable for ".toList ++ kind.text ++
      " objects".toList
  | noSubfields name => "Field ".toList ++ Text.quoted name ++ " doesn't have subfields".toList
  | missingAttributeKey path => "Missing attribute key in ".toList ++ Text.quoted path
  | badLabel segment => "Invalid JSON path segment ".toList ++ Text.quoted segment
  | hiddenWildcard => "Wildcards are not allowed for hidden attributes".toList
  | kindConflict bound other =>
    "Can't search for ".toList ++ bound.text ++ " and ".toList ++ other.text ++
      " objects in the same query".toList
  | noSuchAttribute key => "No such attribute: ".toList ++ key
  | noSuchGroup name => "No such group: ".toList ++ name
  | noSuchUser login => "No such user: ".toList ++ login
  | noSuchObject dhash => "No such object: ".toList ++ dhash
  | storageFault message => message
  | malformedCapabilities => "capabilities are not a list of names".toList
  | noDatabase => "No database given. Use --db PATH.".toList
  | databaseNotFound path => "Database not found: ".toList ++ path

def offset : SearchError → Option Nat
  | badSyntax _ offset => some offset
  | _ => none

def report (e : SearchError) : ErrorReport := ⟨e.kind, e.message, e.offset⟩

end SearchError

/-- A failed access to the repository. -/
def storageFailure {α : Type} (reason : String) : Except SearchError α :=
  .error (.storageFault reason.toList)

end SampleSearch
