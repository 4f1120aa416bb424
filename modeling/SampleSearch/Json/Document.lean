import SampleSearch.Decimal.Real
import SampleSearch.Json.Escape
import SampleSearch.Json.Reader

/-! # Stored documents

A document in the database is a JSON text that a query looks into. Numbers and strings keep the
form in which they are written inside larger values besides the plain form in which they are
compared. A value found in a document becomes a text: a string itself, the two truth values by
name, a number in decimal, arrays and objects in their minified form, and null nothing at all.

A path is a dollar sign followed by labels, each behind a point and in quotes. A label names a
member of an object; there is no way to address the items of an array.
-/

namespace SampleSearch

/-- A string or the name of a member: as it stands in the document, and in strict form. -/
structure Quotation where
  source : Text
  written : Text
  deriving DecidableEq, Repr

namespace Quotation

def value (q : Quotation) : List Nat :=
  if q.source.contains '\\' then Escape.value q.source else q.source.codes

/-- Whether a name is the one of a label. The two are compared as they are written, or by what they
stand for if there is a backslash in one of them. -/
def names (q : Quotation) (label : Text) : Bool :=
  if label.contains '\\' || q.source.contains '\\' then
    Escape.name label == Escape.name q.source
  else label == q.source

end Quotation

inductive Document
  | null
  | bool (b : Bool)
  /-- There is no plain form if the number cannot be read. -/
  | number (written : Text) (plain : Option Text)
  | string (q : Quotation)
  | array (items : List Document)
  | object (members : List (Quotation × Document))
  deriving Repr

namespace Document

mutual

def minified : Document → Text
  | null => "null".toList
  | bool true => "true".toList
  | bool false => "false".toList
  | number written _ => written
  | string q => '"' :: q.written ++ ['"']
  | array items => '[' :: Text.joined [','] (minifiedItems items) ++ [']']
  | object members => '\x7b' :: Text.joined [','] (minifiedMembers members) ++ ['\x7d']

def minifiedItems : List Document → List Text
  | [] => []
  | d :: ds => minified d :: minifiedItems ds

def minifiedMembers : List (Quotation × Document) → List Text
  | [] => []
  | (q, d) :: ms => ('"' :: q.written ++ '"' :: ':' :: minified d) :: minifiedMembers ms

end

/-- Code points of the text of a value; null has none, and a number that cannot be read fails. -/
def codes? : Document → Option (Option (List Nat))
  | null => some none
  | number _ plain => plain.map fun t => some t.codes
  | string q => some (some q.value)
  | d => some (some (minified d).codes)

/-- Whether a label ends before its closing quote, which makes it no label. -/
def isTorn (label : Text) : Bool := label.contains (Char.ofNat 0)

/-- The value at a list of labels; of members with one name the first counts. Looking up fails at a
label that is torn. -/
def find? : List Text → Document → Option (Option Document)
  | [], d => some (some d)
  | label :: rest, d =>
    if isTorn label then none
    else
      match d with
      | object members =>
        match members.find? fun m => m.1.names label with
        | some m => find? rest m.2
        | none => some none
      | _ => some none

def pathText (labels : List Text) : Text :=
  '$' :: labels.flatMap fun l => '.' :: '"' :: l ++ ['"']

def labelRest? : Text → Option (Text × Text)
  | [] => none
  | '"' :: s => some ([], s)
  | c :: s => (labelRest? s).map fun p => (c :: p.1, p.2)

def labels? : Nat → Text → Option (List Text)
  | _, [] => some []
  | n + 1, '.' :: '"' :: s => do
    let (label, rest) ← labelRest? s
    let labels ← labels? n rest
    some (label :: labels)
  | _, _ => none

def pathLabels? : Text → Option (List Text)
  | '$' :: s => labels? s.length s
  | _ => none

end Document

end SampleSearch
