import SampleSearch.Condition.Basic

/-! # Statements for the database

A condition is rendered as a fragment: a text with a placeholder for every value, and the values
in the order of their placeholders. No value becomes part of the text. Conjunctions and
disjunctions stand in parentheses, and so does what is negated.
-/

namespace SampleSearch

/-- A value bound to a placeholder. -/
inductive Parameter
  | int (n : Int)
  | text (t : Text)
  deriving DecidableEq, Repr

namespace Literal

def parameter : Literal → Parameter
  | text t => .text t
  | int n => .int n
  | moment m => .text m.text

end Literal

structure Fragment where
  text : Text
  parameters : List Parameter
  deriving DecidableEq, Repr

namespace Fragment

def plain (t : Text) : Fragment := ⟨t, []⟩

def placeholder (p : Parameter) : Fragment := ⟨['?'], [p]⟩

def append (f g : Fragment) : Fragment := ⟨f.text ++ g.text, f.parameters ++ g.parameters⟩

instance : Append Fragment := ⟨append⟩

@[simp] theorem text_append (f g : Fragment) : (f ++ g).text = f.text ++ g.text := rfl

@[simp] theorem parameters_append (f g : Fragment) :
    (f ++ g).parameters = f.parameters ++ g.parameters := rfl

def joined (separator : Text) : List Fragment → Fragment
  | [] => plain []
  | [f] => f
  | f :: fs => f ++ plain separator ++ joined separator fs

def parenthesized (f : Fragment) : Fragment := plain ['('] ++ f ++ plain [')']

def columnText (c : Column) : Fragment := plain c.text

/-- The text of a value in a document. Truth values keep their names. -/
def operand : Operand → Fragment
  | .column c => columnText c
  | .document c path =>
    plain "CASE json_type(".toList ++ columnText c ++ plain ", ".toList ++
      placeholder (.text path) ++
      plain ") WHEN 'true' THEN 'true' WHEN 'false' THEN 'false' ELSE CAST(json_extract(".toList ++
      columnText c ++ plain ", ".toList ++ placeholder (.text path) ++
      plain ") AS TEXT) END".toList

/-- The rows of a relation. -/
def relationText : Relation → Text
  | .tags => "object_tag ot JOIN tag t ON t.id = ot.tag_id".toList
  | .comments => "comment cm".toList
  | .altNames => "file_alt_name fa".toList
  | .attributes => "attribute a".toList
  | .permissions => "permission p".toList

mutual

def ofCondition : Condition → Fragment
  | .const true => plain "1 = 1".toList
  | .const false => plain "1 = 0".toList
  | .compare o comparison l =>
    operand o ++ plain (' ' :: comparison.sign ++ [' ']) ++ placeholder l.parameter
  | .like o pattern =>
    operand o ++ plain " LIKE ".toList ++ placeholder (.text pattern) ++
      plain " ESCAPE '\\'".toList
  | .among _ [] => plain "1 = 0".toList
  | .among o (l :: ls) =>
    operand o ++ plain " IN (".toList ++
      joined ", ".toList ((l :: ls).map fun l => placeholder l.parameter) ++ plain [')']
  | .all [] => plain "1 = 1".toList
  | .all (c :: cs) => parenthesized (joined " AND ".toList (ofConditions (c :: cs)))
  | .any [] => plain "1 = 0".toList
  | .any (c :: cs) => parenthesized (joined " OR ".toList (ofConditions (c :: cs)))
  | .negated c => plain "NOT (".toList ++ ofCondition c ++ plain [')']
  | .related r outer c =>
    plain ("EXISTS (SELECT 1 FROM ".toList ++ relationText r ++ " WHERE ".toList ++ r.link.text ++
      " = ".toList ++ outer.text ++ " AND ".toList) ++ ofCondition c ++ plain [')']

def ofConditions : List Condition → List Fragment
  | [] => []
  | c :: cs => ofCondition c :: ofConditions cs

end

end Fragment

end SampleSearch
