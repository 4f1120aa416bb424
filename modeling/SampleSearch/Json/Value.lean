import SampleSearch.Decimal.Digits

/-! # JSON values

Numbers are whole or binary floating point, as their text was. Members of an object keep their
order; an object that was read has its names sorted and each name once.
-/

namespace SampleSearch

inductive Json
  | null
  | bool (b : Bool)
  | int (n : Int)
  | real (negative : Bool) (size : Dyadic)
  | string (t : Text)
  | array (items : List Json)
  | object (members : List (Text × Json))
  deriving Repr

namespace Json

def ofString (s : String) : Json := string s.toList

def ofNat (n : Nat) : Json := int n

def ofOption {α : Type} (f : α → Json) : Option α → Json
  | none => null
  | some a => f a

/-- Member of an object; nothing for any other value. -/
def get? (name : String) : Json → Option Json
  | object members => (members.find? fun m => m.1 == name.toList).map Prod.snd
  | _ => none

def getArray (name : String) (j : Json) : List Json :=
  match j.get? name with
  | some (array items) => items
  | _ => []

def text? : Json → Option Text
  | string t => some t
  | _ => none

def int? : Json → Option Int
  | int n => some n
  | _ => none

def bool? : Json → Option Bool
  | bool b => some b
  | _ => none

def getText? (name : String) (j : Json) : Option Text := (j.get? name).bind text?

def getInt? (name : String) (j : Json) : Option Int := (j.get? name).bind int?

def getBool? (name : String) (j : Json) : Option Bool := (j.get? name).bind bool?

/-- Sets a member among sorted ones. -/
def insertMember (name : Text) (value : Json) : List (Text × Json) → List (Text × Json)
  | [] => [(name, value)]
  | m :: ms =>
    if name < m.1 then (name, value) :: m :: ms
    else if name = m.1 then (name, value) :: ms
    else m :: insertMember name value ms

/-- Members sorted by name; of members with the same name the last one stays. -/
def sortedMembers (members : List (Text × Json)) : List (Text × Json) :=
  members.foldl (fun ms m => insertMember m.1 m.2 ms) []

end Json

end SampleSearch
