import SampleSearch.Json.Value

/-! # Printing JSON

The compact form has no blanks. The pretty form puts every item and member on a line of its own,
indented by two blanks for each level, and keeps empty arrays and objects on one line. In strings
the quote, the backslash and the control characters below the blank are escaped and nothing else.
-/

namespace SampleSearch.Json

def hexDigit (n : Nat) : Char := Nat.digitChar n

def escapedChar (c : Char) : Text :=
  if c == '"' then ['\\', '"']
  else if c == '\\' then ['\\', '\\']
  else if c.toNat == 0x08 then ['\\', 'b']
  else if c.toNat == 0x0C then ['\\', 'f']
  else if c == '\n' then ['\\', 'n']
  else if c == '\r' then ['\\', 'r']
  else if c == '\t' then ['\\', 't']
  else if c.toNat < 0x20 then
    ['\\', 'u', '0', '0', hexDigit (c.toNat / 16), hexDigit (c.toNat % 16)]
  else [c]

def stringText (t : Text) : Text := '"' :: t.flatMap escapedChar ++ ['"']

/-- An exponent with its sign. -/
def exponentText (e : Int) : Text := (if e < 0 then [] else ['+']) ++ Text.ofInt e

/-- Positional up to 16 digits in front of the point and down to four zeros behind it, with a zero
behind the point of a whole number; else one digit in front of the point and a signed exponent. -/
def realText (negative : Bool) (size : Dyadic) : Text :=
  let d := size.shortest
  let digits := Text.ofNat d.digits
  let point : Int := digits.length + d.exponent
  let body :=
    if d.digits = 0 then "0.0".toList
    else if 0 ≤ d.exponent ∧ point ≤ 16 then
      digits ++ List.replicate d.exponent.toNat '0' ++ ".0".toList
    else if 0 < point ∧ point ≤ 16 then
      digits.take point.toNat ++ '.' :: digits.drop point.toNat
    else if -5 < point ∧ point ≤ 0 then
      "0.".toList ++ List.replicate (-point).toNat '0' ++ digits
    else
      digits.take 1 ++ (if digits.length = 1 then [] else '.' :: digits.drop 1) ++
        'e' :: exponentText (point - 1)
  if negative then '-' :: body else body

def scalarText : Json → Text
  | bool true => "true".toList
  | bool false => "false".toList
  | int n => Text.ofInt n
  | real negative size => realText negative size
  | string t => stringText t
  | _ => "null".toList

mutual

def compact : Json → Text
  | array items => '[' :: Text.joined [','] (compactItems items) ++ [']']
  | object members => '\x7b' :: Text.joined [','] (compactMembers members) ++ ['\x7d']
  | j => scalarText j

def compactItems : List Json → List Text
  | [] => []
  | j :: js => compact j :: compactItems js

def compactMembers : List (Text × Json) → List Text
  | [] => []
  | (name, j) :: ms => (stringText name ++ ':' :: compact j) :: compactMembers ms

end

/-- Lines of a level, framed by brackets, or the brackets alone. -/
def block (level : Nat) (opening closing : Char) (parts : List Text) : Text :=
  if parts.isEmpty then [opening, closing]
  else
    let indent (n : Nat) : Text := '\n' :: List.replicate (2 * n) ' '
    opening :: indent (level + 1) ++ Text.joined (',' :: indent (level + 1)) parts ++
      indent level ++ [closing]

mutual

def prettyAt (level : Nat) : Json → Text
  | array items => block level '[' ']' (prettyItems (level + 1) items)
  | object members => block level '\x7b' '\x7d' (prettyMembers (level + 1) members)
  | j => scalarText j

def prettyItems (level : Nat) : List Json → List Text
  | [] => []
  | j :: js => prettyAt level j :: prettyItems level js

def prettyMembers (level : Nat) : List (Text × Json) → List Text
  | [] => []
  | (name, j) :: ms =>
    (stringText name ++ ": ".toList ++ prettyAt level j) :: prettyMembers level ms

end

def pretty (j : Json) : Text := prettyAt 0 j

end SampleSearch.Json
