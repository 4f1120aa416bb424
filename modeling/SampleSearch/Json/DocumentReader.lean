import SampleSearch.Json.Document
import SampleSearch.Text.Blank

/-! # Reading stored documents

The database reads documents more leniently than JSON has it: comments and the blanks of Unicode,
single quotes, names without quotes, a comma behind the last part, hexadecimal numbers, a sign in
front of any number, a point without digits on one side, infinity, and further escapes in strings.
Whatever is not of the strict form is written in the strict form when a larger value is minified.
-/

namespace SampleSearch.Document

/-- Drops a comment behind its opening `/*`; there is nothing to drop if it is not closed. -/
def closedComment? : Text → Option Text
  | '*' :: '/' :: s => some s
  | _ :: s => closedComment? s
  | [] => none

def isLineEnd (c : Char) : Bool :=
  c == '\n' || c == '\r' || c.toNat == 0x2028 || c.toNat == 0x2029

def isDocumentBlank (c : Char) : Bool :=
  (isBlank c && c.toNat != 0x85) || c.toNat == 0xFEFF

/-- Drops blanks and comments; every step drops a character, so `n` steps do for `n` of them. -/
def skipLoose : Nat → Text → Text
  | 0, s => s
  | n + 1, s =>
    match s with
    | '/' :: '*' :: r =>
      match closedComment? r with
      | some r => skipLoose n r
      | none => s
    | '/' :: '/' :: r => skipLoose n ((r.dropWhile fun c => !isLineEnd c).drop 1)
    | c :: r => if isDocumentBlank c then skipLoose n r else s
    | [] => []

def skip (s : Text) : Text := skipLoose s.length s

/-- A piece of a string: its strict form and what is left behind it. -/
structure StringPiece where
  written : Text
  rest : Text

def hexEscape? : Text → Option StringPiece
  | a :: b :: s =>
    if (Json.hexValue? a).isSome && (Json.hexValue? b).isSome then
      some ⟨"\\u00".toList ++ [a, b], s⟩
    else none
  | _ => none

def unicodeEscape? : Text → Option StringPiece
  | a :: b :: c :: d :: s => (Json.hex4? a b c d).map fun _ => ⟨['\\', 'u', a, b, c, d], s⟩
  | _ => none

def escape? : Text → Option StringPiece
  | 'u' :: s => unicodeEscape? s
  | 'x' :: s => hexEscape? s
  | '\'' :: s => some ⟨['\''], s⟩
  | '0' :: s => some ⟨"\\u0000".toList, s⟩
  | 'v' :: s => some ⟨"\\u0009".toList, s⟩
  | '\r' :: '\n' :: s => some ⟨[], s⟩
  | c :: s =>
    match Json.simpleEscape? c with
    | some _ => some ⟨['\\', c], s⟩
    | none => if isLineEnd c then some ⟨[], s⟩ else none
  | [] => none

def consumed (s rest : Text) : Text := s.take (s.length - rest.length)

/-- Reads a string up to its delimiter, in strict form; every piece takes a character at least. -/
def stringRest? (delimiter : Char) : Nat → Text → Option (Text × Text)
  | 0, _ => none
  | _, [] => none
  | n + 1, c :: s =>
    if c == delimiter then some ([], s)
    else if c == '\\' then do
      let p ← escape? s
      let (written, r) ← stringRest? delimiter n p.rest
      some (p.written ++ written, r)
    else if c.toNat < 0x20 then none
    else
      (stringRest? delimiter n s).map fun p =>
        (if c == '"' then '\\' :: c :: p.1 else c :: p.1, p.2)

def delimited? (delimiter : Char) (s : Text) : Option (Quotation × Text) :=
  (stringRest? delimiter (s.length + 1) s).map fun p =>
    (⟨(consumed s p.2).dropLast, p.1⟩, p.2)

def quoted? : Text → Option (Quotation × Text)
  | '"' :: s => delimited? '"' s
  | '\'' :: s => delimited? '\'' s
  | _ => none

def isNameStart (c : Char) : Bool :=
  c.isAlpha || c == '_' || c == '$' || (0x80 ≤ c.toNat && !isDocumentBlank c)

def isNameChar (c : Char) : Bool := isNameStart c || c.isDigit

/-- Drops the rest of a name; an escape in it has the form of a backslash, `u` and four digits. -/
def dropName : Nat → Text → Text
  | 0, s => s
  | n + 1, s =>
    match s with
    | '\\' :: 'u' :: r =>
      match unicodeEscape? r with
      | some p => dropName n p.rest
      | none => s
    | c :: r => if isNameChar c then dropName n r else s
    | [] => []

def startsName : Text → Bool
  | '\\' :: 'u' :: r => (unicodeEscape? r).isSome
  | c :: _ => isNameStart c
  | [] => false

def name? (s : Text) : Option (Quotation × Text) :=
  if startsName s then
    let rest := dropName s.length s
    some (⟨consumed s rest, consumed s rest⟩, rest)
  else none

def startsWithWord (word : Text) (s : Text) : Bool :=
  word.isPrefixOf ((s.take word.length).map Char.toLower)

def endsWord (s : Text) : Bool :=
  match s with
  | c :: _ => !c.isAlphanum
  | [] => true

def infinity (negative : Bool) : Document :=
  number (if negative then "-9e999".toList else "9e999".toList) (Decimal.infiniteText negative)

/-- Words that stand for infinity or for null, in any case. -/
def looseWord? (s : Text) : Option (Document × Text) :=
  let word (w : Text) (d : Document) : Option (Document × Text) :=
    if startsWithWord w s && endsWord (s.drop w.length) then some (d, s.drop w.length) else none
  word "inf".toList (infinity false) <|> word "infinity".toList (infinity false) <|>
    word "nan".toList null <|> word "qnan".toList null <|> word "snan".toList null

def exactWord? (w : Text) (d : Document) (s : Text) : Option (Document × Text) :=
  if w.isPrefixOf s && endsWord (s.drop w.length) then some (d, s.drop w.length) else none

def withSign (negative : Bool) (t : Text) : Text := if negative then '-' :: t else t

/-- Whole numbers of 64 bits are exact, all others have double precision. -/
def wholePlain (negative : Bool) (digits : Text) : Text :=
  let n := Text.digitsValue digits
  if n ≤ Text.maxSigned64 ∨ (negative ∧ n = Text.maxSigned64 + 1) then
    withSign (negative && n != 0) (Text.ofNat n)
  else Decimal.reread negative digits [] 0

/-- A hexadecimal number is one of 64 bits with its sign in the highest; a longer one cannot be
read. -/
def hexNumber (negative : Bool) (digits : Text) : Document :=
  let digits := digits.dropWhile (· == '0')
  let n := digits.foldl (fun n c => 16 * n + (Json.hexValue? c).getD 0) 0
  if 16 < digits.length then number (withSign negative "9.0e999".toList) none
  else
    let signed : Int := if n ≤ Text.maxSigned64 then n else (n : Int) - 0x10000000000000000
    number (withSign negative (Text.ofNat n)) (Text.ofInt (if negative then -signed else signed))

/-- Value and text of the exponent as written; nothing if there is no exponent. -/
def exponent? : Text → Option (Option (Int × Text) × Text)
  | c :: s =>
    if c == 'e' || c == 'E' then
      let (sign, s) : Text × Text := match s with
        | '-' :: r => (['-'], r)
        | '+' :: r => (['+'], r)
        | r => ([], r)
      let (digits, rest) := Json.digitRun s
      if digits.isEmpty then none
      else
        let size : Int := Decimal.exponentSize digits
        some (some (if sign == ['-'] then -size else size, c :: sign ++ digits), rest)
    else some (none, c :: s)
  | [] => some (none, [])

def decimalNumber? (signed negative : Bool) (s : Text) : Option (Document × Text) := do
  let (whole, rest) := Json.digitRun s
  if whole.length > 1 && whole.head? == some '0' then none
  else
    let (fraction, rest) : Option Text × Text := match rest with
      | '.' :: r => (some (r.takeWhile Char.isDigit), r.dropWhile Char.isDigit)
      | r => (none, r)
    let places := fraction.getD []
    if whole.isEmpty && (places.isEmpty || (!signed && fraction.isNone)) then none
    else
      let (exponent, rest) ← exponent? rest
      if fraction.isNone && exponent.isNone then
        some (number (withSign negative whole) (wholePlain negative whole), rest)
      else
        let fill (t : Text) : Text := if t.isEmpty then ['0'] else t
        let power := match exponent with
          | some (e, _) => e
          | none => 0
        let written := fill whole ++
          (match fraction with
            | some f => '.' :: fill f
            | none => []) ++
          (match exponent with
            | some (_, t) => t
            | none => [])
        some (number (withSign negative written) (Decimal.reread negative whole places power), rest)

def numberBehindSign? (signed negative : Bool) (s : Text) : Option (Document × Text) :=
  let hexadecimal (s : Text) : Option (Document × Text) := do
    let digits := s.takeWhile fun c => (Json.hexValue? c).isSome
    some (hexNumber negative digits, s.drop digits.length)
  match s with
  | '0' :: x :: d :: r =>
    if (x == 'x' || x == 'X') && (Json.hexValue? d).isSome then hexadecimal (d :: r)
    else decimalNumber? signed negative s
  | _ =>
    if signed && startsWithWord "inf".toList s then
      let r := s.drop 3
      some (infinity negative, if startsWithWord "inity".toList r then r.drop 5 else r)
    else decimalNumber? signed negative s

def number? : Text → Option (Document × Text)
  | '-' :: s => numberBehindSign? true true s
  | '+' :: s => numberBehindSign? true false s
  | s => numberBehindSign? false false s

def scalar? (s : Text) : Option (Document × Text) :=
  match quoted? s with
  | some (q, r) => some (string q, r)
  | none =>
    exactWord? "true".toList (bool true) s <|> exactWord? "false".toList (bool false) s <|>
      exactWord? "null".toList null s <|> looseWord? s <|> number? s

def items? (value? : Text → Option (Document × Text)) :
    Nat → Text → Option (List Document × Text)
  | 0, _ => none
  | n + 1, s => do
    let (d, s) ← value? s
    match skip s with
    | ']' :: s => some ([d], s)
    | ',' :: s =>
      match skip s with
      | ']' :: r => some ([d], r)
      | s => (items? value? n s).map fun p => (d :: p.1, p.2)
    | _ => none

/-- The name of a member is quoted, or a name that is no value of its own. -/
def memberName? (value? : Text → Option (Document × Text)) (s : Text) :
    Option (Quotation × Text) :=
  match quoted? s with
  | some p => some p
  | none => if (value? s).isSome then none else name? s

def members? (value? : Text → Option (Document × Text)) :
    Nat → Text → Option (List (Quotation × Document) × Text)
  | 0, _ => none
  | n + 1, s => do
    let (name, s) ← memberName? value? s
    match skip s with
    | ':' :: s =>
      let (d, s) ← value? s
      match skip s with
      | '\x7d' :: s => some ([(name, d)], s)
      | ',' :: s =>
        match skip s with
        | '\x7d' :: r => some ([(name, d)], r)
        | s => (members? value? n s).map fun p => ((name, d) :: p.1, p.2)
      | _ => none
    | _ => none

def valueWith? (inner? : Option (Text → Option (Document × Text))) (s : Text) :
    Option (Document × Text) :=
  match skip s with
  | '[' :: s =>
    match inner?, skip s with
    | none, _ => none
    | some _, ']' :: r => some (array [], r)
    | some p, s => (items? p (s.length + 1) s).map fun r => (array r.1, r.2)
  | '\x7b' :: s =>
    match inner?, skip s with
    | none, _ => none
    | some _, '\x7d' :: r => some (object [], r)
    | some p, s => (members? p (s.length + 1) s).map fun r => (object r.1, r.2)
  | s => scalar? s

def value? : Nat → Text → Option (Document × Text)
  | 0, s => valueWith? none s
  | depth + 1, s => valueWith? (some (value? depth)) s

/-- Reads a whole text up to its first zero character, with values nested at most 1000 levels
deep. -/
def read? (t : Text) : Option Document := do
  let (d, rest) ← value? 1000 (t.takeWhile (· != Char.ofNat 0))
  if (skip rest).isEmpty then some d else none

/-- Code points of the text of the value at a list of labels in a written document, if there is one
that is not null. There is no result if the text is no document, a label is torn or the value cannot
be read. -/
def lookUp? (t : Text) (labels : List Text) : Option (Option (List Nat)) := do
  match ← find? labels (← read? t) with
  | none => some none
  | some d => d.codes?

end SampleSearch.Document
