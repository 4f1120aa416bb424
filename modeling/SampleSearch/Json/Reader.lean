import SampleSearch.Json.Number

/-! # Reading JSON

The grammar is the strict one: blanks are the four of JSON, control characters may not stand in
strings, surrogates come in pairs, and values are nested at most 127 levels deep. The members of
an object are sorted, and the last of several with one name counts.
-/

namespace SampleSearch.Json

def isJsonBlank (c : Char) : Bool := c == ' ' || c == '\n' || c == '\t' || c == '\r'

def skip (s : Text) : Text := s.dropWhile isJsonBlank

def hexValue? (c : Char) : Option Nat :=
  if c.isDigit then some (c.toNat - '0'.toNat)
  else if 'a' ≤ c && c ≤ 'f' then some (c.toNat - 'a'.toNat + 10)
  else if 'A' ≤ c && c ≤ 'F' then some (c.toNat - 'A'.toNat + 10)
  else none

def hex4? (a b c d : Char) : Option Nat := do
  some (4096 * (← hexValue? a) + 256 * (← hexValue? b) + 16 * (← hexValue? c) + (← hexValue? d))

def isHighSurrogate (n : Nat) : Bool := 0xD800 ≤ n && n ≤ 0xDBFF

def isLowSurrogate (n : Nat) : Bool := 0xDC00 ≤ n && n ≤ 0xDFFF

/-- The character of a pair of surrogates. -/
def surrogatePair (high low : Nat) : Char :=
  Char.ofNat ((high - 0xD800) * 1024 + (low - 0xDC00) + 0x10000)

def simpleEscape? (c : Char) : Option Char :=
  if c == '"' || c == '\\' || c == '/' then some c
  else if c == 'b' then some (Char.ofNat 8)
  else if c == 'f' then some (Char.ofNat 12)
  else if c == 'n' then some '\n'
  else if c == 'r' then some '\r'
  else if c == 't' then some '\t'
  else none

/-- Reads a string behind its opening quote. -/
def stringRest? : Text → Option (Text × Text)
  | [] => none
  | '"' :: s => some ([], s)
  | '\\' :: 'u' :: a :: b :: c :: d :: '\\' :: 'u' :: e :: f :: g :: h :: s => do
    let n ← hex4? a b c d
    if isHighSurrogate n then
      let m ← hex4? e f g h
      if isLowSurrogate m then
        let (t, r) ← stringRest? s
        some (surrogatePair n m :: t, r)
      else none
    else if isLowSurrogate n then none
    else
      let (t, r) ← stringRest? ('\\' :: 'u' :: e :: f :: g :: h :: s)
      some (Char.ofNat n :: t, r)
  | '\\' :: 'u' :: a :: b :: c :: d :: s => do
    let n ← hex4? a b c d
    if isHighSurrogate n || isLowSurrogate n then none
    else
      let (t, r) ← stringRest? s
      some (Char.ofNat n :: t, r)
  | '\\' :: c :: s => do
    let c ← simpleEscape? c
    let (t, r) ← stringRest? s
    some (c :: t, r)
  | c :: s =>
    if c.toNat < 0x20 || c == '\\' then none
    else (stringRest? s).map fun p => (c :: p.1, p.2)

def word? (w : Text) (value : Json) (s : Text) : Option (Json × Text) :=
  if w.isPrefixOf s then some (value, s.drop w.length) else none

/-- Items up to the closing bracket; a text of `n` characters holds no more than `n` of them. -/
def items? (value? : Text → Option (Json × Text)) : Nat → Text → Option (List Json × Text)
  | 0, _ => none
  | n + 1, s => do
    let (j, s) ← value? s
    match skip s with
    | ']' :: s => some ([j], s)
    | ',' :: s => (items? value? n s).map fun p => (j :: p.1, p.2)
    | _ => none

def name? (s : Text) : Option (Text × Text) :=
  match skip s with
  | '"' :: s => do
    let (name, s) ← stringRest? s
    match skip s with
    | ':' :: s => some (name, s)
    | _ => none
  | _ => none

def members? (value? : Text → Option (Json × Text)) :
    Nat → Text → Option (List (Text × Json) × Text)
  | 0, _ => none
  | n + 1, s => do
    let (name, s) ← name? s
    let (j, s) ← value? s
    match skip s with
    | '\x7d' :: s => some ([(name, j)], s)
    | ',' :: s => (members? value? n s).map fun p => ((name, j) :: p.1, p.2)
    | _ => none

/-- Reads a value whose parts are read by `inner?`, which is missing at the deepest level. -/
def valueWith? (inner? : Option (Text → Option (Json × Text))) (s : Text) :
    Option (Json × Text) :=
  match skip s with
  | [] => none
  | '[' :: s =>
    match inner?, skip s with
    | none, _ => none
    | some _, ']' :: s => some (.array [], s)
    | some p, s => (items? p s.length s).map fun r => (.array r.1, r.2)
  | '\x7b' :: s =>
    match inner?, skip s with
    | none, _ => none
    | some _, '\x7d' :: s => some (.object [], s)
    | some p, s => (members? p s.length s).map fun r => (.object (sortedMembers r.1), r.2)
  | '"' :: s => (stringRest? s).map fun p => (.string p.1, p.2)
  | 'n' :: s => word? "null".toList .null ('n' :: s)
  | 't' :: s => word? "true".toList (.bool true) ('t' :: s)
  | 'f' :: s => word? "false".toList (.bool false) ('f' :: s)
  | s => number? s

def value? : Nat → Text → Option (Json × Text)
  | 0, s => valueWith? none s
  | depth + 1, s => valueWith? (some (value? depth)) s

/-- Reads a whole text. -/
def read? (t : Text) : Option Json := do
  let (j, rest) ← value? 127 t
  if (skip rest).isEmpty then some j else none

/-- The strings of an array that holds nothing else. -/
def strings? : Json → Option (List Text)
  | array items => items.mapM text?
  | _ => none

end SampleSearch.Json
