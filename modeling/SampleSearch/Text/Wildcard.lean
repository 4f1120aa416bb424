import SampleSearch.Text.Basic

/-! # Written values

A value in a query is read from left to right. A backslash makes the next character stand for
itself, a star stands for any run of characters and a question mark for any one character. The
pattern of a value says the same in the pattern language of the database, where the two wild
cards are a percent sign and an underscore.
-/

namespace SampleSearch

inductive Piece
  | literal (c : Char)
  | anyRun
  | anyOne
  deriving DecidableEq, Repr

namespace Piece

def isWild : Piece → Bool
  | literal _ => false
  | anyRun => true
  | anyOne => true

/-- The character that is left of a piece once escapes are resolved. -/
def char : Piece → Char
  | literal c => c
  | anyRun => '*'
  | anyOne => '?'

def isPatternSign (c : Char) : Bool := c == '%' || c == '_' || c == '\\'

def pattern : Piece → Text
  | literal c => if isPatternSign c then ['\\', c] else [c]
  | anyRun => ['%']
  | anyOne => ['_']

def spells : List Piece → Text → Bool
  | [], s => s.isEmpty
  | literal _ :: _, [] => false
  | literal c :: ps, d :: s => c == d && spells ps s
  | anyOne :: _, [] => false
  | anyOne :: ps, _ :: s => spells ps s
  | anyRun :: ps, s => (Text.suffixes s).any fun t => spells ps t

end Piece

namespace Text

/-- A backslash at the very end stands for itself. -/
def pieces : Text → List Piece
  | [] => []
  | '\\' :: [] => [.literal '\\']
  | '\\' :: c :: s => .literal c :: pieces s
  | '*' :: s => .anyRun :: pieces s
  | '?' :: s => .anyOne :: pieces s
  | c :: s => .literal c :: pieces s

def hasWildcards (value : Text) : Bool := (pieces value).any Piece.isWild

/-- The value with its escapes resolved: the protected characters alone are left. -/
def unescape (value : Text) : Text := (pieces value).map Piece.char

def likePattern (value : Text) : Text := (pieces value).flatMap Piece.pattern

@[simp] theorem pieces_nil : pieces [] = [] := rfl

@[simp] theorem pieces_escaped (c : Char) (s : Text) :
    pieces ('\\' :: c :: s) = .literal c :: pieces s := rfl

theorem pieces_plain {c : Char} (hb : c ≠ '\\') (hs : c ≠ '*') (hq : c ≠ '?') (s : Text) :
    pieces (c :: s) = .literal c :: pieces s := by
  rw [pieces.eq_def]
  split <;> simp_all

end Text

end SampleSearch
