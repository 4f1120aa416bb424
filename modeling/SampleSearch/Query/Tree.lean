import SampleSearch.Text.Basic

/-! # Queries

A query is a tree of conditions on fields. Values are kept as they are written, with their
escapes, and phrases without their quotes. The printed form of a tree is again a query.
-/

namespace SampleSearch

/-- A star as an end means that there is no bound on that side. -/
structure Range where
  low : Text
  high : Text
  includesLow : Bool
  includesHigh : Bool
  deriving DecidableEq, Repr

inductive Query
  | all (parts : List Query)
  | any (parts : List Query)
  | negated (inner : Query)
  | prohibited (inner : Query)
  | required (inner : Query)
  | field (name : Text) (value : Query)
  | group (inner : Query)
  | fieldGroup (inner : Query)
  | word (value : Text)
  | phrase (content : Text)
  | range (r : Range)
  | fuzzy (value : Text) (degree : Option Text)
  | proximity (content : Text) (degree : Option Text)
  | boost (inner : Query) (force : Text)
  | regex (pattern : Text)
  deriving Repr

namespace Query

/-- What a node is called in messages. -/
def nodeName : Query → Text
  | all _ => "AndOperation".toList
  | any _ => "OrOperation".toList
  | negated _ => "Not".toList
  | prohibited _ => "Prohibit".toList
  | required _ => "Plus".toList
  | field _ _ => "SearchField".toList
  | group _ => "Group".toList
  | fieldGroup _ => "FieldGroup".toList
  | word _ => "Word".toList
  | phrase _ => "Phrase".toList
  | range _ => "Range".toList
  | fuzzy _ _ => "Fuzzy".toList
  | proximity _ _ => "Proximity".toList
  | boost _ _ => "Boost".toList
  | regex _ => "Regex".toList

mutual

/-- Whether two trees are the same. -/
def same : Query → Query → Bool
  | all ps, all qs => sameParts ps qs
  | any ps, any qs => sameParts ps qs
  | negated p, negated q => same p q
  | prohibited p, prohibited q => same p q
  | required p, required q => same p q
  | field n p, field m q => n == m && same p q
  | group p, group q => same p q
  | fieldGroup p, fieldGroup q => same p q
  | word v, word w => v == w
  | phrase v, phrase w => v == w
  | range r, range s => r == s
  | fuzzy v d, fuzzy w e => v == w && d == e
  | proximity v d, proximity w e => v == w && d == e
  | boost p f, boost q g => same p q && f == g
  | regex v, regex w => v == w
  | _, _ => false

def sameParts : List Query → List Query → Bool
  | [], [] => true
  | p :: ps, q :: qs => same p q && sameParts ps qs
  | _, _ => false

end

mutual

theorem same_eq_true_iff (p q : Query) : same p q = true ↔ p = q := by
  cases p <;> cases q <;>
    simp [same, same_eq_true_iff, sameParts_eq_true_iff]

theorem sameParts_eq_true_iff (ps qs : List Query) : sameParts ps qs = true ↔ ps = qs := by
  cases ps <;> cases qs <;> simp [sameParts, same_eq_true_iff, sameParts_eq_true_iff]

end

instance : DecidableEq Query := fun p q => decidable_of_iff _ (same_eq_true_iff p q)

def quoted (content : Text) : Text := '"' :: content ++ ['"']

def rangeText (r : Range) : Text :=
  (if r.includesLow then '[' else '\x7b') :: r.low ++ " TO ".toList ++ r.high ++
    [if r.includesHigh then ']' else '\x7d']

mutual

/-- The printed form of a query. -/
def text : Query → Text
  | all parts => Text.joined " AND ".toList (partTexts parts)
  | any parts => Text.joined " OR ".toList (partTexts parts)
  | negated q => "NOT ".toList ++ text q
  | prohibited q => '-' :: text q
  | required q => '+' :: text q
  | field name q => name ++ ':' :: text q
  | group q => '(' :: text q ++ [')']
  | fieldGroup q => '(' :: text q ++ [')']
  | word v => v
  | phrase c => quoted c
  | range r => rangeText r
  | fuzzy v d => v ++ '~' :: d.getD []
  | proximity c d => quoted c ++ '~' :: d.getD []
  | boost q f => text q ++ '^' :: f
  | regex p => '/' :: p ++ ['/']

def partTexts : List Query → List Text
  | [] => []
  | q :: qs => text q :: partTexts qs

end

end Query

end SampleSearch
