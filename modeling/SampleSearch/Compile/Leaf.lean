import SampleSearch.Calendar.Window
import SampleSearch.Compile.Directory
import SampleSearch.Condition.Basic
import SampleSearch.Field.Path
import SampleSearch.Json.Document
import SampleSearch.Query.Tree
import SampleSearch.Text.Wildcard

/-! # Conditions of values

The value of a field, a term or a range, becomes a condition by the strategy of the field. Texts
may have wild cards, numbers and moments may not. What a term names is looked up in the directory,
and what the viewer must not see is treated as missing.
-/

namespace SampleSearch

inductive Leaf
  | term (value : Text)
  | range (r : Range)
  deriving DecidableEq, Repr

namespace Leaf

/-- Whether an end of a range leaves that side open. -/
def isUnbounded (value : Text) : Bool := value == ['*']

/-- Equality with the value, or a pattern if the value has wild cards. -/
def textCondition (o : Operand) (value : Text) : Condition :=
  if Text.hasWildcards value then .like o (Text.likePattern value)
  else .equals o (.text (Text.unescape value))

def integer? (path value : Text) : Except SearchError Int :=
  match Text.nat? value with
  | none => .error (.notNumeric path value)
  | some n => if n ≤ Text.maxSigned64 then .ok n else .error (.numberOutOfRange path value)

def integerBound (path : Text) (c : Column) (comparison : Comparison) (value : Text) :
    Except SearchError (List Condition) :=
  if isUnbounded value then .ok []
  else do
    let n ← integer? path (Text.unescape value)
    .ok [.compare (.column c) comparison (.int n)]

def integerRange (path : Text) (c : Column) (r : Range) : Except SearchError Condition := do
  let low ← integerBound path c (if r.includesLow then .ge else .gt) r.low
  let high ← integerBound path c (if r.includesHigh then .le else .lt) r.high
  .ok (.conjoin (low ++ high))

def window? (path value : Text) : Except SearchError Window :=
  match Window.read? value with
  | none => .error (.notADate path value)
  | some w => .ok w

def momentTerm (path : Text) (c : Column) (value : Text) : Except SearchError Condition :=
  if Text.hasWildcards value then .error (.wildcardUnsupported path)
  else do
    let w ← window? path (Text.unescape value)
    .ok (.conjoin [.compare (.column c) .ge (.moment w.start),
      .compare (.column c) .lt (.moment w.stop)])

def momentLow (path : Text) (c : Column) (value : Text) : Except SearchError (List Condition) :=
  if isUnbounded value then .ok []
  else do
    let w ← window? path (Text.unescape value)
    .ok [.compare (.column c) .ge (.moment w.start)]

def momentHigh (path : Text) (c : Column) (value : Text) : Except SearchError (List Condition) :=
  if isUnbounded value then .ok []
  else do
    let w ← window? path (Text.unescape value)
    .ok [.compare (.column c) .lt (.moment w.stop)]

/-- Both ends are included, the upper one with the whole of its unit. -/
def momentRange (path : Text) (c : Column) (r : Range) : Except SearchError Condition :=
  if !r.includesLow || !r.includesHigh then .error (.exclusiveRange path)
  else do
    let low ← momentLow path c r.low
    let high ← momentHigh path c r.high
    .ok (.conjoin (low ++ high))

/-- The labels that segments name; a label may not hold a quote. -/
def labels? : List Text → Except SearchError (List Text)
  | [] => .ok []
  | s :: rest => do
    let label := Text.unescape s
    if label.contains '"' then .error (.badLabel s)
    else .ok (label :: (← labels? rest))

def documentOperand (c : Column) (residual : List Text) : Except SearchError Operand := do
  .ok (.document c (Document.pathText (← labels? residual)))

/-- Ends are compared as texts, and an end that is included may also be equal. -/
def documentBound (o : Operand) (strict : Comparison) (included : Bool) (value : Text) :
    List Condition :=
  if isUnbounded value then []
  else
    let bound := Literal.text (Text.unescape value)
    if included then [.any [.compare o strict bound, .equals o bound]]
    else [.compare o strict bound]

def documentRange (o : Operand) (r : Range) : Condition :=
  .conjoin (documentBound o .gt r.includesLow r.low ++ documentBound o .lt r.includesHigh r.high)

def keyedCondition (d : Directory) (v : Viewer) (path : Text) (residual : List Text) :
    Leaf → Except SearchError Condition
  | range _ => .error (.rangeUnsupported path)
  | term value =>
    match residual with
    | [] => .error (.missingAttributeKey path)
    | segment :: rest => do
      let key := Text.unescape segment
      let definition ← Directory.required (.noSuchAttribute key) (d.attribute? key)
      if !definition.readableBy v then .error (.noSuchAttribute key)
      else if definition.hidden && Text.hasWildcards value then .error .hiddenWildcard
      else
        let o ← documentOperand .attributeValue rest
        .ok (.ofObject .attributes (.conjoin
          [.equals (.column .attributeKey) (.text key), textCondition o value]))

/-- The name in a term, which has neither a range nor wild cards. -/
def exactName (path : Text) : Leaf → Except SearchError Text
  | range _ => .error (.rangeUnsupported path)
  | term value =>
    if Text.hasWildcards value then .error (.wildcardUnsupported path)
    else .ok (Text.unescape value)

def sharedWithCondition (d : Directory) (v : Viewer) (path : Text) (leaf : Leaf) :
    Except SearchError Condition := do
  let name ← exactName path leaf
  let g ← Directory.required (.noSuchGroup name) (d.group? name)
  if v.has .manageUsers || v.isMember g.id then
    .ok (.ofObject .permissions (.equals (.column .permissionGroup) (.int g.id)))
  else .error (.noSuchGroup name)

def uploadedByCondition (d : Directory) (v : Viewer) (path : Text) (leaf : Leaf) :
    Except SearchError Condition := do
  let login ← exactName path leaf
  if v.has .manageUsers || login == v.login then
    let u ← Directory.required (.noSuchUser login) (d.user? login)
    .ok (.ofObject .permissions (.conjoin
      [.equals (.column .permissionUser) (.int u.id),
       .equals (.column .permissionReason) (.text ShareReason.added.text)]))
  else .error (.noSuchUser login)

/-- The condition of a value for a field. -/
def condition (d : Directory) (v : Viewer) (f : ResolvedField) (leaf : Leaf) :
    Except SearchError Condition :=
  match f.strategy, leaf with
  | .text c, term value => .ok (textCondition (.column c) value)
  | .text _, range _ => .error (.rangeUnsupported f.path)
  | .integer c, term value => do
    .ok (.equals (.column c) (.int (← integer? f.path value)))
  | .integer c, range r => integerRange f.path c r
  | .moment c, term value => momentTerm f.path c value
  | .moment c, range r => momentRange f.path c r
  | .related r c, term value => .ok (.ofObject r (textCondition (.column c) value))
  | .related _ _, range _ => .error (.rangeUnsupported f.path)
  | .document c, term value => do .ok (textCondition (← documentOperand c f.residual) value)
  | .document c, range r => do .ok (documentRange (← documentOperand c f.residual) r)
  | .keyed, leaf => keyedCondition d v f.path f.residual leaf
  | .sharedWith, leaf => sharedWithCondition d v f.path leaf
  | .uploadedBy, leaf => uploadedByCondition d v f.path leaf

end Leaf

end SampleSearch
