import SampleSearch.Compile.Leaf

/-! # Compiling queries

A query is walked from left to right. Every field is resolved under the kind that is bound by what
stands before it, and may bind the query further. Fuzzy words, proximities, boosts, regular
expressions and required operands can be written but not compiled.
-/

namespace SampleSearch.Query

/-- The condition of a value, for which a field must have been named. -/
def leafCondition (d : Directory) (v : Viewer) (field : Option ResolvedField) (leaf : Leaf) :
    Except SearchError Condition :=
  match field with
  | none => .error .missingField
  | some f => leaf.condition d v f

mutual

def compileIn (d : Directory) (v : Viewer) (field : Option ResolvedField) (binding : Binding) :
    Query → Except SearchError (Condition × Binding)
  | all parts => do
    let (cs, b) ← compileParts d v field binding parts
    .ok (.all cs, b)
  | any parts => do
    let (cs, b) ← compileParts d v field binding parts
    .ok (.any cs, b)
  | negated q => do
    let (c, b) ← compileIn d v field binding q
    .ok (.negated c, b)
  | prohibited q => do
    let (c, b) ← compileIn d v field binding q
    .ok (.negated c, b)
  | group q => compileIn d v field binding q
  | fieldGroup q => compileIn d v field binding q
  | .field name q => do
    let f ← ResolvedField.resolve name binding
    let b ← Kind.bind binding f.kind
    compileIn d v (some f) b q
  | word value => do .ok (← leafCondition d v field (.term value), binding)
  | phrase content => do .ok (← leafCondition d v field (.term content), binding)
  | range r => do .ok (← leafCondition d v field (.range r), binding)
  | required q => .error (.unsupportedNode (nodeName (required q)))
  | fuzzy value degree => .error (.unsupportedNode (nodeName (fuzzy value degree)))
  | proximity content degree => .error (.unsupportedNode (nodeName (proximity content degree)))
  | boost q force => .error (.unsupportedNode (nodeName (boost q force)))
  | regex pattern => .error (.unsupportedNode (nodeName (regex pattern)))

def compileParts (d : Directory) (v : Viewer) (field : Option ResolvedField)
    (binding : Binding) : List Query → Except SearchError (List Condition × Binding)
  | [] => .ok ([], binding)
  | q :: qs => do
    let (c, b) ← compileIn d v field binding q
    let (cs, b) ← compileParts d v field b qs
    .ok (c :: cs, b)

end

def compile (d : Directory) (v : Viewer) (binding : Binding) (q : Query) :
    Except SearchError (Condition × Binding) :=
  compileIn d v none binding q

end SampleSearch.Query
