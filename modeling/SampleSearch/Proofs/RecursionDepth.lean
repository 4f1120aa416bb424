import SampleSearch.Compile.Query
import SampleSearch.Proofs.TreePaths

/-!
# Depth of recursion

Printing and compiling a query call themselves for the nodes below the root. Here they may do so a
number of levels deep only and fail where a tree goes on below. The height of a query is depth
enough for both: what they give is then what they give without a limit.
-/

namespace SampleSearch.Query

/-- The printed form of a query, with a limit on the depth of recursion. -/
def textWithin : Nat → Query → Option Text
  | 0, _ => none
  | depth + 1, q =>
    match q with
    | all parts => (parts.mapM (textWithin depth)).map (Text.joined " AND ".toList)
    | any parts => (parts.mapM (textWithin depth)).map (Text.joined " OR ".toList)
    | negated q => (textWithin depth q).map ("NOT ".toList ++ ·)
    | prohibited q => (textWithin depth q).map ('-' :: ·)
    | required q => (textWithin depth q).map ('+' :: ·)
    | field name q => (textWithin depth q).map (name ++ ':' :: ·)
    | group q => (textWithin depth q).map ('(' :: · ++ [')'])
    | fieldGroup q => (textWithin depth q).map ('(' :: · ++ [')'])
    | boost q f => (textWithin depth q).map (· ++ '^' :: f)
    | leaf => some leaf.text

theorem partTexts_eq_map (parts : List Query) : partTexts parts = parts.map text := by
  induction parts with
  | nil => rfl
  | cons q qs ih => rw [partTexts, ih, List.map_cons]

theorem mapM_textWithin {depth : Nat} {parts : List Query}
    (h : ∀ q ∈ parts, textWithin depth q = some q.text) :
    parts.mapM (textWithin depth) = some (partTexts parts) := by
  rw [partTexts_eq_map]
  induction parts with
  | nil => rfl
  | cons q parts ih =>
    obtain ⟨hq, hparts⟩ := List.forall_mem_cons.1 h
    rw [List.mapM_cons, hq, ih hparts]
    rfl

theorem textWithin_of_height_le {depth : Nat} {q : Query} (h : q.height ≤ depth) :
    textWithin depth q = some q.text := by
  induction depth generalizing q with
  | zero =>
    rw [height_eq] at h
    omega
  | succ depth ih =>
    have hbelow : ∀ c ∈ q.children, textWithin depth c = some c.text :=
      fun c hc => ih (height_le_succ_iff.1 h c hc)
    cases q with
    | all parts =>
      have hparts : parts.mapM (textWithin depth) = some (partTexts parts) :=
        mapM_textWithin hbelow
      rw [textWithin, hparts]
      rfl
    | any parts =>
      have hparts : parts.mapM (textWithin depth) = some (partTexts parts) :=
        mapM_textWithin hbelow
      rw [textWithin, hparts]
      rfl
    | word => rfl
    | phrase => rfl
    | range => rfl
    | fuzzy => rfl
    | proximity => rfl
    | regex => rfl
    | _ =>
      rw [textWithin, hbelow _ List.mem_cons_self]
      rfl

/-- Compiles parts from left to right; each is compiled under the binding that the last one left. -/
def throughParts {ε : Type} (f : Binding → Query → Except ε (Condition × Binding)) :
    Binding → List Query → Except ε (List Condition × Binding)
  | b, [] => .ok ([], b)
  | b, q :: qs => do
    let (c, b) ← f b q
    let (cs, b) ← throughParts f b qs
    .ok (c :: cs, b)

section

variable (d : Directory) (v : Viewer)

/-- Compiles a query with a limit on the depth of recursion; a tree that goes on below is no fault
of the query. -/
def compileWithin : Nat → Option ResolvedField → Binding → Query →
    Except (Option SearchError) (Condition × Binding)
  | 0, _, _, _ => .error none
  | depth + 1, target, binding, q =>
    match q with
    | all parts => do
      let (cs, b) ← throughParts (compileWithin depth target) binding parts
      .ok (.all cs, b)
    | any parts => do
      let (cs, b) ← throughParts (compileWithin depth target) binding parts
      .ok (.any cs, b)
    | negated q => do
      let (c, b) ← compileWithin depth target binding q
      .ok (.negated c, b)
    | prohibited q => do
      let (c, b) ← compileWithin depth target binding q
      .ok (.negated c, b)
    | group q => compileWithin depth target binding q
    | fieldGroup q => compileWithin depth target binding q
    | .field name q => do
      let f ← (ResolvedField.resolve name binding).mapError some
      let b ← (Kind.bind binding f.kind).mapError some
      compileWithin depth (some f) b q
    | leaf => (compileIn d v target binding leaf).mapError some

end

section

variable {d : Directory} {v : Viewer}

theorem mapError_bind {ε ε' α β : Type} (f : ε → ε') (x : Except ε α) (g : α → Except ε β) :
    (x >>= g).mapError f = x.mapError f >>= fun a => (g a).mapError f := by
  cases x <;> rfl

theorem throughParts_eq {f : Binding → Query → Except (Option SearchError) (Condition × Binding)}
    {target : Option ResolvedField} {parts : List Query}
    (h : ∀ q ∈ parts, ∀ b, f b q = (compileIn d v target b q).mapError some) (b : Binding) :
    throughParts f b parts = (compileParts d v target b parts).mapError some := by
  induction parts generalizing b with
  | nil => rfl
  | cons q parts ih =>
    obtain ⟨hq, hparts⟩ := List.forall_mem_cons.1 h
    rw [throughParts, compileParts, mapError_bind, hq b]
    refine bind_congr fun bound => ?_
    obtain ⟨c, b'⟩ := bound
    simp only [ih hparts b', mapError_bind]
    rfl

theorem compileWithin_of_height_le {depth : Nat} {q : Query} (h : q.height ≤ depth)
    (target : Option ResolvedField) (b : Binding) :
    compileWithin d v depth target b q = (compileIn d v target b q).mapError some := by
  induction depth generalizing q target b with
  | zero =>
    rw [height_eq] at h
    omega
  | succ depth ih =>
    have hbelow : ∀ c ∈ q.children, ∀ target b,
        compileWithin d v depth target b c = (compileIn d v target b c).mapError some :=
      fun c hc target b => ih (height_le_succ_iff.1 h c hc) target b
    cases q with
    | all parts =>
      have hparts : throughParts (compileWithin d v depth target) b parts =
          (compileParts d v target b parts).mapError some :=
        throughParts_eq (fun c hc => hbelow c hc target) b
      rw [compileWithin, hparts, compileIn, mapError_bind]
      rfl
    | any parts =>
      have hparts : throughParts (compileWithin d v depth target) b parts =
          (compileParts d v target b parts).mapError some :=
        throughParts_eq (fun c hc => hbelow c hc target) b
      rw [compileWithin, hparts, compileIn, mapError_bind]
      rfl
    | negated q =>
      rw [compileWithin, hbelow q List.mem_cons_self, compileIn, mapError_bind]
      rfl
    | prohibited q =>
      rw [compileWithin, hbelow q List.mem_cons_self, compileIn, mapError_bind]
      rfl
    | group q => rw [compileWithin, hbelow q List.mem_cons_self, compileIn]
    | fieldGroup q => rw [compileWithin, hbelow q List.mem_cons_self, compileIn]
    | field name q =>
      rw [compileWithin, compileIn, mapError_bind]
      refine bind_congr fun f => ?_
      rw [mapError_bind]
      exact bind_congr fun b' => hbelow q List.mem_cons_self (some f) b'
    | _ => rfl

end

end SampleSearch.Query
