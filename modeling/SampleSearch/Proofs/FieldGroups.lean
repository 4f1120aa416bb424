import SampleSearch.Proofs.FieldTargets
import SampleSearch.Proofs.HiddenEntities

/-!
# Fields in front of groups

A field in front of a group stands for the same field in front of every value in the group. The path
is resolved once in the one case and for each value in the other, under a binding that has moved on
by then. It leads to the same field nevertheless, since a path that has bound a query is settled for
it. If the path is refused, it is refused at the first value; behind that one only values are.
-/

namespace SampleSearch

namespace Kind

theorem bind_of_bind {b b' : Binding} {k : Kind} (h : bind b k = .ok b') : bind b' k = .ok b' := by
  cases b with
  | none =>
    cases h
    cases k <;> rfl
  | some current => cases current <;> cases k <;> cases h <;> rfl

end Kind

namespace ResolvedField

theorem resolve_of_bind {path : Text} {b b' : Binding} {f : ResolvedField}
    (h : resolve path b = .ok f) (hb : Kind.bind b f.kind = .ok b') :
    resolve path b' = .ok f ∧ Kind.bind b' f.kind = .ok b' := by
  refine ⟨?_, Kind.bind_of_bind hb⟩
  have hsplit : splitKind b' (segments path) = splitKind b (segments path) := by
    rw [(resolve_eq_ok h).1] at hb
    cases hpath : segments path with
    | nil => exact absurd hpath (segments_ne_nil path)
    | cons first rest =>
      rw [hpath, splitKind] at hb
      rw [splitKind, splitKind]
      cases halias : Kind.ofAlias first with
      | some k => rfl
      | none =>
        rw [halias, Kind.bind_getD] at hb
        rw [Kind.getD_of_bind_object hb]
  rw [resolve_eq_ok_iff] at h ⊢
  rw [hsplit]
  exact h

end ResolvedField

namespace Query

mutual

/-- Whether a query joins values by connectives that all have parts, and names no field. -/
def JoinsValues : Query → Prop
  | all parts => parts ≠ [] ∧ AllJoinValues parts
  | any parts => parts ≠ [] ∧ AllJoinValues parts
  | negated q => JoinsValues q
  | prohibited q => JoinsValues q
  | group q => JoinsValues q
  | fieldGroup q => JoinsValues q
  | .field _ _ => False
  | _ => True

def AllJoinValues : List Query → Prop
  | [] => True
  | q :: qs => JoinsValues q ∧ AllJoinValues qs

end

mutual

/-- The query with a field in front of every value instead of groups. A prohibited part becomes a
negated one. -/
def spread (path : Text) : Query → Query
  | all parts => all (spreadAll path parts)
  | any parts => any (spreadAll path parts)
  | negated q => negated (spread path q)
  | prohibited q => negated (spread path q)
  | group q => spread path q
  | fieldGroup q => spread path q
  | q => .field path q

def spreadAll (path : Text) : List Query → List Query
  | [] => []
  | q :: qs => spread path q :: spreadAll path qs

end

mutual

theorem boundAfter_of_joinsValues {q : Query} (h : q.JoinsValues) (b : Binding) :
    q.boundAfter b = b := by
  cases q with
  | all parts => exact boundAfterParts_of_joinValues h.2 b
  | any parts => exact boundAfterParts_of_joinValues h.2 b
  | negated q => exact boundAfter_of_joinsValues (q := q) h b
  | prohibited q => exact boundAfter_of_joinsValues (q := q) h b
  | group q => exact boundAfter_of_joinsValues (q := q) h b
  | fieldGroup q => exact boundAfter_of_joinsValues (q := q) h b
  | field name q => exact h.elim
  | _ => rfl

theorem boundAfterParts_of_joinValues {qs : List Query} (h : AllJoinValues qs) (b : Binding) :
    boundAfterParts b qs = b := by
  cases qs with
  | nil => rfl
  | cons q qs =>
    rw [boundAfterParts, boundAfter_of_joinsValues h.1, boundAfterParts_of_joinValues h.2]

end

variable {d : Directory} {v : Viewer} {path : Text}

theorem compileIn_field {b b' : Binding} {f : ResolvedField}
    (hf : ResolvedField.resolve path b = .ok f) (hb : Kind.bind b f.kind = .ok b')
    (outer : Option ResolvedField) (q : Query) :
    compileIn d v outer b (.field path q) = compileIn d v (some f) b' q := by
  simp only [compileIn, hf, hb, bind, Except.bind]

mutual

theorem compileIn_spread {q : Query} (h : q.JoinsValues) (outer : Option ResolvedField)
    (b : Binding) :
    compileIn d v outer b (q.spread path) = compileIn d v outer b (.field path q) := by
  cases q with
  | all parts => simp only [spread, compileIn, compileParts_spread h.1 h.2 outer b, bind_assoc]
  | any parts => simp only [spread, compileIn, compileParts_spread h.1 h.2 outer b, bind_assoc]
  | negated q => simp only [spread, compileIn, compileIn_spread (q := q) h outer b, bind_assoc]
  | prohibited q => simp only [spread, compileIn, compileIn_spread (q := q) h outer b, bind_assoc]
  | group q => simp only [spread, compileIn, compileIn_spread (q := q) h outer b]
  | fieldGroup q => simp only [spread, compileIn, compileIn_spread (q := q) h outer b]
  | field name q => exact h.elim
  | _ => rfl

theorem compileParts_spread {qs : List Query} (hne : qs ≠ []) (h : AllJoinValues qs)
    (outer : Option ResolvedField) (b : Binding) :
    compileParts d v outer b (spreadAll path qs) = (do
      let f ← ResolvedField.resolve path b
      let b ← Kind.bind b f.kind
      compileParts d v (some f) b qs) := by
  cases qs with
  | nil => exact absurd rfl hne
  | cons q qs =>
    rw [spreadAll, compileParts, compileIn_spread h.1]
    cases hf : ResolvedField.resolve path b with
    | error e => simp only [compileIn, hf, bind, Except.bind]
    | ok f =>
      cases hb : Kind.bind b f.kind with
      | error e => simp only [compileIn, hf, hb, bind, Except.bind]
      | ok b₁ =>
        obtain ⟨hf₁, hb₁⟩ := ResolvedField.resolve_of_bind hf hb
        -- The other values are compiled behind the first one, where the path is settled.
        have hrest : compileParts d v outer b₁ (spreadAll path qs) =
            compileParts d v (some f) b₁ qs := by
          cases qs with
          | nil => rfl
          | cons r rs =>
            rw [compileParts_spread (List.cons_ne_nil r rs) h.2]
            simp only [hf₁, hb₁, bind, Except.bind]
        rw [compileIn_field hf hb]
        simp only [hb, compileParts, bind, Except.bind]
        cases hq : compileIn d v (some f) b₁ q with
        | error e => rfl
        | ok r =>
          obtain ⟨c, b₂⟩ := r
          obtain rfl : b₂ = b₁ := by
            rw [eq_boundAfter_of_compileIn hq, boundAfter_of_joinsValues h.1]
          simp only [hrest]

end

/-- A field in front of connected values gives the same result as the field in front of every value:
the same condition and binding or the same error. -/
theorem compile_spread (d : Directory) (v : Viewer) (b : Binding) (path : Text) {q : Query}
    (h : q.JoinsValues) :
    (Query.field path q).compile d v b = (q.spread path).compile d v b :=
  (compileIn_spread h none b).symm

/-- The ports that start with 8, but neither 8080 nor those in front of 9. -/
def portGroup : Query :=
  fieldGroup (all [word "8*".toList,
    prohibited (group (any [phrase "8080".toList, range ⟨['*'], ['9'], true, false⟩]))])

def portOperand : Operand := .document .configDocument "$.\"port\"".toList

/-- The path is understood in a query for configurations and refused in one for nothing yet. -/
theorem compile_spread_portGroup :
    portGroup.JoinsValues ∧
      portGroup.spread "cfg.port".toList = all [.field "cfg.port".toList (word "8*".toList),
        negated (any [.field "cfg.port".toList (phrase "8080".toList),
          .field "cfg.port".toList (range ⟨['*'], ['9'], true, false⟩)])] ∧
      (portGroup.spread "cfg.port".toList).compile .blank (.ofUser ⟨1, ['u']⟩) (some .config) =
        .ok (.all [.like portOperand "8%".toList,
          .negated (.any [.equals portOperand (.text "8080".toList),
            .compare portOperand .lt (.text ['9'])])], some .config) ∧
      (portGroup.spread "cfg.port".toList).compile .blank (.ofUser ⟨1, ['u']⟩) none =
        .error (.unknownField "cfg.port".toList .object) := by
  have h : portGroup.JoinsValues :=
    ⟨List.cons_ne_nil _ _, trivial, ⟨List.cons_ne_nil _ _, trivial, trivial, trivial⟩, trivial⟩
  refine ⟨h, rfl, ?_, ?_⟩
  · rw [← compile_spread _ _ _ _ h]
    rfl
  · rw [← compile_spread _ _ _ _ h]
    rfl

end Query

end SampleSearch
