import SampleSearch.Compile.Plan
import SampleSearch.Scan.Term

/-!
# What queries are compiled to

The conditions of compiled queries are regular: documents are only looked into where they are
stored, along paths that are written from labels, and related rows are always those of the object
itself. This holds of every field in the registry, and so of every plan.
-/

namespace SampleSearch

theorem bind_eq_ok_iff {ε α β : Type} {x : Except ε α} {f : α → Except ε β} {b : β} :
    x >>= f = .ok b ↔ ∃ a, x = .ok a ∧ f a = .ok b := by
  cases x <;> simp [bind, Except.bind]

theorem error_of_bind_ok {ε α β : Type} {a : Except ε α} {g : α → β} {x : ε}
    (h : (a >>= fun n => Except.ok (g n)) = .error x) : a = .error x := by
  cases a with
  | error y =>
    cases h
    rfl
  | ok n => cases h

theorem map_eq_ok_iff {ε α β : Type} {x : Except ε α} {g : α → β} {y : β} :
    x.map g = .ok y ↔ ∃ a, x = .ok a ∧ g a = y := by
  cases x <;> simp [Except.map]

theorem map_eq_error_iff {ε α β : Type} {x : Except ε α} {g : α → β} {err : ε} :
    x.map g = .error err ↔ x = .error err := by
  cases x <;> simp [Except.map]

theorem exists_ok_of_any {ε α : Type} {x : Except ε α} {p : α → Bool}
    (h : x.toOption.any p = true) : ∃ a, x = .ok a ∧ p a = true := by
  cases x with
  | error e => cases h
  | ok a => exact ⟨a, rfl, h⟩

theorem exists_ok_of_isSome {ε α : Type} {x : Except ε α} (h : x.toOption.isSome = true) :
    ∃ a, x = .ok a := by
  cases x with
  | error e => cases h
  | ok a => exact ⟨a, rfl⟩

namespace FieldEntry

/-- The strategies of all fields. -/
def strategies : List Strategy := tables.flatten.map FieldEntry.strategy

theorem findIn_eq_some {table : List FieldEntry} {kind : Kind} {name : Text} {e : FieldEntry}
    (h : findIn table kind name = some e) : e ∈ table ∧ e.kind = kind ∧ e.name = name := by
  have hentry := List.find?_some h
  rw [Bool.and_eq_true, beq_iff_eq, beq_iff_eq] at hentry
  exact ⟨List.mem_of_find?_eq_some h, hentry⟩

/-- A field that is found has the name and is of the kind or of the generic one. -/
theorem find?_eq_some {kind : Kind} {name : Text} {e : FieldEntry} (h : find? kind name = some e) :
    e ∈ tables.flatten ∧ (e.kind = .object ∨ e.kind = kind) ∧ e.name = name := by
  unfold find? at h
  obtain ⟨table, htable, hfound⟩ := List.exists_of_findSome?_eq_some h
  rw [Option.orElse_eq_orElse, Option.orElse_eq_or, Option.or_eq_some_iff] at hfound
  rcases hfound with hown | ⟨-, hinherited⟩
  · obtain ⟨hmem, hkind, hname⟩ := findIn_eq_some hown
    exact ⟨List.mem_flatten_of_mem htable hmem, .inr hkind, hname⟩
  · obtain ⟨hmem, hkind, hname⟩ := findIn_eq_some hinherited
    exact ⟨List.mem_flatten_of_mem htable hmem, .inl hkind, hname⟩

theorem strategy_mem_of_find? {kind : Kind} {name : Text} {e : FieldEntry}
    (h : find? kind name = some e) : e.strategy ∈ strategies :=
  List.mem_map_of_mem (find?_eq_some h).1

theorem text_of_mem_strategies {c : Column} (h : .text c ∈ strategies) : c.isInteger = false := by
  revert h
  cases c <;> decide

theorem integer_of_mem_strategies {c : Column} (h : .integer c ∈ strategies) :
    c.isInteger = true := by
  revert h
  cases c <;> decide

theorem moment_of_mem_strategies {c : Column} (h : .moment c ∈ strategies) :
    c.isInteger = false := by
  revert h
  cases c <;> decide

theorem document_of_mem_strategies {c : Column} (h : .document c ∈ strategies) :
    c = .configDocument := by
  revert h
  cases c <;> decide

theorem related_of_mem_strategies {r : Relation} {c : Column} (h : .related r c ∈ strategies) :
    r = .tags ∧ c = .tagName ∨ r = .comments ∧ c = .commentText ∨
      r = .altNames ∧ c = .altNameText := by
  revert h
  cases r <;> cases c <;> decide

end FieldEntry

namespace ResolvedField

/-- What is known of a path that is resolved: no part of it is empty, and behind the kind stands the
name of a field of this kind. -/
theorem exists_entry_of_resolve {path : Text} {b : Binding} {f : ResolvedField}
    (h : resolve path b = .ok f) :
    (segments path).any List.isEmpty = false ∧ ∃ name residual e,
      splitKind b (segments path) = (f.kind, name :: residual) ∧
        FieldEntry.find? f.kind name = some e ∧ f.strategy = e.strategy ∧
          f.residual = residual := by
  unfold resolve at h
  by_cases hempty : (segments path).any List.isEmpty = true
  · simp [hempty] at h
  · refine ⟨Bool.eq_false_iff.2 hempty, ?_⟩
    simp only [if_neg hempty] at h
    generalize splitKind b (segments path) = split at h
    obtain ⟨kind, parts⟩ := split
    cases parts with
    | nil => simp [ofSegments] at h
    | cons name residual =>
      simp only [ofSegments] at h
      cases he : FieldEntry.find? kind name with
      | none => simp [he] at h
      | some e =>
        simp only [he] at h
        split at h
        · cases h
        · split at h
          · cases h
          · cases h
            exact ⟨name, residual, e, rfl, he, rfl, rfl⟩

theorem strategy_mem_of_resolve {path : Text} {b : Binding} {f : ResolvedField}
    (h : resolve path b = .ok f) : f.strategy ∈ FieldEntry.strategies := by
  obtain ⟨-, name, residual, e, -, he, hstrategy, -⟩ := exists_entry_of_resolve h
  exact hstrategy ▸ FieldEntry.strategy_mem_of_find? he

end ResolvedField

namespace Operand

/-- An operand that looks into a stored document does so along a written path. -/
def IsRegular : Operand → Prop
  | column _ => True
  | document c path =>
    c.holdsDocument = true ∧
      ∃ labels, (∀ l ∈ labels, '"' ∉ l) ∧ path = Document.pathText labels

end Operand

namespace Condition

mutual

/-- Whether operands are regular and related rows are those of the object. -/
def IsRegular : Condition → Prop
  | const _ => True
  | compare o _ _ => o.IsRegular
  | like o _ => o.IsRegular
  | among o _ => o.IsRegular
  | all parts => AllRegular parts
  | any parts => AllRegular parts
  | negated c => IsRegular c
  | related _ outer c => outer = .objectId ∧ IsRegular c

def AllRegular : List Condition → Prop
  | [] => True
  | c :: cs => IsRegular c ∧ AllRegular cs

end

theorem allRegular_iff {cs : List Condition} : AllRegular cs ↔ ∀ c ∈ cs, c.IsRegular := by
  induction cs with
  | nil => simp [AllRegular]
  | cons c cs ih => simp [AllRegular, ih]

theorem isRegular_all {cs : List Condition} (h : ∀ c ∈ cs, c.IsRegular) : (all cs).IsRegular :=
  allRegular_iff.2 h

mutual

/-- Whether a condition only compares one operand, with literals and patterns. -/
def IsTestOf (o : Operand) : Condition → Prop
  | compare p _ _ => p = o
  | like p _ => p = o
  | all parts => AllTestsOf o parts
  | any parts => AllTestsOf o parts
  | _ => False

def AllTestsOf (o : Operand) : List Condition → Prop
  | [] => True
  | c :: cs => IsTestOf o c ∧ AllTestsOf o cs

end

theorem allTestsOf_append {o : Operand} {cs ds : List Condition} (hc : AllTestsOf o cs)
    (hd : AllTestsOf o ds) : AllTestsOf o (cs ++ ds) := by
  induction cs with
  | nil => exact hd
  | cons c cs ih => exact ⟨hc.1, ih hc.2⟩

theorem isTestOf_conjoin {o : Operand} {cs : List Condition} (h : AllTestsOf o cs) :
    IsTestOf o (conjoin cs) := by
  match cs with
  | [] => exact h
  | [c] => exact h.1
  | c :: d :: cs => exact h

mutual

theorem isRegular_of_isTestOf {o : Operand} (ho : o.IsRegular) {c : Condition}
    (h : c.IsTestOf o) : c.IsRegular := by
  cases c with
  | compare p comparison l => exact (show p = o from h) ▸ ho
  | like p pattern => exact (show p = o from h) ▸ ho
  | all cs => exact allRegular_of_allTestsOf ho h
  | any cs => exact allRegular_of_allTestsOf ho h
  | const b => exact h.elim
  | among p ls => exact h.elim
  | negated c => exact h.elim
  | related r outer c => exact h.elim

theorem allRegular_of_allTestsOf {o : Operand} (ho : o.IsRegular) {cs : List Condition}
    (h : AllTestsOf o cs) : AllRegular cs := by
  cases cs with
  | nil => trivial
  | cons c cs => exact ⟨isRegular_of_isTestOf ho h.1, allRegular_of_allTestsOf ho h.2⟩

end

end Condition

namespace Leaf

open Condition

variable {d : Directory} {v : Viewer}

theorem isTestOf_textCondition (o : Operand) (value : Text) :
    (textCondition o value).IsTestOf o := by
  unfold textCondition
  split
  · exact rfl
  · exact rfl

theorem allTestsOf_of_integerBound {path : Text} {c : Column} {comparison : Comparison}
    {value : Text} {cs : List Condition} (h : integerBound path c comparison value = .ok cs) :
    AllTestsOf (.column c) cs := by
  unfold integerBound at h
  split at h
  · cases h
    trivial
  · obtain ⟨n, _, hn⟩ := bind_eq_ok_iff.1 h
    cases hn
    exact ⟨rfl, trivial⟩

theorem isTestOf_of_integerRange {path : Text} {c : Column} {r : Range} {e : Condition}
    (h : integerRange path c r = .ok e) : e.IsTestOf (.column c) := by
  obtain ⟨low, hlow, h⟩ := bind_eq_ok_iff.1 h
  obtain ⟨high, hhigh, h⟩ := bind_eq_ok_iff.1 h
  cases h
  exact isTestOf_conjoin
    (allTestsOf_append (allTestsOf_of_integerBound hlow) (allTestsOf_of_integerBound hhigh))

theorem allTestsOf_of_momentLow {path : Text} {c : Column} {value : Text} {cs : List Condition}
    (h : momentLow path c value = .ok cs) : AllTestsOf (.column c) cs := by
  unfold momentLow at h
  split at h
  · cases h
    trivial
  · obtain ⟨w, _, hw⟩ := bind_eq_ok_iff.1 h
    cases hw
    exact ⟨rfl, trivial⟩

theorem allTestsOf_of_momentHigh {path : Text} {c : Column} {value : Text} {cs : List Condition}
    (h : momentHigh path c value = .ok cs) : AllTestsOf (.column c) cs := by
  unfold momentHigh at h
  split at h
  · cases h
    trivial
  · obtain ⟨w, _, hw⟩ := bind_eq_ok_iff.1 h
    cases hw
    exact ⟨rfl, trivial⟩

theorem isTestOf_of_momentTerm {path : Text} {c : Column} {value : Text} {e : Condition}
    (h : momentTerm path c value = .ok e) : e.IsTestOf (.column c) := by
  unfold momentTerm at h
  split at h
  · cases h
  · obtain ⟨w, _, hw⟩ := bind_eq_ok_iff.1 h
    cases hw
    exact ⟨rfl, rfl, trivial⟩

theorem isTestOf_of_momentRange {path : Text} {c : Column} {r : Range} {e : Condition}
    (h : momentRange path c r = .ok e) : e.IsTestOf (.column c) := by
  unfold momentRange at h
  split at h
  · cases h
  · obtain ⟨low, hlow, h⟩ := bind_eq_ok_iff.1 h
    obtain ⟨high, hhigh, h⟩ := bind_eq_ok_iff.1 h
    cases h
    exact isTestOf_conjoin
      (allTestsOf_append (allTestsOf_of_momentLow hlow) (allTestsOf_of_momentHigh hhigh))

theorem allTestsOf_documentBound (o : Operand) (strict : Comparison) (included : Bool)
    (value : Text) : AllTestsOf o (documentBound o strict included value) := by
  unfold documentBound
  split
  · trivial
  · split
    · exact ⟨⟨rfl, rfl, trivial⟩, trivial⟩
    · exact ⟨rfl, trivial⟩

theorem isTestOf_documentRange (o : Operand) (r : Range) : (documentRange o r).IsTestOf o :=
  isTestOf_conjoin
    (allTestsOf_append (allTestsOf_documentBound o _ _ _) (allTestsOf_documentBound o _ _ _))

theorem labels?_eq_ok {segments labels : List Text} (h : labels? segments = .ok labels) :
    labels = segments.map Text.unescape ∧ ∀ l ∈ labels, '"' ∉ l := by
  induction segments generalizing labels with
  | nil =>
    cases h
    simp
  | cons s rest ih =>
    simp only [labels?] at h
    split at h
    · cases h
    · rename_i hquote
      obtain ⟨ls, hls, h⟩ := bind_eq_ok_iff.1 h
      cases h
      obtain ⟨hmap, hfree⟩ := ih hls
      refine ⟨by rw [hmap, List.map_cons], ?_⟩
      intro l hl
      rcases List.mem_cons.1 hl with rfl | hl
      · simpa using hquote
      · exact hfree l hl

theorem documentOperand_eq_ok {c : Column} {residual : List Text} {operand : Operand}
    (h : documentOperand c residual = .ok operand) :
    operand = .document c (Document.pathText (residual.map Text.unescape)) ∧
      ∀ l ∈ residual.map Text.unescape, '"' ∉ l := by
  obtain ⟨labels, hl, h⟩ := bind_eq_ok_iff.1 h
  cases h
  obtain ⟨rfl, hfree⟩ := labels?_eq_ok hl
  exact ⟨rfl, hfree⟩

theorem isRegular_of_documentOperand {c : Column} (hc : c.holdsDocument = true)
    {residual : List Text} {o : Operand} (h : documentOperand c residual = .ok o) :
    o.IsRegular := by
  obtain ⟨rfl, hfree⟩ := documentOperand_eq_ok h
  exact ⟨hc, _, hfree, rfl⟩

theorem required_eq_ok {α : Type} {missing : SearchError} {found : Except SearchError (Option α)}
    {a : α} : Directory.required missing found = .ok a ↔ found = .ok (some a) := by
  rcases found with e | _ | b <;> simp [Directory.required]

theorem exactName_eq_ok {path : Text} {leaf : Leaf} {name : Text}
    (h : exactName path leaf = .ok name) :
    ∃ value, leaf = term value ∧ name = Text.unescape value := by
  cases leaf with
  | range r => cases h
  | term value =>
    simp only [exactName] at h
    split at h
    · cases h
    · cases h
      exact ⟨value, rfl, rfl⟩

theorem keyedCondition_eq_ok {path : Text} {residual : List Text} {leaf : Leaf} {e : Condition}
    (h : keyedCondition d v path residual leaf = .ok e) :
    ∃ value segment rest a, leaf = term value ∧ residual = segment :: rest ∧
      d.attribute? (Text.unescape segment) = .ok (some a) ∧ a.readableBy v = true ∧
      (a.hidden = true → Text.hasWildcards value = false) ∧
      (∀ l ∈ rest.map Text.unescape, '"' ∉ l) ∧
      e = .ofObject .attributes (.all [.equals (.column .attributeKey)
        (.text (Text.unescape segment)), textCondition (.document .attributeValue
          (Document.pathText (rest.map Text.unescape))) value]) := by
  cases leaf with
  | range r => cases h
  | term value =>
    cases residual with
    | nil => cases h
    | cons segment rest =>
      obtain ⟨a, ha, h⟩ := bind_eq_ok_iff.1 h
      split at h
      · cases h
      · rename_i hread
        split at h
        · cases h
        · rename_i hwild
          obtain ⟨operand, hoperand, h⟩ := bind_eq_ok_iff.1 h
          cases h
          obtain ⟨rfl, hquote⟩ := documentOperand_eq_ok hoperand
          exact ⟨value, segment, rest, a, rfl, rfl, required_eq_ok.1 ha, by simpa using hread,
            by simpa using hwild, hquote, rfl⟩

theorem sharedWithCondition_eq_ok {path : Text} {leaf : Leaf} {e : Condition}
    (h : sharedWithCondition d v path leaf = .ok e) :
    ∃ value g, leaf = term value ∧ d.group? (Text.unescape value) = .ok (some g) ∧
      (v.has .manageUsers = true ∨ v.isMember g.id = true) ∧
      e = .ofObject .permissions (.equals (.column .permissionGroup) (.int g.id)) := by
  obtain ⟨name, hname, h⟩ := bind_eq_ok_iff.1 h
  obtain ⟨value, rfl, rfl⟩ := exactName_eq_ok hname
  obtain ⟨g, hg, h⟩ := bind_eq_ok_iff.1 h
  split at h
  · rename_i hknown
    cases h
    exact ⟨value, g, rfl, required_eq_ok.1 hg, Bool.or_eq_true_iff.1 hknown, rfl⟩
  · cases h

theorem uploadedByCondition_eq_ok {path : Text} {leaf : Leaf} {e : Condition}
    (h : uploadedByCondition d v path leaf = .ok e) :
    ∃ value u, leaf = term value ∧ d.user? (Text.unescape value) = .ok (some u) ∧
      (v.has .manageUsers = true ∨ Text.unescape value = v.login) ∧
      e = .ofObject .permissions (.all [.equals (.column .permissionUser) (.int u.id),
        .equals (.column .permissionReason) (.text ShareReason.added.text)]) := by
  obtain ⟨login, hlogin, h⟩ := bind_eq_ok_iff.1 h
  obtain ⟨value, rfl, rfl⟩ := exactName_eq_ok hlogin
  split at h
  · rename_i hknown
    obtain ⟨u, hu, h⟩ := bind_eq_ok_iff.1 h
    cases h
    exact ⟨value, u, rfl, required_eq_ok.1 hu, by simpa using hknown, rfl⟩
  · cases h

/-- Every field of the registry builds regular conditions. -/
theorem isRegular_of_condition {f : ResolvedField} (hf : f.strategy ∈ FieldEntry.strategies)
    {leaf : Leaf} {e : Condition} (h : leaf.condition d v f = .ok e) : e.IsRegular := by
  obtain ⟨path, kind, strategy, residual⟩ := f
  cases strategy with
  | text c =>
    cases leaf with
    | term value =>
      cases h
      exact isRegular_of_isTestOf (o := .column c) trivial (isTestOf_textCondition _ value)
    | range r => cases h
  | integer c =>
    cases leaf with
    | term value =>
      obtain ⟨n, _, h⟩ := bind_eq_ok_iff.1 h
      cases h
      trivial
    | range r => exact isRegular_of_isTestOf (o := .column c) trivial (isTestOf_of_integerRange h)
  | moment c =>
    cases leaf with
    | term value => exact isRegular_of_isTestOf (o := .column c) trivial (isTestOf_of_momentTerm h)
    | range r => exact isRegular_of_isTestOf (o := .column c) trivial (isTestOf_of_momentRange h)
  | related r c =>
    cases leaf with
    | term value =>
      cases h
      exact ⟨rfl, isRegular_of_isTestOf (o := .column c) trivial (isTestOf_textCondition _ value)⟩
    | range r => cases h
  | document c =>
    have hc : c.holdsDocument = true := by rw [FieldEntry.document_of_mem_strategies hf]; rfl
    cases leaf with
    | term value =>
      obtain ⟨o, ho, h⟩ := bind_eq_ok_iff.1 h
      cases h
      exact isRegular_of_isTestOf (isRegular_of_documentOperand hc ho)
        (isTestOf_textCondition o value)
    | range r =>
      obtain ⟨o, ho, h⟩ := bind_eq_ok_iff.1 h
      cases h
      exact isRegular_of_isTestOf (isRegular_of_documentOperand hc ho) (isTestOf_documentRange o r)
  | keyed =>
    obtain ⟨value, segment, rest, a, rfl, rfl, _, _, _, hquote, rfl⟩ := keyedCondition_eq_ok h
    have hreg : (Operand.document .attributeValue
        (Document.pathText (rest.map Text.unescape))).IsRegular := ⟨rfl, _, hquote, rfl⟩
    exact ⟨rfl, trivial, isRegular_of_isTestOf hreg (isTestOf_textCondition _ value), trivial⟩
  | sharedWith =>
    obtain ⟨value, g, rfl, _, _, rfl⟩ := sharedWithCondition_eq_ok h
    exact ⟨rfl, trivial⟩
  | uploadedBy =>
    obtain ⟨value, u, rfl, _, _, rfl⟩ := uploadedByCondition_eq_ok h
    exact ⟨rfl, trivial, trivial, trivial⟩

end Leaf

namespace Query

open Condition

variable {d : Directory} {v : Viewer}

/-- What holds of the conditions of all fields and is kept by the connectives. -/
structure IsInvariant (d : Directory) (v : Viewer) (P : Condition → Prop) : Prop where
  leaf : ∀ f : ResolvedField, f.strategy ∈ FieldEntry.strategies → ∀ (leaf : Leaf) c,
    leaf.condition d v f = .ok c → P c
  all : ∀ cs, (∀ c ∈ cs, P c) → P (.all cs)
  any : ∀ cs, (∀ c ∈ cs, P c) → P (.any cs)
  negated : ∀ c, P c → P (.negated c)

variable {P : Condition → Prop}

theorem IsInvariant.of_leafCondition (hP : IsInvariant d v P) {field : Option ResolvedField}
    (hf : ∀ f ∈ field, f.strategy ∈ FieldEntry.strategies) {leaf : Leaf} {b b' : Binding}
    {c : Condition} (h : (do .ok (← leafCondition d v field leaf, b)) = Except.ok (c, b')) :
    P c := by
  obtain ⟨e, he, h⟩ := bind_eq_ok_iff.1 h
  cases h
  cases field with
  | none => cases he
  | some f => exact hP.leaf f (hf f rfl) leaf _ he

mutual

theorem IsInvariant.of_compileIn (hP : IsInvariant d v P) {field : Option ResolvedField}
    (hf : ∀ f ∈ field, f.strategy ∈ FieldEntry.strategies) {b b' : Binding} {q : Query}
    {c : Condition} (h : compileIn d v field b q = .ok (c, b')) : P c := by
  cases q with
  | all parts =>
    obtain ⟨⟨cs, e⟩, hparts, h⟩ := bind_eq_ok_iff.1 (by simpa only [compileIn] using h)
    cases h
    exact hP.all cs (hP.of_compileParts hf hparts)
  | any parts =>
    obtain ⟨⟨cs, e⟩, hparts, h⟩ := bind_eq_ok_iff.1 (by simpa only [compileIn] using h)
    cases h
    exact hP.any cs (hP.of_compileParts hf hparts)
  | negated q =>
    obtain ⟨⟨e, _⟩, hq, h⟩ := bind_eq_ok_iff.1 (by simpa only [compileIn] using h)
    cases h
    exact hP.negated e (hP.of_compileIn hf hq)
  | prohibited q =>
    obtain ⟨⟨e, _⟩, hq, h⟩ := bind_eq_ok_iff.1 (by simpa only [compileIn] using h)
    cases h
    exact hP.negated e (hP.of_compileIn hf hq)
  | group q => exact hP.of_compileIn hf (by simpa only [compileIn] using h)
  | fieldGroup q => exact hP.of_compileIn hf (by simpa only [compileIn] using h)
  | field name q =>
    obtain ⟨f, hname, h⟩ := bind_eq_ok_iff.1 (by simpa only [compileIn] using h)
    obtain ⟨bound, _, hq⟩ := bind_eq_ok_iff.1 h
    have hregistered := ResolvedField.strategy_mem_of_resolve hname
    exact hP.of_compileIn (by simpa using hregistered) hq
  | word value => exact hP.of_leafCondition hf (by simpa only [compileIn] using h)
  | phrase content => exact hP.of_leafCondition hf (by simpa only [compileIn] using h)
  | range r => exact hP.of_leafCondition hf (by simpa only [compileIn] using h)
  | required q => cases h
  | fuzzy value degree => cases h
  | proximity content degree => cases h
  | boost q force => cases h
  | regex pattern => cases h

theorem IsInvariant.of_compileParts (hP : IsInvariant d v P) {field : Option ResolvedField}
    (hf : ∀ f ∈ field, f.strategy ∈ FieldEntry.strategies) {b b' : Binding} {qs : List Query}
    {cs : List Condition} (h : compileParts d v field b qs = .ok (cs, b')) : ∀ c ∈ cs, P c := by
  cases qs with
  | nil =>
    cases h
    simp
  | cons q qs =>
    obtain ⟨⟨e, _⟩, hq, h⟩ := bind_eq_ok_iff.1 (by simpa only [compileParts] using h)
    obtain ⟨⟨es, _⟩, hqs, h⟩ := bind_eq_ok_iff.1 h
    cases h
    rw [List.forall_mem_cons]
    exact ⟨hP.of_compileIn hf hq, hP.of_compileParts hf hqs⟩

end

theorem IsInvariant.of_compile (hP : IsInvariant d v P) {b b' : Binding} {q : Query}
    {c : Condition} (h : q.compile d v b = .ok (c, b')) : P c := hP.of_compileIn (by simp) h

theorem isInvariant_isRegular : IsInvariant d v Condition.IsRegular where
  leaf _ hf _ _ h := Leaf.isRegular_of_condition hf h
  all _ h := isRegular_all h
  any _ h := allRegular_iff.2 h
  negated c h := by simpa only [Condition.IsRegular] using h

end Query

theorem Viewer.isRegular_access (v : Viewer) : v.access.IsRegular := by
  unfold access accessTo
  split
  · trivial
  · split
    · trivial
    · exact ⟨rfl, trivial⟩

namespace Plan

theorem isRegular_afterPosition (sort : SortOrder) (p : Position) :
    (afterPosition sort p).IsRegular := ⟨trivial, ⟨trivial, trivial, trivial⟩, trivial⟩

theorem isRegular_ofKind (k : Kind) : ∀ c ∈ ofKind k, c.IsRegular := by
  intro c hc
  unfold ofKind at hc
  split at hc
  · simp at hc
  · cases List.mem_singleton.1 hc
    trivial

/-- The parts of the condition of a plan, each by itself. -/
theorem forall_mem_parts {P : Condition → Prop} {kind after : List Condition}
    {c access : Condition} :
    (∀ e ∈ kind ++ [c, access] ++ after, P e) ↔
      ((∀ e ∈ kind, P e) ∧ P c ∧ P access) ∧ ∀ e ∈ after, P e := by
  simp only [List.forall_mem_append, List.forall_mem_cons, List.not_mem_nil, false_implies,
    implies_true, and_true]

/-- What the plan of a query consists of. -/
theorem ofQuery_eq_ok {d : Directory} {v : Viewer} {o : SearchOptions} {q : Query} {p : Plan}
    (h : ofQuery d v o q = .ok p) :
    ∃ c b after, q.compile d v o.kind = .ok (c, b) ∧
      afterObject d v o.sort o.olderThan = .ok after ∧
      p = ⟨b.getD .object, .all (ofKind (b.getD .object) ++ [c, v.access] ++ after), o.sort,
        o.effectiveLimit⟩ := by
  obtain ⟨⟨c, b⟩, hc, h⟩ := bind_eq_ok_iff.1 h
  obtain ⟨after, hafter, h⟩ := bind_eq_ok_iff.1 h
  cases h
  exact ⟨c, b, after, hc, hafter, rfl⟩

/-- What a compiled plan consists of. -/
theorem compile_eq_ok {d : Directory} {v : Viewer} {o : SearchOptions} {text : Text} {p : Plan}
    (h : compile d v o text = .ok p) :
    ∃ q c b after, Query.parse text = .ok q ∧ q.compile d v o.kind = .ok (c, b) ∧
      afterObject d v o.sort o.olderThan = .ok after ∧
      p = ⟨b.getD .object, .all (ofKind (b.getD .object) ++ [c, v.access] ++ after), o.sort,
        o.effectiveLimit⟩ := by
  obtain ⟨q, hq, h⟩ := bind_eq_ok_iff.1 h
  exact ⟨q, (ofQuery_eq_ok h).imp fun _ hc => hc.imp fun _ hb => hb.imp fun _ h => ⟨hq, h⟩⟩

theorem afterObject_eq_ok {d : Directory} {v : Viewer} {sort : SortOrder}
    {dhash : Option Text} {after : List Condition}
    (h : afterObject d v sort dhash = .ok after) :
    (dhash = none ∧ after = []) ∨
      ∃ t p, dhash = some t ∧ d.position? t v = .ok (some p) ∧ after = [afterPosition sort p] := by
  cases dhash with
  | none =>
    cases h
    left
    exact ⟨rfl, rfl⟩
  | some t =>
    right
    obtain ⟨p, hp, h⟩ := bind_eq_ok_iff.1 h
    cases h
    refine ⟨t, p, rfl, ?_, rfl⟩
    cases hfound : d.position? t v with
    | error err => simp [Directory.required, hfound] at hp
    | ok found =>
      cases found with
      | none => simp [Directory.required, hfound] at hp
      | some r =>
        simp only [Directory.required, hfound, Except.ok.injEq] at hp
        rw [hp]

/-- What is kept by the connectives holds of the condition of a plan if it holds of its parts. -/
theorem holds_of_ofQuery {P : Condition → Prop} {d : Directory} {v : Viewer} {o : SearchOptions}
    {q : Query} {p : Plan} (h : ofQuery d v o q = .ok p) (hquery : Query.IsInvariant d v P)
    (hkind : ∀ k, ∀ c ∈ ofKind k, P c) (haccess : P v.access)
    (hafter : ∀ sort pos, P (afterPosition sort pos)) : P p.condition := by
  obtain ⟨c, b, after, hc, hafterObject, rfl⟩ := ofQuery_eq_ok h
  refine hquery.all _ (forall_mem_parts.2 ⟨⟨hkind _, hquery.of_compile hc, haccess⟩, ?_⟩)
  rcases afterObject_eq_ok hafterObject with ⟨_, rfl⟩ | ⟨t, pos, _, _, rfl⟩
  · simp
  · simpa using hafter o.sort pos

/-- The condition of a plan is regular. -/
theorem isRegular_of_ofQuery {d : Directory} {v : Viewer} {o : SearchOptions} {q : Query}
    {p : Plan} (h : ofQuery d v o q = .ok p) : p.condition.IsRegular :=
  holds_of_ofQuery h Query.isInvariant_isRegular isRegular_ofKind v.isRegular_access
    isRegular_afterPosition

theorem isRegular_of_compile {d : Directory} {v : Viewer} {o : SearchOptions} {text : Text}
    {p : Plan} (h : compile d v o text = .ok p) : p.condition.IsRegular := by
  obtain ⟨q, _, h⟩ := bind_eq_ok_iff.1 h
  exact isRegular_of_ofQuery h

end Plan

end SampleSearch
