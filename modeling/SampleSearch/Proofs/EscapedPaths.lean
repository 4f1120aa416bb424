import SampleSearch.Proofs.DocumentPaths
import SampleSearch.Proofs.Literals
import SampleSearch.Proofs.WildcardMeaning

/-!
# Escaped names in paths

A name with a backslash before every character is read back as it is. Behind the field of a path it
names the key of an attribute, or one of the labels that lead into a document, as long as it has no
point. A path is cut at its points before escapes are resolved, and a backslash does not protect a
point from this: no part of a path has one, so a key or a label with a point is not reached.
-/

namespace SampleSearch

theorem segments_of_notMem {t : Text} (h : '.' ∉ t) : segments t = [t] := by
  induction t with
  | nil => rfl
  | cons c t ih =>
    rw [List.mem_cons, not_or] at h
    rw [segments, ih h.2, if_neg (by simpa using Ne.symm h.1)]

theorem segments_append_point {t : Text} (h : '.' ∉ t) (r : Text) :
    segments (t ++ '.' :: r) = t :: segments r := by
  induction t with
  | nil => rfl
  | cons c t ih =>
    rw [List.mem_cons, not_or] at h
    rw [List.cons_append, segments, ih h.2, if_neg (by simpa using Ne.symm h.1)]

theorem notMem_of_mem_segments {s t : Text} (h : s ∈ segments t) : '.' ∉ s := by
  induction t generalizing s with
  | nil =>
    obtain rfl := List.mem_singleton.1 h
    exact List.not_mem_nil
  | cons c t ih =>
    rw [segments] at h
    split at h
    · rcases List.mem_cons.1 h with rfl | h
      · exact List.not_mem_nil
      · exact ih h
    · rename_i hc
      split at h
      · obtain rfl := List.mem_singleton.1 h
        simpa using Ne.symm (by simpa using hc : ¬ c = '.')
      · rename_i w ws hsegments
        rw [hsegments] at ih
        rcases List.mem_cons.1 h with rfl | h
        · rw [List.mem_cons, not_or]
          exact ⟨Ne.symm (by simpa using hc), ih List.mem_cons_self⟩
        · exact ih (List.mem_cons_of_mem _ h)

theorem Text.joined_singleton (separator p : Text) : Text.joined separator [p] = p := by
  simp [Text.joined]

theorem Text.joined_cons_cons (separator p q : Text) (parts : List Text) :
    Text.joined separator (p :: q :: parts) =
      p ++ separator ++ Text.joined separator (q :: parts) := by
  simp [Text.joined]

theorem segments_joined {parts : List Text} (hne : parts ≠ []) (h : ∀ p ∈ parts, '.' ∉ p) :
    segments (Text.joined ['.'] parts) = parts := by
  induction parts with
  | nil => exact absurd rfl hne
  | cons p parts ih =>
    cases parts with
    | nil => rw [Text.joined_singleton, segments_of_notMem (h p List.mem_cons_self)]
    | cons q parts =>
      rw [Text.joined_cons_cons, List.append_assoc, List.singleton_append,
        segments_append_point (h p List.mem_cons_self),
        ih (List.cons_ne_nil q parts) fun r hr => h r (List.mem_cons_of_mem _ hr)]

namespace Text

open Piece Lexeme

theorem unescape_escapeAll (s : Text) : unescape (escapeAll s) = s := by
  simp [unescape, pieces_escapeAll, Function.comp_def, char]

theorem hasWildcards_escapeAll (s : Text) : hasWildcards (escapeAll s) = false := by
  simp [hasWildcards, pieces_escapeAll, isWild]

theorem point_mem_escapeAll {s : Text} : '.' ∈ escapeAll s ↔ '.' ∈ s := by
  induction s with
  | nil => rfl
  | cons c s ih => simp [escapeAll_cons, ih]

theorem point_notMem_unescape {s : Text} (h : '.' ∉ s) : '.' ∉ unescape s := by
  intro hmem
  obtain ⟨p, hp, hpoint⟩ := List.mem_map.1 hmem
  cases p with
  | literal c =>
    obtain rfl : c = '.' := hpoint
    exact h (mem_of_literal_mem_pieces hp)
  | anyRun => exact absurd hpoint (by decide)
  | anyOne => exact absurd hpoint (by decide)

theorem isWord_cons {c : Char} {w : Text} (hc : c ≠ '\\') (hb : breaksWord c = false)
    (hw : IsWord w) : IsWord (c :: w) := by
  obtain ⟨⟨-, hbare⟩, hwhole⟩ := hw
  refine ⟨⟨List.cons_ne_nil c w, ?_⟩, (isWhole_cons hc w).trans hwhole⟩
  rw [unprotected_cons hc]
  intro d hd
  rcases List.mem_cons.1 hd with rfl | hd
  · simpa [breaksWord] using hb
  · exact hbare d hd

theorem isWord_append {k w : Text} (hk : (k.all fun c => c != '\\' && !breaksWord c) = true)
    (hw : IsWord w) : IsWord (k ++ w) := by
  induction k with
  | nil => exact hw
  | cons c k ih =>
    rw [List.all_cons, Bool.and_eq_true, Bool.and_eq_true, bne_iff_ne, Bool.not_eq_true'] at hk
    obtain ⟨⟨hc, hb⟩, hk⟩ := hk
    exact isWord_cons hc hb (ih hk)

theorem isWord_escapeAll_append {w : Text} (hw : IsWord w) (s : Text) :
    IsWord (escapeAll s ++ w) := by
  induction s with
  | nil => exact hw
  | cons c s ih => exact ⟨⟨List.cons_ne_nil _ _, ih.bare.2⟩, ih.whole⟩

theorem isWord_joined {labels : List Text} (hne : labels ≠ []) (h : ∀ l ∈ labels, l ≠ []) :
    IsWord (joined ['.'] (labels.map escapeAll)) := by
  induction labels with
  | nil => exact absurd rfl hne
  | cons l labels ih =>
    cases labels with
    | nil =>
      rw [List.map_singleton, joined_singleton]
      exact isWord_escapeAll (h l List.mem_cons_self)
    | cons m labels =>
      have hrest := ih (List.cons_ne_nil m labels) fun r hr => h r (List.mem_cons_of_mem _ hr)
      rw [List.map_cons, List.map_cons, joined_cons_cons, List.append_assoc, List.singleton_append]
      exact isWord_escapeAll_append (isWord_cons (by decide) (by decide) hrest) l

end Text

namespace ResolvedField

theorem mem_of_splitKind {b : Binding} {parts rest : List Text} {kind : Kind}
    (h : splitKind b parts = (kind, rest)) {p : Text} (hp : p ∈ rest) : p ∈ parts := by
  cases parts with
  | nil =>
    cases h
    cases hp
  | cons first parts =>
    rw [splitKind] at h
    split at h
    · cases h
      exact List.mem_cons_of_mem _ hp
    · cases h
      exact hp

/-- Whatever a path leaves for its field names nothing with a point. -/
theorem point_notMem_of_resolve {path : Text} {b : Binding} {f : ResolvedField}
    (h : resolve path b = .ok f) {p : Text} (hp : p ∈ f.residual) : '.' ∉ Text.unescape p := by
  obtain ⟨-, name, residual, e, hsplit, -, -, rfl⟩ := exists_entry_of_resolve h
  exact Text.point_notMem_unescape
    (notMem_of_mem_segments (mem_of_splitKind hsplit (List.mem_cons_of_mem name hp)))

def attributePath (t : Text) : Text := "meta.".toList ++ t

def documentPath (t : Text) : Text := "static.cfg.".toList ++ t

theorem resolve_attributePath (t : Text) (b : Binding) : resolve (attributePath t) b =
    if (segments t).any List.isEmpty then .error (.emptySegment (attributePath t))
    else .ok ⟨attributePath t, b.getD .object, .keyed, segments t⟩ := by
  have hparts : segments (attributePath t) = "meta".toList :: segments t :=
    segments_append_point (t := "meta".toList) (by decide) t
  have hfield : ∀ kind, FieldEntry.find? kind "meta".toList =
      some ⟨.object, "meta".toList, .keyed⟩ := by
    intro kind
    cases kind <;> rfl
  have hsplit : splitKind b ("meta".toList :: segments t) =
      (b.getD .object, "meta".toList :: segments t) := rfl
  have hne : (segments t).isEmpty = false := by
    cases h : segments t with
    | nil => exact absurd h (segments_ne_nil t)
    | cons s ss => rfl
  simp only [resolve, hparts, hsplit, ofSegments, hfield, hne]
  rfl

theorem strategy_of_attributePath {t : Text} {b : Binding} {f : ResolvedField}
    (h : resolve (attributePath t) b = .ok f) : f.strategy = .keyed := by
  rw [resolve_attributePath] at h
  split at h
  · cases h
  · cases h
    rfl

theorem resolve_documentPath (t : Text) (b : Binding) : resolve (documentPath t) b =
    if (segments t).any List.isEmpty then .error (.emptySegment (documentPath t))
    else .ok ⟨documentPath t, .config, .document .configDocument, segments t⟩ := by
  have hparts : segments (documentPath t) = "static".toList :: "cfg".toList :: segments t :=
    (segments_append_point (t := "static".toList) (by decide) _).trans
      (congrArg _ (segments_append_point (t := "cfg".toList) (by decide) t))
  have hfield : FieldEntry.find? .config "cfg".toList =
      some ⟨.config, "cfg".toList, .document .configDocument⟩ := rfl
  have hsplit : splitKind b ("static".toList :: "cfg".toList :: segments t) =
      (.config, "cfg".toList :: segments t) := rfl
  simp only [resolve, hparts, hsplit, ofSegments, hfield]
  simp [Strategy.takesSegments]

theorem strategy_of_documentPath {t : Text} {b : Binding} {f : ResolvedField}
    (h : resolve (documentPath t) b = .ok f) : f.strategy = .document .configDocument := by
  rw [resolve_documentPath] at h
  split at h
  · cases h
  · cases h
    rfl

end ResolvedField

namespace Condition

def attributeIs (key s : Text) : Condition :=
  .ofObject .attributes (.conjoin [.equals (.column .attributeKey) (.text key),
    .equals (.document .attributeValue (Document.pathText [])) (.text s)])

def documentIs (labels : List Text) (s : Text) : Condition :=
  .equals (.document .configDocument (Document.pathText labels)) (.text s)

end Condition

namespace Leaf

variable {d : Directory} {v : Viewer} {f : ResolvedField} {s : Text}

theorem textCondition_escapeAll (o : Operand) (s : Text) :
    textCondition o s.escapeAll = .equals o (.text s) :=
  textCondition_of_literals (Text.pieces_escapeAll s)

theorem condition_keyed_escapeAll {key : Text} {definition : AttributeDefinition}
    (hf : f.strategy = .keyed) (hresidual : f.residual = [key.escapeAll])
    (hdefinition : d.attribute? key = .ok (some definition))
    (hreadable : definition.readableBy v = true) :
    (term s.escapeAll).condition d v f = .ok (.attributeIs key s) := by
  obtain ⟨path, kind, strategy, residual⟩ := f
  cases hf
  cases hresidual
  change keyedCondition d v path [key.escapeAll] (term s.escapeAll) = _
  simp only [keyedCondition, Text.unescape_escapeAll, Text.hasWildcards_escapeAll,
    textCondition_escapeAll, Bool.and_false]
  refine bind_eq_ok_iff.2 ⟨definition, required_eq_ok.2 hdefinition, ?_⟩
  rw [hreadable]
  rfl

theorem labels?_escapeAll {labels : List Text} (h : ∀ l ∈ labels, '"' ∉ l) :
    labels? (labels.map Text.escapeAll) = .ok labels := by
  have hsame : (labels.map Text.escapeAll).map Text.unescape = labels := by
    simp [Function.comp_def, Text.unescape_escapeAll]
  have hfree : ∀ s ∈ labels.map Text.escapeAll, '"' ∉ Text.unescape s := by
    intro s hs
    obtain ⟨l, hl, rfl⟩ := List.mem_map.1 hs
    rw [Text.unescape_escapeAll]
    exact h l hl
  rw [labels?_of_free hfree, hsame]

theorem condition_document_escapeAll {labels : List Text}
    (hf : f.strategy = .document .configDocument)
    (hresidual : f.residual = labels.map Text.escapeAll) (h : ∀ l ∈ labels, '"' ∉ l) :
    (term s.escapeAll).condition d v f = .ok (.documentIs labels s) := by
  obtain ⟨path, kind, strategy, residual⟩ := f
  cases hf
  cases hresidual
  change (documentOperand .configDocument (labels.map Text.escapeAll) >>= fun o =>
    .ok (textCondition o s.escapeAll)) = _
  rw [documentOperand, labels?_escapeAll h]
  exact congrArg Except.ok (textCondition_escapeAll _ s)

/-- The key in the condition of a value for an attribute is one of the parts of the path. -/
theorem key_mem_residual {key : Text} (hf : f.strategy = .keyed)
    (h : (term s.escapeAll).condition d v f = .ok (.attributeIs key s)) :
    ∃ segment ∈ f.residual, key = Text.unescape segment := by
  obtain ⟨path, kind, strategy, residual⟩ := f
  cases hf
  change keyedCondition d v path residual (term s.escapeAll) = _ at h
  obtain ⟨value, segment, rest, a, -, rfl, -, -, -, -, he⟩ := keyedCondition_eq_ok h
  simp only [Condition.attributeIs, Condition.ofObject, Condition.conjoin_cons_cons,
    Condition.equals, Condition.related.injEq, Condition.all.injEq, List.cons.injEq,
    Condition.compare.injEq, Literal.text.injEq] at he
  exact ⟨segment, List.mem_cons_self, he.2.2.1.2.2⟩

/-- The labels in the condition of a value in a document are the parts of the path. -/
theorem labels_eq_residual {labels : List Text} (hf : f.strategy = .document .configDocument)
    (hquote : ∀ l ∈ labels, '"' ∉ l)
    (h : (term s.escapeAll).condition d v f = .ok (.documentIs labels s)) :
    labels = f.residual.map Text.unescape := by
  obtain ⟨path, kind, strategy, residual⟩ := f
  cases hf
  obtain ⟨o, ho, he⟩ := bind_eq_ok_iff.1 h
  obtain ⟨rfl, hfree⟩ := documentOperand_eq_ok ho
  rw [textCondition_escapeAll] at he
  have hpath : Document.pathText (residual.map Text.unescape) = Document.pathText labels := by
    injection he with he
    injection he with hoperand
    injection hoperand
  have hlabels := Document.pathLabels?_pathText hfree
  rw [hpath, Document.pathLabels?_pathText hquote] at hlabels
  exact Option.some.inj hlabels

end Leaf

namespace Query

open Lexeme Condition ResolvedField

variable {d : Directory} {v : Viewer} {b : Binding} {s : Text}

theorem compile_ofTerm_eq_ok {name value : Text} {e : Condition} {k : Binding}
    (h : (ofTerm name value).compile d v b = .ok (e, k)) :
    ∃ f, resolve name b = .ok f ∧ (Leaf.term value).condition d v f = .ok e := by
  rw [ofTerm, compile, compileIn] at h
  obtain ⟨f, hf, h⟩ := bind_eq_ok_iff.1 h
  obtain ⟨b', -, h⟩ := bind_eq_ok_iff.1 h
  rw [compileIn] at h
  obtain ⟨c, hc, h⟩ := bind_eq_ok_iff.1 h
  cases h
  exact ⟨f, hf, hc⟩

theorem parse_escaped {path : Text} (hpath : IsWord path) (hopens : OpensOperand path)
    (hs : s ≠ []) : parse (termText path s.escapeAll) = .ok (ofTerm path s.escapeAll) := by
  have hword := Text.isWord_escapeAll hs
  obtain ⟨c, s, rfl⟩ := List.exists_cons_of_ne_nil hs
  exact parse_termText hpath hopens hword (isKeyword_escaped _) (by simp [Text.escapeAll_cons])

theorem parse_attributePath {key : Text} (hkey : key ≠ []) (hs : s ≠ []) :
    parse (termText (attributePath key.escapeAll) s.escapeAll) =
      .ok (ofTerm (attributePath key.escapeAll) s.escapeAll) :=
  parse_escaped (Text.isWord_append (by decide) (Text.isWord_escapeAll hkey))
    (fun c hc => by cases hc; decide) hs

/-- A key with escapes is looked for in the attributes if and only if it has no point. -/
theorem compile_attributePath_iff {key : Text} {definition : AttributeDefinition} (hkey : key ≠ [])
    (hdefinition : d.attribute? key = .ok (some definition))
    (hreadable : definition.readableBy v = true) :
    (ofTerm (attributePath key.escapeAll) s.escapeAll).compile d v b =
      .ok (attributeIs key s, some (b.getD .object)) ↔ '.' ∉ key := by
  constructor
  · intro h
    obtain ⟨f, hf, hcondition⟩ := compile_ofTerm_eq_ok h
    obtain ⟨segment, hmem, rfl⟩ :=
      Leaf.key_mem_residual (strategy_of_attributePath hf) hcondition
    exact point_notMem_of_resolve hf hmem
  · intro hpoint
    have hsegments : segments key.escapeAll = [key.escapeAll] :=
      segments_of_notMem (mt Text.point_mem_escapeAll.1 hpoint)
    have hne : ([key.escapeAll].any List.isEmpty) = false := by
      simpa using (Text.isWord_escapeAll hkey).bare.1
    have hresolve : resolve (attributePath key.escapeAll) b =
        .ok ⟨attributePath key.escapeAll, b.getD .object, .keyed, [key.escapeAll]⟩ := by
      rw [resolve_attributePath, hsegments, hne, if_neg Bool.false_ne_true]
    have hbind : Kind.bind b (b.getD .object) = .ok (some (b.getD .object)) := by
      rcases b with _ | kind
      · rfl
      · cases kind <;> rfl
    rw [compile_ofTerm hresolve hbind,
      Leaf.condition_keyed_escapeAll rfl rfl hdefinition hreadable]
    rfl

/-- The path of labels in the documents of configurations, with a backslash before every
character of a label. -/
def labelsPath (labels : List Text) : Text :=
  documentPath (Text.joined ['.'] (labels.map Text.escapeAll))

variable {labels : List Text}

theorem parse_labelsPath (hne : labels ≠ []) (hlabels : ∀ l ∈ labels, l ≠ []) (hs : s ≠ []) :
    parse (termText (labelsPath labels) s.escapeAll) =
      .ok (ofTerm (labelsPath labels) s.escapeAll) :=
  parse_escaped (Text.isWord_append (by decide) (Text.isWord_joined hne hlabels))
    (fun c hc => by cases hc; decide) hs

/-- Labels with escapes are looked up in the documents if and only if none of them has a point. -/
theorem compile_labelsPath_iff (hne : labels ≠ []) (hlabels : ∀ l ∈ labels, l ≠ [] ∧ '"' ∉ l)
    (hb : b = none ∨ b = some .object ∨ b = some .config) :
    (ofTerm (labelsPath labels) s.escapeAll).compile d v b =
      .ok (documentIs labels s, some .config) ↔ ∀ l ∈ labels, '.' ∉ l := by
  have hquote : ∀ l ∈ labels, '"' ∉ l := fun l hl => (hlabels l hl).2
  constructor
  · intro h
    obtain ⟨f, hf, hcondition⟩ := compile_ofTerm_eq_ok h
    rw [Leaf.labels_eq_residual (strategy_of_documentPath hf) hquote hcondition]
    intro l hl
    obtain ⟨segment, hmem, rfl⟩ := List.mem_map.1 hl
    exact point_notMem_of_resolve hf hmem
  · intro hpoint
    have hsegments : segments (Text.joined ['.'] (labels.map Text.escapeAll)) =
        labels.map Text.escapeAll := by
      refine segments_joined (by simpa using hne) fun p hp => ?_
      obtain ⟨l, hl, rfl⟩ := List.mem_map.1 hp
      exact mt Text.point_mem_escapeAll.1 (hpoint l hl)
    have hfull : ((labels.map Text.escapeAll).any List.isEmpty) = false := by
      rw [List.any_eq_false]
      intro p hp
      obtain ⟨l, hl, rfl⟩ := List.mem_map.1 hp
      simpa using (Text.isWord_escapeAll (hlabels l hl).1).bare.1
    have hresolve : resolve (labelsPath labels) b = .ok ⟨labelsPath labels, .config,
        .document .configDocument, labels.map Text.escapeAll⟩ := by
      rw [labelsPath, resolve_documentPath, hsegments, hfull, if_neg Bool.false_ne_true]
    have hbind : Kind.bind b .config = .ok (some .config) := by
      rcases hb with rfl | rfl | rfl <;> rfl
    rw [compile_ofTerm hresolve hbind, Leaf.condition_document_escapeAll rfl rfl hquote]
    rfl

/-- Keys of attributes and labels of documents are named by escaping all of their characters, if
they have no point, and only then: nothing that a path names has one, however it is spelled. -/
theorem names_without_points_are_addressed (d : Directory) (v : Viewer) (b : Binding) {s : Text}
    (hs : s ≠ []) :
    (∀ (key : Text) (definition : AttributeDefinition), key ≠ [] →
      d.attribute? key = .ok (some definition) → definition.readableBy v = true →
        parse (termText (attributePath key.escapeAll) s.escapeAll) =
            .ok (ofTerm (attributePath key.escapeAll) s.escapeAll) ∧
          ((ofTerm (attributePath key.escapeAll) s.escapeAll).compile d v b =
            .ok (attributeIs key s, some (b.getD .object)) ↔ '.' ∉ key)) ∧
    (b = none ∨ b = some .object ∨ b = some .config →
      ∀ labels : List Text, labels ≠ [] → (∀ l ∈ labels, l ≠ [] ∧ '"' ∉ l) →
        Document.pathLabels? (Document.pathText labels) = some labels ∧
          parse (termText (labelsPath labels) s.escapeAll) =
            .ok (ofTerm (labelsPath labels) s.escapeAll) ∧
          ((ofTerm (labelsPath labels) s.escapeAll).compile d v b =
            .ok (documentIs labels s, some .config) ↔ ∀ l ∈ labels, '.' ∉ l)) ∧
    ∀ path f, resolve path b = .ok f → ∀ p ∈ f.residual, '.' ∉ Text.unescape p := by
  refine ⟨?_, ?_, fun path f hf p hp => point_notMem_of_resolve hf hp⟩
  · intro key definition hkey hdefinition hreadable
    exact ⟨parse_attributePath hkey hs, compile_attributePath_iff hkey hdefinition hreadable⟩
  · intro hb labels hne hlabels
    exact ⟨Document.pathLabels?_pathText fun l hl => (hlabels l hl).2,
      parse_labelsPath hne (fun l hl => (hlabels l hl).1) hs,
      compile_labelsPath_iff hne hlabels hb⟩

def keyDefinition (key : Text) : AttributeDefinition := ⟨key, [], none, false, [⟨1, true, false⟩]⟩

/-- The directory in which a single key names an attribute, which one group may read. -/
def keyDirectory (key : Text) : Directory where
  group? _ := .ok none
  user? _ := .ok none
  attribute? k := .ok (if k = key then some (keyDefinition key) else none)
  position? _ _ := .ok none

def reader : Viewer := (Viewer.ofUser ⟨1, ['u']⟩).join ⟨1, ['g']⟩

def signedKey : Text := "a:b *".toList

def signedLabels : List Text := ["x y".toList, "\\(".toList]

theorem names_without_points_are_addressed_signs :
    parse "meta.\\a\\:\\b\\ \\*:\\?".toList =
        .ok (ofTerm (attributePath signedKey.escapeAll) (Text.escapeAll ['?'])) ∧
      (ofTerm (attributePath signedKey.escapeAll) (Text.escapeAll ['?'])).compile
          (keyDirectory signedKey) reader none =
        .ok (attributeIs signedKey ['?'], some .object) ∧
      parse "static.cfg.\\x\\ \\y.\\\\\\(:\\?".toList =
        .ok (ofTerm (labelsPath signedLabels) (Text.escapeAll ['?'])) ∧
      (ofTerm (labelsPath signedLabels) (Text.escapeAll ['?'])).compile
          (keyDirectory signedKey) reader none =
        .ok (documentIs signedLabels ['?'], some .config) := by
  have hne : (['?'] : Text) ≠ [] := by decide
  have hlabels : ∀ l ∈ signedLabels, l ≠ [] ∧ '"' ∉ l := by decide
  obtain ⟨hkeys, hdocuments, -⟩ :=
    names_without_points_are_addressed (keyDirectory signedKey) reader none hne
  obtain ⟨hparse, hcompile⟩ := hkeys signedKey (keyDefinition signedKey) (by decide) rfl (by decide)
  obtain ⟨-, hparse', hcompile'⟩ := hdocuments (.inl rfl) signedLabels (by decide) hlabels
  exact ⟨hparse, hcompile.2 (by decide), hparse', hcompile'.2 (by decide)⟩

def pointedName : Text := "a.b".toList

/-- An attribute whose key has a point is not found, and a label with a point is taken for two. -/
theorem names_with_points_are_cut :
    (keyDirectory pointedName).attribute? pointedName = .ok (some (keyDefinition pointedName)) ∧
      (keyDefinition pointedName).readableBy reader = true ∧
      parse "meta.\\a\\.\\b:\\x".toList =
        .ok (ofTerm (attributePath pointedName.escapeAll) (Text.escapeAll ['x'])) ∧
      (ofTerm (attributePath pointedName.escapeAll) (Text.escapeAll ['x'])).compile
          (keyDirectory pointedName) reader none = .error (.noSuchAttribute "a\\".toList) ∧
      parse "static.cfg.\\a\\.\\b:\\x".toList =
        .ok (ofTerm (labelsPath [pointedName]) (Text.escapeAll ['x'])) ∧
      (ofTerm (labelsPath [pointedName]) (Text.escapeAll ['x'])).compile
          (keyDirectory pointedName) reader none =
        .ok (documentIs ["a\\".toList, "b".toList] ['x'], some .config) := by
  have hname : pointedName ≠ [] := by decide
  have hs : (['x'] : Text) ≠ [] := by decide
  have hlabels : ∀ l ∈ [pointedName], l ≠ [] := by decide
  have hkey := parse_attributePath hname hs
  have hlabel := parse_labelsPath (List.cons_ne_nil pointedName []) hlabels hs
  exact ⟨rfl, by decide, hkey, rfl, hlabel, rfl⟩

end Query

end SampleSearch
