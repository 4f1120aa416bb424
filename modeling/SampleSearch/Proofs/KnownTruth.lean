import SampleSearch.Proofs.KindScope
import SampleSearch.Proofs.Readability
import SampleSearch.Store.Change

/-!
# When a truth is known

A comparison is unknown only if a cell is empty, the connectives keep what is known, and whether
there is a related row always is. In a database that fills its columns and has the record of every
object of a concrete kind, an object that is of the kind of a query has two kinds of empty cells:
its fuzzy hash may be missing, and a path may lead to nothing or to null in its document.
-/

namespace SampleSearch

namespace Truth

theorem both_ne_unknown {a b : Truth} (ha : a ≠ unknown) (hb : b ≠ unknown) :
    a.both b ≠ unknown := by
  cases a <;> cases b <;> simp_all [both]

theorem either_ne_unknown {a b : Truth} (ha : a ≠ unknown) (hb : b ≠ unknown) :
    a.either b ≠ unknown := by
  cases a <;> cases b <;> simp_all [either]

theorem flip_ne_unknown {a : Truth} (ha : a ≠ unknown) : a.flip ≠ unknown := by
  cases a <;> simp_all [flip]

theorem ofBool_ne_unknown (b : Bool) : ofBool b ≠ unknown := by cases b <;> simp [ofBool]

end Truth

namespace Cell

theorem compare?_isSome {c d : Cell} (hc : c ≠ .empty) (hd : d ≠ .empty) :
    (compare? c d).isSome = true := by
  cases c <;> cases d <;> simp_all [compare?, quotient?]

theorem stands_ne_unknown {c d : Cell} (hc : c ≠ .empty) (hd : d ≠ .empty)
    (comparison : Comparison) : c.stands comparison d ≠ .unknown := by
  obtain ⟨o, ho⟩ := Option.isSome_iff_exists.1 (compare?_isSome hc hd)
  rw [stands, ho]
  exact Truth.ofBool_ne_unknown _

theorem codes?_isSome {c : Cell} (hc : c ≠ .empty) : ∃ codes, c.codes? = some codes := by
  cases c with
  | empty => exact absurd rfl hc
  | _ => exact ⟨_, rfl⟩

theorem number?_ne_empty (t : Text) : number? t ≠ some .empty := by
  have hreal : ∀ negative size, ofReal negative size ≠ .empty := by
    intro negative size
    simp only [ofReal]
    split <;> simp
  intro h
  simp only [number?, Option.bind_eq_bind] at h
  split at h
  · cases h
  · obtain ⟨e, -, h⟩ := Option.bind_eq_some_iff.1 h
    split at h
    · cases h
    · split at h
      · cases h
      · split at h
        · cases h
        · exact hreal _ _ (Option.some.inj h)

theorem asInteger_ne_empty {c : Cell} (hc : c ≠ .empty) : c.asInteger ≠ .empty := by
  cases c with
  | empty => exact absurd rfl hc
  | text t =>
    rw [asInteger]
    cases hn : number? t with
    | none => simp
    | some d =>
      rintro rfl
      exact number?_ne_empty t hn
  | real negative size =>
    simp only [asInteger, ofReal]
    split <;> simp
  | _ => simp [asInteger]

theorem asText_ne_empty {c : Cell} (hc : c ≠ .empty) : c.asText ≠ .empty := by
  cases c <;> simp_all [asText]

end Cell

theorem Operand.convert_literal_ne_empty (o : Operand) (l : Literal) :
    o.convert l.cell ≠ .empty := by
  have hl : l.cell ≠ .empty := by cases l <;> simp [Literal.cell]
  cases o with
  | column c =>
    rw [convert]
    split
    · exact Cell.asInteger_ne_empty hl
    · exact Cell.asText_ne_empty hl
  | document c path => exact hl

namespace Condition

variable {db : Database} {s : Scope}

theorem truthOfAll_ne_unknown {cs : List Condition} (h : ∀ c ∈ cs, c.truth db s ≠ .unknown) :
    truthOfAll db s cs ≠ .unknown := by
  induction cs with
  | nil => simp [truthOfAll]
  | cons c cs ih =>
    rw [truthOfAll]
    exact Truth.both_ne_unknown (h c (by simp)) (ih fun d hd => h d (List.mem_cons_of_mem c hd))

theorem truthOfAny_ne_unknown {cs : List Condition} (h : ∀ c ∈ cs, c.truth db s ≠ .unknown) :
    truthOfAny db s cs ≠ .unknown := by
  induction cs with
  | nil => simp [truthOfAny]
  | cons c cs ih =>
    rw [truthOfAny]
    exact Truth.either_ne_unknown (h c (by simp)) (ih fun d hd => h d (List.mem_cons_of_mem c hd))

/-- The connectives keep that a condition has a known truth as far as it can be read. -/
theorem isKept_known :
    Query.IsKept fun c => c.isReadable db s = true → c.truth db s ≠ .unknown where
  all cs h hr := by
    rw [isReadable, allReadable_iff] at hr
    rw [truth]
    exact truthOfAll_ne_unknown fun c hc => h c hc (hr c hc)
  any cs h hr := by
    rw [isReadable, allReadable_iff] at hr
    rw [truth]
    exact truthOfAny_ne_unknown fun c hc => h c hc (hr c hc)
  negated c h hr := by
    rw [isReadable] at hr
    rw [truth]
    exact Truth.flip_ne_unknown (h hr)

/-- What is compared has a cell that is not empty. -/
theorem cellIn_ne_empty {o : Operand} (ho : o.value? s ≠ some .empty)
    (hr : (o.value? s).isSome = true) : o.cellIn s ≠ .empty := by
  obtain ⟨cell, hcell⟩ := Option.isSome_iff_exists.1 hr
  rw [Operand.cellIn, hcell, Option.getD_some]
  rintro rfl
  exact ho hcell

mutual

theorem truth_ne_unknown_of_isTestOf {o : Operand} (ho : o.value? s ≠ some .empty)
    {c : Condition} (h : c.IsTestOf o) (hr : c.isReadable db s = true) :
    c.truth db s ≠ .unknown := by
  cases c with
  | compare p comparison l =>
    obtain rfl : p = o := h
    rw [truth_compare]
    exact Cell.stands_ne_unknown (cellIn_ne_empty ho hr) (p.convert_literal_ne_empty l) _
  | like p pattern =>
    obtain rfl : p = o := h
    obtain ⟨hp, hvalue⟩ : pattern.octets.length ≤ maxPatternSize ∧ (p.value? s).isSome = true := by
      simpa [isReadable] using hr
    obtain ⟨codes, hcodes⟩ := Cell.codes?_isSome (cellIn_ne_empty ho hvalue)
    rw [truth_like hp, likeTruth, hcodes]
    exact Truth.ofBool_ne_unknown _
  | all cs =>
    rw [isReadable] at hr
    rw [truth]
    exact truthOfAll_ne_unknown (truth_ne_unknown_of_allTestsOf ho h hr)
  | any cs =>
    rw [isReadable] at hr
    rw [truth]
    exact truthOfAny_ne_unknown (truth_ne_unknown_of_allTestsOf ho h hr)
  | const b => exact h.elim
  | among p ls => exact h.elim
  | negated c => exact h.elim
  | related r outer c => exact h.elim

theorem truth_ne_unknown_of_allTestsOf {o : Operand} (ho : o.value? s ≠ some .empty)
    {cs : List Condition} (h : AllTestsOf o cs) (hr : allReadable db s cs = true) :
    ∀ c ∈ cs, c.truth db s ≠ .unknown := by
  cases cs with
  | nil => simp
  | cons c cs =>
    rw [allReadable, Bool.and_eq_true] at hr
    rw [List.forall_mem_cons]
    exact ⟨truth_ne_unknown_of_isTestOf ho h.1 hr.1, truth_ne_unknown_of_allTestsOf ho h.2 hr.2⟩

end

end Condition

namespace Document

/-- What is found at labels but has no text is absent or null. -/
theorem lookUp?_eq_none {t : Text} {labels : List Text} (h : lookUp? t labels = some none) :
    ∃ d, read? t = some d ∧ (find? labels d = some none ∨ find? labels d = some (some .null)) := by
  unfold lookUp? at h
  simp only [Option.bind_eq_bind, Option.bind_eq_some_iff] at h
  obtain ⟨d, hd, found, hfound, h⟩ := h
  refine ⟨d, hd, ?_⟩
  cases found with
  | none => exact .inl hfound
  | some e =>
    right
    rw [hfound]
    cases e with
    | null => rfl
    | number written plain => cases plain <;> simp [codes?] at h
    | _ => simp [codes?] at h

end Document

theorem Cell.ofCodes_ne_empty (codes : List Nat) : ofCodes codes ≠ .empty := by
  unfold ofCodes
  split <;> simp

theorem Operand.lookUp?_eq_empty {t : Text} {labels : List Text} (hquote : ∀ l ∈ labels, '"' ∉ l)
    (h : lookUp? t (Document.pathText labels) = some .empty) :
    Document.lookUp? t labels = some none := by
  simp only [lookUp?, Document.pathLabels?_pathText hquote, Option.bind_eq_bind,
    Option.bind_some, Option.map_eq_some_iff] at h
  obtain ⟨found, hfound, h⟩ := h
  cases found with
  | none => exact hfound
  | some codes => exact absurd h (Cell.ofCodes_ne_empty codes)

namespace Database

/-- Whether every row fills the columns of its table that must be filled. -/
def FillsColumns (db : Database) : Prop :=
  ∀ t, ∀ r ∈ db.rows t, (t.row? (t.cells r)).isSome = true

/-- Whether every object of a concrete kind has its record. -/
def HasRecords (db : Database) : Prop :=
  ∀ r ∈ db.rows .objects, ∀ (k : Kind) s, k.typeTag = some r.typeTag → k.source? = some s →
    db.hasRowOf s r.id = true

/-- Whether an object has a record without a fuzzy hash. -/
def LacksFuzzyHash (db : Database) (r : ObjectRecord) : Prop :=
  ∃ f ∈ db.rows .files, f.id = r.id ∧ f.ssdeep = none

/-- Whether labels lead to nothing or to null in the document of an object. -/
def LacksValue (db : Database) (r : ObjectRecord) (labels : List Text) : Prop :=
  ∃ c ∈ db.rows .configs, c.id = r.id ∧ ∃ d, Document.read? c.document = some d ∧
    (Document.find? labels d = some none ∨ Document.find? labels d = some (some .null))

/-- Whether an object is of a kind: of a concrete one by its type, of the generic one anyway. -/
def IsOfKind (k : Kind) (r : ObjectRecord) : Prop :=
  ∀ tag, k.typeTag = some tag → r.typeTag = tag

variable {db : Database} {k : Kind} {r : ObjectRecord}

theorem FillsColumns.fileSize (h : db.FillsColumns) {f : FileRecord} (hf : f ∈ db.rows .files) :
    f.fileSize ≠ .empty := by
  have hrow := h .files f hf
  rintro hempty
  simp [Table.row?, Table.columns, Table.cells, FileRecord.cells, hempty, ColumnSpec.integer]
    at hrow

theorem FillsColumns.blobSize (h : db.FillsColumns) {b : BlobRecord} (hb : b ∈ db.rows .blobs) :
    b.blobSize ≠ .empty := by
  have hrow := h .blobs b hb
  rintro hempty
  simp [Table.row?, Table.columns, Table.cells, BlobRecord.cells, hempty, ColumnSpec.integer]
    at hrow

theorem HasRecords.hasRowOf (h : db.HasRecords) (hr : r ∈ db.rows .objects) (hk : IsOfKind k r)
    {s : Source} (hs : k.source? = some s) : db.hasRowOf s r.id = true := by
  cases htag : k.typeTag with
  | none => cases k <;> simp_all [Kind.typeTag, Kind.source?]
  | some tag =>
    refine h r hr k s ?_ hs
    rw [htag, hk tag htag]

theorem config?_of_isOfKind (hrecords : db.HasRecords) (hr : r ∈ db.rows .objects)
    (hk : IsOfKind k r) (hs : k.source? = some .config) : ∃ c, db.config? r.id = some c :=
  Option.isSome_iff_exists.1 (hrecords.hasRowOf hr hk hs)

/-- Of the cells of an object of a kind only that of the fuzzy hash may be empty. -/
theorem eq_ssdeep_of_scope_eq_empty (hfills : db.FillsColumns) (hrecords : db.HasRecords)
    (hr : r ∈ db.rows .objects) (hk : IsOfKind k r) {c : Column} (hc : k.Has c)
    (h : db.scope r c = .empty) : c = .fileSsdeep ∧ db.LacksFuzzyHash r := by
  unfold scope at h
  cases hsource : c.source with
  | object =>
    rw [hsource] at h
    cases c <;> simp_all [Column.source, ObjectRecord.cell]
  | file =>
    rw [hsource] at h
    have hs : k.source? = some .file := by simpa [Kind.Has, hsource] using hc
    obtain ⟨f, hf⟩ := Option.isSome_iff_exists.1 (hrecords.hasRowOf hr hk hs)
    have hmem : f ∈ db.rows .files := List.mem_of_find?_eq_some hf
    have hid : f.id = r.id := by simpa using List.find?_some hf
    have hsize := hfills.fileSize hmem
    simp only [hf, cellOf] at h
    cases c with
    | fileSsdeep =>
      refine ⟨rfl, f, hmem, hid, ?_⟩
      cases hhash : f.ssdeep with
      | none => rfl
      | some t => simp [FileRecord.cell, hhash, Cell.ofOption] at h
    | fileSize => exact absurd h hsize
    | _ => first | (cases h; done) | cases hsource
  | config =>
    rw [hsource] at h
    have hs : k.source? = some .config := by simpa [Kind.Has, hsource] using hc
    obtain ⟨f, hf⟩ := config?_of_isOfKind hrecords hr hk hs
    simp only [hf, cellOf] at h
    cases c <;> first | (cases h; done) | cases hsource
  | blob =>
    rw [hsource] at h
    have hs : k.source? = some .blob := by simpa [Kind.Has, hsource] using hc
    obtain ⟨b, hb⟩ := Option.isSome_iff_exists.1 (hrecords.hasRowOf hr hk hs)
    have hmem : b ∈ db.rows .blobs := List.mem_of_find?_eq_some hb
    simp only [hb, cellOf] at h
    cases c with
    | blobSize => exact absurd h (hfills.blobSize hmem)
    | _ => first | (cases h; done) | cases hsource
  | _ => cases k <;> simp [Kind.Has, hsource, Kind.source?] at hc

end Database

/-- Whether the field has nothing to compare for an object: no fuzzy hash, or nothing but null at
its labels in the document. -/
def ResolvedField.Misses (f : ResolvedField) (db : Database) (r : ObjectRecord) : Prop :=
  f.strategy = .text .fileSsdeep ∧ db.LacksFuzzyHash r ∨
    f.strategy = .document .configDocument ∧ db.LacksValue r (f.residual.map Text.unescape)

section

open Database

variable {db : Database} {k : Kind} {r : ObjectRecord} (hfills : db.FillsColumns)
  (hrecords : db.HasRecords) (hr : r ∈ db.rows .objects) (hk : IsOfKind k r) {d : Directory}
  {v : Viewer}

theorem ResolvedField.has_ownColumn {f : ResolvedField} (hf : f.BelongsTo k) :
    k.Has f.strategy.ownColumn := by
  obtain ⟨e, he, hstrategy, hkind⟩ := hf
  obtain ⟨-, hsource, -⟩ := FieldEntry.looks_within he
  rw [hstrategy] at hsource
  rcases hsource with hobject | hrecord
  · exact .inl hobject
  · rcases hkind with hgeneric | hsame
    · rw [hgeneric] at hrecord
      cases hrecord
    · exact .inr (hsame ▸ hrecord)

theorem ResolvedField.BelongsTo.mem_strategies {f : ResolvedField} (hf : f.BelongsTo k) :
    f.strategy ∈ FieldEntry.strategies := by
  obtain ⟨e, he, hstrategy, -⟩ := hf
  exact hstrategy ▸ List.mem_map_of_mem he

include hfills hrecords hr hk

/-- A value for a field of the kind of an object is known of it unless the field misses it. -/
theorem Leaf.truth_ne_unknown {f : ResolvedField} (hf : f.BelongsTo k) (hmisses : ¬ f.Misses db r)
    {leaf : Leaf} {e : Condition} (h : leaf.condition d v f = .ok e)
    (hread : e.isReadable db (db.scope r) = true) : e.truth db (db.scope r) ≠ .unknown := by
  have hown := ResolvedField.has_ownColumn hf
  rcases condition_cases h with ⟨c, hc, he⟩ | ⟨c, hc, hquote, he⟩ | ⟨s, inner, -, -, -, rfl⟩
  · -- Only the column of the fuzzy hash can be empty, and it is only compared as text.
    refine Condition.truth_ne_unknown_of_isTestOf (fun hempty => ?_) he hread
    have hcolumn : f.strategy.ownColumn = c := by
      rcases hc with hc | hc | hc <;> rw [hc] <;> rfl
    rw [hcolumn] at hown
    obtain ⟨rfl, hlacks⟩ :=
      eq_ssdeep_of_scope_eq_empty hfills hrecords hr hk hown (Option.some.inj hempty)
    have hregistered := hf.mem_strategies
    rcases hc with hc | hc | hc
    · exact hmisses (.inl ⟨hc, hlacks⟩)
    · rw [hc] at hregistered
      exact absurd hregistered (by decide)
    · rw [hc] at hregistered
      exact absurd hregistered (by decide)
  · refine Condition.truth_ne_unknown_of_isTestOf (fun hempty => ?_) he hread
    obtain rfl : c = .configDocument :=
      FieldEntry.document_of_mem_strategies (hc ▸ hf.mem_strategies)
    have hs : k.source? = some .config := by
      rw [hc] at hown
      rcases hown with hobject | hrecord
      · cases hobject
      · exact hrecord
    obtain ⟨record, hrecord⟩ := config?_of_isOfKind hrecords hr hk hs
    have hcell : db.scope r .configDocument = .text record.document := by
      change cellOf ConfigRecord.cell (db.config? r.id) .configDocument = _
      rw [hrecord]
      rfl
    rw [Operand.value?, hcell] at hempty
    have hlacks : db.LacksValue r (f.residual.map Text.unescape) := by
      refine ⟨record, List.mem_of_find?_eq_some hrecord, by simpa using List.find?_some hrecord, ?_⟩
      exact Document.lookUp?_eq_none (Operand.lookUp?_eq_empty hquote hempty)
    exact hmisses (.inr ⟨hc, hlacks⟩)
  · rw [Condition.ofObject, Condition.truth]
    exact Truth.ofBool_ne_unknown _

/-- A query bound to the kind of an object is known of it unless one of its fields misses it. -/
theorem Query.truth_ne_unknown {b b' : Binding} (hb : b'.getD .object = k) {q : Query}
    {c : Condition} (h : q.compile d v b = .ok (c, b'))
    (hmisses : ∀ l ∈ q.leaves none b, ¬ l.1.Misses db r)
    (hread : c.isReadable db (db.scope r) = true) : c.truth db (db.scope r) ≠ .unknown := by
  have hbelongs := (keepsKind_of_compileIn h).leaves (by simp)
  rw [hb] at hbelongs
  refine Condition.isKept_known.of_compileIn h (fun l hl e he hr' => ?_) hread
  exact Leaf.truth_ne_unknown hfills hrecords hr hk (hbelongs l hl) (hmisses l hl) he hr'

end

end SampleSearch
