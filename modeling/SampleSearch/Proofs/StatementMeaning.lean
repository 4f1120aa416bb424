import SampleSearch.Proofs.KnownTruth
import SampleSearch.Proofs.StatementForms

/-!
# The meaning of expressions in statements

The columns that a statement speaks about are those of its tables, in the rows that it joins. Two
values are compared after the one without a class, or the text beside a number, is converted as for
the column of the other; every sign has its own meaning for values in order, and what is compared
with an empty cell is unknown. Where the names of columns show the cells of a scope, an operand is
read as the value that it has there, and compared with literals as its column is.
-/

namespace SampleSearch

def ColumnClass.isNumeric : ColumnClass → Bool
  | rowId => true
  | integer => true
  | text => false

def Parameter.cell : Parameter → Cell
  | int n => .int n
  | text t => .text t

namespace Document

def typeName : Document → Text
  | null => "null".toList
  | bool true => "true".toList
  | bool false => "false".toList
  | number written _ =>
    if written.any (fun c => c == '.' || c == 'e' || c == 'E') then "real".toList
    else "integer".toList
  | string _ => "text".toList
  | array _ => "array".toList
  | object _ => "object".toList

def typeCell : Option Document → Cell
  | none => .empty
  | some d => .text d.typeName

/-- The text of a value that is taken out of a document. The two truth values become numbers. -/
def extracted? : Option Document → Option Cell
  | none => some .empty
  | some null => some .empty
  | some (bool b) => some (.text (if b then ['1'] else ['0']))
  | some (number _ plain) => plain.map .text
  | some (string q) => some (.ofCodes q.value)
  | some (array items) => some (.text (array items).minified)
  | some (object members) => some (.text (object members).minified)

/-- The value at a path of the document in a cell. There is none in an empty cell, and no result if
the document or the path is malformed. -/
def at? (cell : Cell) (path : Parameter) : Option (Option Document) :=
  match cell.text? with
  | none => some none
  | some t => do
    let labels ← pathLabels? (← path.cell.text?)
    find? labels (← read? t)

end Document

structure Sql.ColumnValue where
  columnClass : ColumnClass
  cell : Cell

def Table.columnValue? (t : Table) (cells : List Cell) (name : Text) : Option Sql.ColumnValue :=
  ((t.columns.zip cells).find? fun p => p.1.name == name).map fun p => ⟨p.1.columnClass, p.2⟩

namespace Sql

/-- What the names of columns stand for. -/
abbrev Names := ColumnName → Option ColumnValue

namespace Names

def cell (e : Names) (c : ColumnName) : Cell :=
  match e c with
  | none => .empty
  | some v => v.cell

/-- Names the columns of a table under an alias. -/
def bind (e : Names) (t : Table) (row : Text) (cells : List Cell) : Names := fun c =>
  if c.row = row then t.columnValue? cells c.name else e c

/-- Whether the names of columns stand for the cells of a scope, each of the class of its column. -/
structure Shows (e : Names) (s : Scope) : Prop where
  cell : ∀ c : Column, e.cell c.columnName = s c
  isNumeric : ∀ (c : Column) v, e c.columnName = some v → v.columnClass.isNumeric = c.isInteger

end Names

namespace Scalar

def branch? (type : Cell) (branches : List (Text × Text)) : Option Text :=
  (branches.find? fun b => type.compare? (.text b.1) == some .eq).map Prod.snd

/-- The cell of a value, unless a document is malformed. -/
def value? (e : Names) : Scalar → Option Cell
  | column c => some (e.cell c)
  | number n => some (.int n)
  | text t => some (.text t)
  | bound p => some p.cell
  | byType document path branches other otherPath => do
    let found ← Document.at? (e.cell document) path
    match branch? (Document.typeCell found) branches with
    | some t => some (.text t)
    | none => Document.extracted? (← Document.at? (e.cell other) otherPath)

def class? (e : Names) : Scalar → Option ColumnClass
  | column c => (e c).map ColumnValue.columnClass
  | _ => none

/-- A cell with a class of its own or none, beside a value with another one. -/
def converted (own other : Option ColumnClass) (cell : Cell) : Cell :=
  match own, other with
  | none, some k => cell.convert k
  | some .text, some k => if k.isNumeric then cell.asInteger else cell
  | _, _ => cell

def compared (e : Names) (holds : Ordering → Bool) (a b : Scalar) : Truth :=
  match a.value? e, b.value? e with
  | some x, some y =>
    .ofOrdering holds ((converted (a.class? e) (b.class? e) x).compare?
      (converted (b.class? e) (a.class? e) y))
  | _, _ => .unknown

end Scalar

def JoinPart.names (db : Database) (j : JoinPart) (e : Names) : List Names :=
  let joined := ((db.rows j.table).map fun r => e.bind j.table j.row (j.table.cells r)).filter
    fun f => Scalar.compared f (· == .eq) (.column j.left) (.column j.right) == .yes
  if joined.isEmpty && j.keepsAll then
    [e.bind j.table j.row (j.table.columns.map fun _ => .empty)]
  else joined

def RowSource.names (db : Database) (e : Names) (s : RowSource) : List Names :=
  s.joins.foldl (fun rows j => rows.flatMap (j.names db))
    ((db.rows s.table).map fun r => e.bind s.table s.row (s.table.cells r))

namespace Expression

/-- A text matches a pattern, unless one of the two is missing or the pattern is too long. -/
def likeTruth (value pattern : Option Cell) : Truth :=
  match value.bind Cell.codes?, pattern.bind Cell.text? with
  | some codes, some pattern =>
    if maxPatternSize < pattern.octets.length then .unknown
    else .ofBool (Text.like pattern codes)
  | _, _ => .unknown

def truth (db : Database) (e : Names) : Expression → Truth
  | compared a comparison b => Scalar.compared e comparison.holds a b
  | like value pattern => likeTruth (value.value? e) (pattern.value? e)
  | among value ps =>
    ps.foldr (fun p t => (Scalar.compared e (· == .eq) value (.bound p)).either t) .no
  | both f g => (truth db e f).both (truth db e g)
  | either f g => (truth db e f).either (truth db e g)
  | negation f => (truth db e f).flip
  | existence rows f => .ofBool ((rows.names db e).any fun row => truth db row f == .yes)

end Expression

end Sql

open Sql

namespace Cell

theorem ofCodes_codes (t : Text) : ofCodes t.codes = .text t := by
  have hvalid : t.codes.all Nat.isValidChar = true := by
    simp only [Text.codes, List.all_map, List.all_eq_true, Function.comp_apply]
    exact fun c _ => decide_eq_true c.valid
  have hback : t.codes.map Char.ofNat = t := by
    rw [Text.codes, List.map_map]
    exact List.map_id'' Char.ofNat_toNat t
  rw [ofCodes, if_pos hvalid, hback]

theorem convert_empty (k : ColumnClass) : convert k .empty = .empty := by cases k <;> rfl

end Cell

theorem Parameter.cell_parameter (l : Literal) : l.parameter.cell = l.cell := by cases l <;> rfl

namespace Truth

variable {α : Type}

theorem foldr_either_ofBool (p : α → Bool) (as : List α) :
    as.foldr (fun a t => (ofBool (p a)).either t) no = ofBool (as.any p) := by
  induction as with
  | nil => rfl
  | cons a as ih =>
    rw [List.foldr_cons, ih, List.any_cons]
    cases p a <;> cases as.any p <;> rfl

theorem foldr_either_unknown {as : List α} (h : as ≠ []) :
    as.foldr (fun _ t => unknown.either t) no = unknown := by
  induction as with
  | nil => exact absurd rfl h
  | cons a as ih =>
    rw [List.foldr_cons]
    cases as with
    | nil => rfl
    | cons b as =>
      rw [ih (List.cons_ne_nil b as)]
      rfl

end Truth

namespace Sql.Scalar

theorem converted_empty (own other : Option ColumnClass) :
    converted own other .empty = .empty := by
  cases own with
  | none =>
    cases other with
    | none => rfl
    | some k => exact Cell.convert_empty k
  | some j =>
    cases other with
    | none => cases j <;> rfl
    | some k => cases j <;> cases k <;> rfl

theorem converted_of_isNumeric_eq {j k : ColumnClass} (h : j.isNumeric = k.isNumeric)
    (cell : Cell) : converted (some j) (some k) cell = cell := by
  cases j <;> cases k <;> first | rfl | cases h

end Sql.Scalar

namespace Document

theorem branch?_typeName (d : Document) (h : ∀ b, d ≠ bool b) :
    Scalar.branch? (.text d.typeName) truthNames = none := by
  cases d with
  | bool b => exact absurd rfl (h b)
  | number written plain =>
    change Scalar.branch? (.text (if _ then "real".toList else "integer".toList)) truthNames = none
    split <;> decide
  | _ => rfl

def textCell? : Option Document → Option Cell
  | none => some .empty
  | some d => d.codes?.map fun codes => (codes.map Cell.ofCodes).getD .empty

/-- A value has the text that is searched for: its name if it is a truth value. -/
theorem named_or_extracted (found : Option Document) :
    (match Scalar.branch? (typeCell found) truthNames with
      | some t => some (Cell.text t)
      | none => extracted? found) = textCell? found := by
  cases found with
  | none => rfl
  | some d =>
    -- extracting makes numbers of the truth values, so their names come from the branches
    by_cases hd : ∃ b, d = bool b
    · obtain ⟨b, rfl⟩ := hd
      cases b <;> decide
    · rw [typeCell, branch?_typeName d fun b hb => hd ⟨b, hb⟩]
      cases d with
      | bool b => exact absurd ⟨b, rfl⟩ hd
      | null => rfl
      | number written plain =>
        cases plain <;> simp [extracted?, textCell?, codes?, Cell.ofCodes_codes]
      | string q => rfl
      | array items => simp [extracted?, textCell?, codes?, Cell.ofCodes_codes]
      | object members => simp [extracted?, textCell?, codes?, Cell.ofCodes_codes]

end Document

theorem Operand.value?_document (s : Scope) (c : Column) (path : Text) :
    (document c path).value? s =
      (Document.at? (s c) (.text path)).bind Document.textCell? := by
  simp only [value?, Document.at?]
  cases (s c).text? with
  | none => rfl
  | some t =>
    change lookUp? t path = ((Document.pathLabels? path).bind fun labels =>
      (Document.read? t).bind (Document.find? labels)).bind Document.textCell?
    simp only [lookUp?, Document.lookUp?, Option.bind_eq_bind, Option.bind_assoc]
    cases Document.pathLabels? path with
    | none => rfl
    | some labels =>
      cases Document.read? t with
      | none => rfl
      | some d =>
        cases hfound : Document.find? labels d with
        | none => simp [hfound]
        | some found => cases found <;> simp [hfound, Document.textCell?]

section

open Sql.Scalar

variable {e : Names} {s : Scope} (h : e.Shows s)

include h

theorem Operand.value?_scalar (o : Operand) : o.scalar.value? e = o.value? s := by
  cases o with
  | column c => exact congrArg some (h.cell c)
  | document c path =>
    rw [Operand.value?_document]
    simp only [Operand.scalar, Scalar.value?, h.cell]
    cases hfound : Document.at? (s c) (.text path) with
    | none => rfl
    | some found => exact Document.named_or_extracted found

/-- A value is compared with a literal that is converted as for its column. -/
theorem Operand.compared_scalar (o : Operand) (holds : Ordering → Bool) (l : Literal) :
    compared e holds o.scalar (.bound l.parameter) =
      ((o.value? s).map fun value =>
        Truth.ofOrdering holds (value.compare? (o.convert l.cell))).getD .unknown := by
  rw [compared, Operand.value?_scalar h, Scalar.value?, Parameter.cell_parameter]
  cases o with
  | document c path =>
    cases (document c path).value? s <;> rfl
  | column c =>
    change Truth.ofOrdering holds _ = Truth.ofOrdering holds _
    have hcell := h.cell c
    rw [Names.cell] at hcell
    cases hv : e c.columnName with
    | none =>
      rw [hv] at hcell
      simp only [← hcell, Operand.scalar, class?, hv, Option.map_none, converted,
        Cell.compare?_empty_left]
    | some v =>
      have hconvert : l.cell.convert v.columnClass = (column c).convert l.cell := by
        rw [convert, ← h.isNumeric c v hv]
        cases v.columnClass <;> rfl
      simp only [Operand.scalar, class?, hv, Option.map_some, converted, hconvert]
      cases v.columnClass <;> rfl

theorem Column.compared_column {c d : Column} (hcd : c.isInteger = d.isInteger)
    (holds : Ordering → Bool) :
    compared e holds (.column c.columnName) (.column d.columnName) =
      .ofOrdering holds ((s c).compare? (s d)) := by
  rw [← h.cell c, ← h.cell d]
  change Truth.ofOrdering holds _ = Truth.ofOrdering holds _
  simp only [class?, Names.cell]
  cases hv : e c.columnName with
  | none => simp only [converted_empty, Cell.compare?_empty_left]
  | some v =>
    cases hw : e d.columnName with
    | none => simp only [converted_empty, Cell.compare?_empty_right]
    | some w =>
      have hclass : v.columnClass.isNumeric = w.columnClass.isNumeric := by
        rw [h.isNumeric c v hv, h.isNumeric d w hw, hcd]
      simp only [Option.map_some, converted_of_isNumeric_eq hclass,
        converted_of_isNumeric_eq hclass.symm]

theorem Sql.Expression.truth_among (db : Database) (o : Operand) (l : Literal) (ls : List Literal) :
    (Expression.among o.scalar ((l :: ls).map Literal.parameter)).truth db e =
      (Condition.amongTruth? s o (l :: ls)).getD .unknown := by
  simp only [Expression.truth, List.foldr_map, Operand.compared_scalar h]
  change _ = ((o.value? s).map _).getD Truth.unknown
  cases o.value? s with
  | none => exact Truth.foldr_either_unknown (List.cons_ne_nil l ls)
  | some value =>
    simp only [Option.map_some, Option.getD_some, Condition.amongTruth]
    by_cases hempty : value = .empty
    · rw [if_pos hempty]
      simp only [hempty, Cell.compare?_empty_left, Truth.ofOrdering]
      exact Truth.foldr_either_unknown (List.cons_ne_nil l ls)
    · rw [if_neg hempty, ← Truth.foldr_either_ofBool]
      congr 1
      funext l t
      obtain ⟨order, horder⟩ := Option.isSome_iff_exists.1
        (Cell.compare?_isSome hempty (o.convert_literal_ne_empty l))
      rw [horder]
      rfl

theorem Sql.Expression.truth_like (db : Database) (o : Operand) (pattern : Text) :
    (Expression.like o.scalar (.bound (.text pattern))).truth db e =
      (Condition.likeTruth? s o pattern).getD .unknown := by
  rw [truth, Operand.value?_scalar h, Condition.likeTruth?]
  change likeTruth (o.value? s) (some (.text pattern)) = _
  by_cases hlong : maxPatternSize < pattern.octets.length
  · rw [if_pos hlong]
    cases hcodes : (o.value? s).bind Cell.codes? <;>
      simp [likeTruth, hcodes, Cell.text?, hlong]
  · rw [if_neg hlong]
    cases o.value? s with
    | none => rfl
    | some value =>
      rw [Option.map_some, Option.getD_some, Condition.likeTruth]
      cases hcodes : value.codes? <;> simp [likeTruth, hcodes, Cell.text?, hlong]

end

end SampleSearch
