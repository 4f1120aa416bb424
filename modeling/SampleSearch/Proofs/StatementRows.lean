import SampleSearch.Proofs.DistinctKeys
import SampleSearch.Proofs.RelatedRows
import SampleSearch.Proofs.StatementMeaning

/-!
# Rows of statements

A statement names the columns of the rows that it joins. The rows related to an object are those of
its relation with the names of its table, and in an intact database every object is joined to no
more than one row of each concrete kind, so it stands in one row. In the names of such a row, the
expression of a condition has the truth of the condition on the object.
-/

namespace SampleSearch

open Sql

theorem Source.alias_injective {a b : Source} (h : a.alias = b.alias) : a = b := by
  revert h
  cases a <;> cases b <;> decide

/-- A scope in which a row takes the place of one source. -/
def Scope.put (s : Scope) (source : Source) (row : Scope) : Scope := fun c =>
  if c.source = source then row c else s c

/-- Whether the cells of a row of a table are those of a scope in the columns of a source. -/
def Table.Fills (t : Table) (cells : List Cell) (source : Source) (row : Scope) : Prop :=
  ∀ c : Column, c.source = source →
    ∃ v, t.columnValue? cells c.name = some v ∧ v.cell = row c ∧
      v.columnClass.isNumeric = c.isInteger

theorem Sql.Names.Shows.bind {e : Names} {s row : Scope} {t : Table} {source : Source}
    {cells : List Cell} (h : e.Shows s) (hrow : t.Fills cells source row) :
    (e.bind t source.alias cells).Shows (s.put source row) := by
  have hown {c : Column} (hc : c.source = source) :
      e.bind t source.alias cells c.columnName = t.columnValue? cells c.name :=
    if_pos (congrArg Source.alias hc)
  have hother {c : Column} (hc : c.source ≠ source) :
      e.bind t source.alias cells c.columnName = e c.columnName :=
    if_neg fun halias => hc (Source.alias_injective halias)
  constructor
  · intro c
    rw [Names.cell, Scope.put]
    by_cases hc : c.source = source
    · obtain ⟨v, hv, hcell, -⟩ := hrow c hc
      rw [hown hc, hv, if_pos hc]
      exact hcell
    · rw [hother hc, if_neg hc]
      exact h.cell c
  · intro c v hv
    by_cases hc : c.source = source
    · obtain ⟨w, hw, -, hnumeric⟩ := hrow c hc
      rw [hown hc, hw] at hv
      exact Option.some.inj hv ▸ hnumeric
    · rw [hother hc] at hv
      exact h.isNumeric c v hv

structure SourceRow where
  source : Source
  table : Table
  cells : List Cell

def Sql.Names.bindAll (e : Names) (rows : List SourceRow) : Names :=
  rows.foldl (fun e r => e.bind r.table r.source.alias r.cells) e

theorem Sql.Names.shows_empty : Names.Shows (fun _ => none) fun _ => .empty :=
  ⟨fun _ => rfl, nofun⟩

/-- Rows that are filled from a scope show it, if it differs nowhere else from what was shown. -/
theorem Sql.Names.Shows.bindAll {own : Scope} {rows : List SourceRow}
    (hrows : ∀ r ∈ rows, r.table.Fills r.cells r.source own) {e : Names} {s : Scope}
    (h : e.Shows s) (hother : ∀ c, rows.any (·.source == c.source) = false → s c = own c) :
    (e.bindAll rows).Shows own := by
  induction rows generalizing e s with
  | nil =>
    have hsame : s = own := funext fun c => hother c rfl
    exact hsame ▸ h
  | cons r rows ih =>
    apply ih (fun r hr => hrows r (List.mem_cons_of_mem _ hr))
      (h.bind (hrows r List.mem_cons_self))
    intro c hc
    rw [Scope.put]
    by_cases hsource : c.source = r.source
    · rw [if_pos hsource]
    · rw [if_neg hsource]
      apply hother
      rw [List.any_cons, hc, Bool.or_false]
      exact beq_eq_false_iff_ne.2 fun heq => hsource heq.symm

namespace RelatedRow

def sourceRows : RelatedRow → List SourceRow
  | tag ot t => [⟨.tagging, .taggings, ot.cells⟩, ⟨.tag, .tags, t.cells⟩]
  | comment r => [⟨.comment, .comments, r.cells⟩]
  | altName r => [⟨.altName, .altNames, r.cells⟩]
  | attributeRow r => [⟨.attributeRow, .attributes, r.cells⟩]
  | permission r => [⟨.permission, .permissions, r.cells⟩]

def names (e : Names) (row : RelatedRow) : Names := e.bindAll row.sourceRows

theorem fills_sourceRows (row : RelatedRow) (s : Scope) :
    ∀ r ∈ row.sourceRows, r.table.Fills r.cells r.source (row.enter s) := by
  intro r hr c hc
  cases row <;> simp only [sourceRows, List.mem_cons, List.not_mem_nil, or_false] at hr
  case tag ot t =>
    rcases hr with rfl | rfl
    · cases c <;> cases hc
      exact ⟨_, rfl, rfl, rfl⟩
    · cases c <;> cases hc
      exact ⟨_, rfl, rfl, rfl⟩
  all_goals
    subst hr
    cases c <;> cases hc <;> exact ⟨_, rfl, rfl, rfl⟩

theorem shows_names {e : Names} {s : Scope} (h : e.Shows s) (row : RelatedRow) :
    (row.names e).Shows (row.enter s) := by
  apply h.bindAll (row.fills_sourceRows s)
  intro c hc
  cases row <;> cases c <;> first | rfl | cases hc

end RelatedRow

theorem Truth.ofOrdering_compare?_int (m n : Int) :
    (ofOrdering (· == .eq) ((Cell.int m).compare? (.int n)) == yes) = (m == n) := by
  have hiff := Cell.compare?_int_eq_iff m n
  by_cases h : m = n
  · rw [hiff.2 h, beq_iff_eq.2 h]
    rfl
  · obtain ⟨order, horder⟩ := Option.isSome_iff_exists.1
      (Cell.compare?_isSome (c := .int m) (d := .int n) nofun nofun)
    have hne : order ≠ .eq := fun heq => h (hiff.1 (heq ▸ horder))
    rw [horder, beq_false_of_ne h]
    cases order with
    | eq => exact absurd rfl hne
    | lt => rfl
    | gt => rfl

theorem Sql.JoinPart.names_eq (db : Database) (j : JoinPart) (e : Names)
    {isJoined : j.table.Record → Bool}
    (h : ∀ r, (Scalar.compared (e.bind j.table j.row (j.table.cells r)) (· == .eq) (.column j.left)
      (.column j.right) == .yes) = isJoined r) :
    j.names db e =
      if ((db.rows j.table).filter isJoined).isEmpty && j.keepsAll then
        [e.bind j.table j.row (j.table.columns.map fun _ => .empty)]
      else ((db.rows j.table).filter isJoined).map fun r =>
        e.bind j.table j.row (j.table.cells r) := by
  simp only [names, List.filter_map, Function.comp_def, h, List.isEmpty_map]

open Sql.Scalar in
theorem names_tagJoin (db : Database) (e : Names) (ot : TaggingRecord) :
    tagJoin.names db (e.bind .taggings Source.tagging.alias ot.cells) =
      ((db.rows .tags).filter fun t => t.id == ot.tagId).map fun t =>
        (RelatedRow.tag ot t).names e := by
  have hjoined (t : TagRecord) : (compared ((RelatedRow.tag ot t).names e) (· == .eq)
      (.column tagJoin.left) (.column tagJoin.right) == .yes) = (t.id == ot.tagId) :=
    Truth.ofOrdering_compare?_int t.id ot.tagId
  have hnames := JoinPart.names_eq db tagJoin
    (e.bind .taggings Source.tagging.alias ot.cells) hjoined
  rwa [show tagJoin.keepsAll = false from rfl, Bool.and_false] at hnames

theorem Relation.names_rowSource (r : Relation) (db : Database) (e : Names) :
    r.rowSource.names db e = (db.relatedRows r).map (RelatedRow.names e) := by
  cases r with
  | tags =>
    simp only [Database.relatedRows, Database.taggedRows, List.map_flatMap, List.map_map]
    change ((db.rows .taggings).map fun ot : TaggingRecord =>
      e.bind .taggings Source.tagging.alias ot.cells).flatMap _ = _
    rw [List.flatMap_map]
    congr 1
    funext ot
    exact names_tagJoin db e ot
  | _ =>
    simp only [Database.relatedRows, List.map_map]
    rfl

def Table.cellsOf (t : Table) : Option t.Record → List Cell
  | none => t.columns.map fun _ => .empty
  | some r => t.cells r

namespace Database

theorem filter_eq_toList_find? {t : Table} {rows : List t.Record}
    (hrows : keysDistinct t rows = true) {p : t.Record → Bool}
    (hp : ∀ r s, p r = true → p s = true → sharesKey t r s = true) :
    rows.filter p = (rows.find? p).toList := by
  induction rows with
  | nil => rfl
  | cons a rows ih =>
    simp only [keysDistinct, Bool.and_eq_true, Bool.not_eq_true', List.any_eq_false] at hrows
    obtain ⟨hfirst, hrest⟩ := hrows
    by_cases ha : p a = true
    · have hnone : rows.filter p = [] :=
        List.filter_eq_nil_iff.2 fun r hr hpr => hfirst r hr (hp a r ha hpr)
      rw [List.filter_cons_of_pos ha, List.find?_cons_of_pos ha, hnone]
      rfl
    · rw [List.filter_cons_of_neg ha, List.find?_cons_of_neg ha]
      exact ih hrest

/-- The row of an object and those of the concrete kinds that are joined to it. -/
def sourceRows (db : Database) (o : ObjectRecord) : List SourceRow :=
  [⟨.object, .objects, o.cells⟩, ⟨.file, .files, Table.files.cellsOf (db.file? o.id)⟩,
    ⟨.config, .configs, Table.configs.cellsOf (db.config? o.id)⟩,
    ⟨.blob, .blobs, Table.blobs.cellsOf (db.blob? o.id)⟩]

def names (db : Database) (o : ObjectRecord) : Names :=
  Names.bindAll (fun _ => none) (db.sourceRows o)

theorem fills_sourceRows (db : Database) (o : ObjectRecord) :
    ∀ r ∈ db.sourceRows o, r.table.Fills r.cells r.source (db.scope o) := by
  intro r hr c hc
  unfold scope
  simp only [sourceRows, List.mem_cons, List.not_mem_nil, or_false] at hr
  rcases hr with rfl | rfl | rfl | rfl
  · cases c <;> cases hc <;> exact ⟨_, rfl, rfl, rfl⟩
  · cases db.file? o.id <;> cases c <;> cases hc <;> exact ⟨_, rfl, rfl, rfl⟩
  · cases db.config? o.id <;> cases c <;> cases hc <;> exact ⟨_, rfl, rfl, rfl⟩
  · cases db.blob? o.id <;> cases c <;> cases hc <;> exact ⟨_, rfl, rfl, rfl⟩

theorem shows_names (db : Database) (o : ObjectRecord) : (db.names o).Shows (db.scope o) := by
  apply Names.shows_empty.bindAll (db.fills_sourceRows o)
  intro c hc
  cases c <;> first | rfl | cases hc

/-- A row of a concrete kind is joined by its id, and there is no more than one. -/
theorem names_kindJoin {db : Database} (hi : db.isIntact = true) {t : Table} {source : Source}
    {id : t.Record → Int} (hkeys : ∀ r, t.keys r = [[.int (id r)]]) {e : Names} {i : Int}
    (hjoined : ∀ r, (Scalar.compared (e.bind t source.alias (t.cells r)) (· == .eq)
      (.column ⟨source.alias, "id".toList⟩) (.column Column.objectId.columnName) == .yes) =
        (id r == i)) :
    (kindJoin t source).names db e =
      [e.bind t source.alias (t.cellsOf ((db.rows t).find? fun r => id r == i))] := by
  have hshares (r s : t.Record) (hr : (id r == i) = true) (hs : (id s == i) = true) :
      sharesKey t r s = true := by
    rw [sharesKey, hkeys, hkeys, beq_iff_eq.1 hr, beq_iff_eq.1 hs]
    simp
  have hrow := filter_eq_toList_find? (keysDistinct_rows hi t) hshares
  have hnames := JoinPart.names_eq db (kindJoin t source) e hjoined
  simp only [kindJoin, hrow, Bool.and_true] at hnames
  rw [kindJoin, hnames]
  cases (db.rows t).find? fun r => id r == i <;> rfl

theorem flatMap_map_of_singleton {k : Names → List Names} {f g : ObjectRecord → Names}
    (h : ∀ o, k (f o) = [g o]) (os : List ObjectRecord) :
    (os.map f).flatMap k = os.map g := by
  induction os with
  | nil => rfl
  | cons o os ih =>
    rw [List.map_cons, List.flatMap_cons, h, ih, List.map_cons, List.singleton_append]

/-- In an intact database every object stands in one row, beside the rows with its id. -/
theorem names_objectSource {db : Database} (hi : db.isIntact = true) :
    objectSource.names db (fun _ => none) = (db.rows .objects).map db.names := by
  -- the names after the object alone, then with its file, its configuration and its blob beside it
  let front (n : Nat) (o : ObjectRecord) :=
    Names.bindAll (fun _ => none) ((db.sourceRows o).take n)
  have hfile (o : ObjectRecord) :
      (kindJoin .files .file).names db (front 1 o) = [front 2 o] :=
    names_kindJoin hi (t := .files) (e := front 1 o) (fun _ => rfl)
      fun r : FileRecord => Truth.ofOrdering_compare?_int r.id o.id
  have hconfig (o : ObjectRecord) :
      (kindJoin .configs .config).names db (front 2 o) = [front 3 o] :=
    names_kindJoin hi (t := .configs) (e := front 2 o) (fun _ => rfl)
      fun r : ConfigRecord => Truth.ofOrdering_compare?_int r.id o.id
  have hblob (o : ObjectRecord) : (kindJoin .blobs .blob).names db (front 3 o) = [db.names o] :=
    names_kindJoin hi (t := .blobs) (e := front 3 o) (fun _ => rfl)
      fun r : BlobRecord => Truth.ofOrdering_compare?_int r.id o.id
  change (((((db.rows .objects).map (front 1)).flatMap _).flatMap _).flatMap _) = _
  rw [flatMap_map_of_singleton hfile, flatMap_map_of_singleton hconfig,
    flatMap_map_of_singleton hblob]

end Database

theorem Joint.join_assoc (j : Joint) (a b c : Truth) :
    j.join (j.join a b) c = j.join a (j.join b c) := by
  cases j <;> cases a <;> cases b <;> cases c <;> rfl

namespace Condition

variable {db : Database}

theorem linksTruth_join (s : Scope) (j : Joint) (a b : Truth) (cs : List Condition) :
    Clause.linksTruth db s (j.join a b) (links j cs) =
      j.join a (Clause.linksTruth db s b (links j cs)) := by
  cases cs with
  | nil => rfl
  | cons c cs =>
    simp only [links, Clause.linksTruth]
    exact j.join_assoc a b _

theorem truth_fixedExpression (e : Names) (b : Bool) :
    (fixedExpression b).truth db e = .ofBool b := by
  cases b <;> rfl

theorem both_link_eq_yes {e : Names} {s : Scope} (h : e.Shows s) (r : Relation) (f : Expression) :
    ((Expression.both (.compared (.column r.link.columnName) .eq
      (.column Column.objectId.columnName)) f).truth db e == .yes) =
        (belongs r .objectId s && f.truth db e == .yes) := by
  have hlink : r.link.isInteger = Column.objectId.isInteger := by cases r <;> rfl
  rw [Expression.truth, Expression.truth, Column.compared_column h hlink, belongs]
  cases (s r.link).compare? (s .objectId) with
  | none => cases f.truth db e <;> rfl
  | some order => cases order <;> cases f.truth db e <;> rfl

mutual

theorem truth_expression {e : Names} {s : Scope} (h : e.Shows s) {c : Condition}
    (hc : c.IsRegular) : c.expression.truth db e = c.clause.truth db s := by
  cases c with
  | const b => exact truth_fixedExpression e b
  | compare o comparison l =>
    rw [truth_clause, truth, expression, Expression.truth, Operand.compared_scalar h]
    rfl
  | like o pattern =>
    rw [truth_clause, truth, expression]
    exact Expression.truth_like h db o pattern
  | among o ls =>
    cases ls with
    | nil => exact truth_fixedExpression e false
    | cons l ls =>
      rw [truth_clause, truth, expression]
      exact Expression.truth_among h db o l ls
  | all cs =>
    cases cs with
    | nil => exact truth_fixedExpression e true
    | cons c cs =>
      rw [expression, truth_chained h .and _ hc.2, truth_expression h hc.1]
      rfl
  | any cs =>
    cases cs with
    | nil => exact truth_fixedExpression e false
    | cons c cs =>
      rw [expression, truth_chained h .or _ hc.2, truth_expression h hc.1]
      rfl
  | negated c =>
    rw [expression, Expression.truth, truth_expression h (show c.IsRegular from hc)]
    rfl
  | related r outer c =>
    obtain ⟨rfl, hinner⟩ := hc
    rw [expression, Expression.truth, r.names_rowSource, List.any_map, clause, Clause.truth]
    congr 2
    funext row
    have hrow := row.shows_names h
    rw [← truth_expression hrow hinner]
    exact both_link_eq_yes hrow r c.expression

theorem truth_chained {e : Names} {s : Scope} (h : e.Shows s) (j : Joint) (f : Expression)
    {cs : List Condition} (hcs : AllRegular cs) :
    (chained j f cs).truth db e = Clause.linksTruth db s (f.truth db e) (links j cs) := by
  cases cs with
  | nil => rfl
  | cons c cs =>
    -- the expression leans to the left and the clause to the right, where joining is associative
    have hlink : (j.link f c.expression).truth db e =
        j.join (f.truth db e) (c.clause.truth db s) := by
      rw [← truth_expression h hcs.1]
      cases j <;> rfl
    rw [chained, truth_chained h j _ hcs.2, hlink, linksTruth_join]
    rfl

end

/-- In names that show a scope, the expression of a condition has the truth of the condition. -/
theorem truth_of_shows {e : Names} {s : Scope} (h : e.Shows s) {c : Condition} (hc : c.IsRegular) :
    c.expression.truth db e = c.truth db s := by
  rw [truth_expression h hc, truth_clause]

end Condition

end SampleSearch
