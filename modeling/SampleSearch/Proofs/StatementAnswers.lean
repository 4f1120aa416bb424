import SampleSearch.Proofs.SearchExactness
import SampleSearch.Proofs.StatementRows

/-!
# Answers to statements

A statement answers with the rows of which its condition is true: with their number, or with what it
selects of them, in its order and up to its limit. In an intact database the statements of a search
answer with the objects that satisfy its condition, since every object stands in one row and the
rows are ordered as the objects are.
-/

namespace SampleSearch

/-- The order of cells in an answer, where an empty one comes first. -/
def Cell.inOrder (a b : Cell) : Ordering :=
  match a.compare? b with
  | some o => o
  | none => if a = .empty then if b = .empty then .eq else .lt else .gt

theorem Cell.inOrder_int (m n : Int) : (int m).inOrder (int n) = compareOfLessAndEq m n := by
  rw [inOrder, compare?_int]

namespace Sql

def OrderTerm.compare (t : OrderTerm) (e f : Names) : Ordering :=
  let o := (e.cell t.column).inOrder (f.cell t.column)
  if t.isDescending then o.swap else o

def OrderTerm.beforeOrSame (ts : List OrderTerm) (e f : Names) : Bool :=
  ts.foldr (fun t o => (t.compare e f).then o) .eq != .gt

/-- The first of those rows that are the same. -/
def distinct (same : Names → Names → Bool) : List Names → List Names
  | [] => []
  | e :: es => e :: (distinct same es).filter fun f => !same e f

/-- A limit below zero is none. -/
def limited {α : Type} (limit : Option Int) (as : List α) : List α :=
  match limit with
  | none => as
  | some n => if n < 0 then as else as.take n.toNat

namespace Statement

def found (db : Database) (q : Statement) : List Names :=
  (q.rows.names db fun _ => none).filter fun e => q.condition.truth db e == .yes

def showsSame (columns : List ColumnName) (e f : Names) : Bool :=
  columns.all fun c => (e.cell c).agrees (f.cell c)

def answer (db : Database) (q : Statement) : List (List Cell) :=
  match q.columns with
  | none => limited q.limit [[.int (q.found db).length]]
  | some columns =>
    let rows := if q.isDistinct then distinct (showsSame columns) (q.found db) else q.found db
    (limited q.limit (rows.mergeSort (OrderTerm.beforeOrSame q.order))).map fun e =>
      columns.map e.cell

end Statement

theorem distinct_of_pairwise {same : Names → Names → Bool} {es : List Names}
    (h : es.Pairwise fun e f => same e f = false) : distinct same es = es := by
  induction es with
  | nil => rfl
  | cons e es ih =>
    obtain ⟨hfirst, hrest⟩ := List.pairwise_cons.1 h
    rw [distinct, ih hrest, List.filter_eq_self.2 fun f hf => by rw [hfirst f hf]; rfl]

end Sql

open Sql

namespace Database

variable {db : Database} {c : Condition}

/-- The rows in which an expression is true are those of the objects that satisfy a condition, if
it has the truth of the condition in the row of every object. -/
theorem filter_names {names : ObjectRecord → Names} {f : Expression}
    (h : ∀ o, f.truth db (names o) = c.truth db (db.scope o)) :
    ((db.rows .objects).map names).filter (fun e => f.truth db e == .yes) =
      (db.satisfying c).map names := by
  rw [List.filter_map, satisfying]
  congr 1
  apply List.filter_congr
  intro o _
  rw [Function.comp_apply, h]

theorem cell_names (o : ObjectRecord) (c : Column) :
    (db.names o).cell c.columnName = db.scope o c := (db.shows_names o).cell c

theorem pairwise_names (hi : db.isIntact = true) {columns : List ColumnName}
    (hid : Column.objectId.columnName ∈ columns) :
    ((db.satisfying c).map db.names).Pairwise fun e f =>
      Statement.showsSame columns e f = false := by
  rw [List.pairwise_map]
  refine ((pairwise_ids hi).filter _).imp fun {a b} hne => ?_
  rw [Statement.showsSame, List.all_eq_false]
  refine ⟨_, hid, fun hagrees => hne ?_⟩
  rw [cell_names, cell_names] at hagrees
  exact (Cell.compare?_int_eq_iff a.id b.id).1 (beq_iff_eq.1 hagrees)

theorem compare_names (db : Database) (k : Column) {a b : ObjectRecord} {o : Ordering}
    (h : (db.scope a k).inOrder (db.scope b k) = o) (down : Bool) :
    OrderTerm.compare ⟨k.columnName, down⟩ (db.names a) (db.names b) =
      if down then o.swap else o := by
  rw [OrderTerm.compare, cell_names, cell_names, h]

theorem beforeOrSame_names (sort : SortOrder) (a b : ObjectRecord) :
    OrderTerm.beforeOrSame sort.terms (db.names a) (db.names b) = sort.beforeOrSame a b := by
  have htime := compare_names db .objectUploadTime (a := a) (b := b)
    (o := Cell.compareTexts a.uploadTime b.uploadTime) rfl
  have hid := compare_names db .objectId (Cell.inOrder_int a.id b.id)
  rw [OrderTerm.beforeOrSame, SortOrder.terms]
  rw [List.foldr_cons, List.foldr_cons, List.foldr_nil, htime, hid]
  have hsame : (a.uploadTime == b.uploadTime) =
      (Cell.compareTexts a.uploadTime b.uploadTime == .eq) := by
    rw [Bool.eq_iff_iff, beq_iff_eq, beq_iff_eq, Cell.compareTexts_eq_iff]
  cases sort with
  | oldest =>
    have hbefore : decide (a.uploadTime < b.uploadTime) =
        (Cell.compareTexts a.uploadTime b.uploadTime == .lt) := by
      rw [Bool.eq_iff_iff, decide_eq_true_eq, beq_iff_eq, Cell.compareTexts_eq_lt]
    have hids : decide (a.id ≤ b.id) = (compareOfLessAndEq a.id b.id != .gt) := by
      rw [Bool.eq_iff_iff, decide_eq_true_eq, bne_iff_ne, ne_eq,
        compareOfLessAndEq_eq_gt Int.le_antisymm Int.le_total Int.not_le, Int.not_lt]
    rw [SortOrder.beforeOrSame, hbefore, hsame, hids]
    cases Cell.compareTexts a.uploadTime b.uploadTime <;> cases compareOfLessAndEq a.id b.id <;> rfl
  | newest =>
    have hbefore : decide (b.uploadTime < a.uploadTime) =
        (Cell.compareTexts a.uploadTime b.uploadTime == .gt) := by
      rw [Bool.eq_iff_iff, decide_eq_true_eq, beq_iff_eq, Cell.compareTexts_eq_gt]
    have hids : decide (b.id ≤ a.id) = (compareOfLessAndEq a.id b.id != .lt) := by
      rw [Bool.eq_iff_iff, decide_eq_true_eq, bne_iff_ne, ne_eq, compareOfLessAndEq_eq_lt,
        Int.not_lt]
    rw [SortOrder.beforeOrSame, hbefore, hsame, hids]
    cases Cell.compareTexts a.uploadTime b.uploadTime <;> cases compareOfLessAndEq a.id b.id <;> rfl

theorem mergeSort_names (sort : SortOrder) (os : List ObjectRecord) :
    (os.map db.names).mergeSort (OrderTerm.beforeOrSame sort.terms) =
      (os.mergeSort sort.beforeOrSame).map db.names :=
  (List.map_mergeSort fun a _ b _ => (beforeOrSame_names sort a b).symm).symm

theorem found_objectSource (hi : db.isIntact = true) (hc : c.IsRegular) (q : Statement)
    (hrows : q.rows = objectSource) (hcondition : q.condition = c.expression) :
    q.found db = (db.satisfying c).map db.names := by
  rw [Statement.found, hrows, hcondition, names_objectSource hi]
  exact filter_names fun o => Condition.truth_of_shows (db.shows_names o) hc

variable {p : Plan} (hi : db.isIntact = true) (hp : p.condition.IsRegular)

include hi hp

/-- The counting statement of a plan answers with the number of its objects. -/
theorem answer_counting :
    p.counting.answer db = [[.int (db.satisfying p.condition).length]] := by
  have hfound := found_objectSource hi hp p.counting rfl rfl
  rw [Statement.answer, hfound, List.length_map]
  rfl

/-- The selecting statement of a plan answers with the cells of the objects on its page. -/
theorem answer_selection (hlimit : p.limit ≤ Text.maxSigned64) :
    p.selection.answer db =
      (page p (db.satisfying p.condition)).map fun o => hitColumns.map (db.scope o) := by
  have hfound := found_objectSource hi hp p.selection rfl rfl
  have hlimited : ¬ Fragment.limitValue p.limit < 0 ∧
      (Fragment.limitValue p.limit).toNat = p.limit := by
    rw [Fragment.limitValue, if_pos hlimit]
    omega
  have hid : Column.objectId.columnName ∈ hitColumns.map Column.columnName := List.mem_cons_self
  change (limited (some (Fragment.limitValue p.limit))
    ((distinct (Statement.showsSame (hitColumns.map Column.columnName))
      (p.selection.found db)).mergeSort (OrderTerm.beforeOrSame p.sort.terms))).map
        (fun e => (hitColumns.map Column.columnName).map e.cell) = _
  -- the id is selected, so there are no equal rows to be left out
  rw [hfound, distinct_of_pairwise (pairwise_names hi hid), mergeSort_names, limited,
    if_neg hlimited.1, hlimited.2, ← List.map_take, List.map_map, page, sorted]
  apply List.map_congr_left
  intro o _
  rw [Function.comp_apply, List.map_map]
  apply List.map_congr_left
  intro k _
  exact cell_names o k

end Database

def ObjectRecord.names (o : ObjectRecord) : Names :=
  Names.bindAll (fun _ => none) [⟨.object, .objects, o.cells⟩]

theorem ObjectRecord.shows_names (o : ObjectRecord) : o.names.Shows o.cell := by
  refine Names.shows_empty.bindAll (fun r hr c hc => ?_) fun c hc => ?_
  · obtain rfl := List.mem_singleton.1 hr
    cases c <;> cases hc <;> exact ⟨_, rfl, rfl, rfl⟩
  · cases c <;> first | rfl | cases hc

theorem Viewer.truth_access_congr (v : Viewer) (db : Database) {s t : Scope}
    (h : s .objectId = t .objectId) : v.access.truth db s = v.access.truth db t := by
  unfold access accessTo
  by_cases hall : v.has .accessAllObjects = true
  · rw [if_pos hall]
    rfl
  · rw [if_neg hall]
    by_cases hgroups : v.groups.isEmpty = true
    · rw [if_pos hgroups]
      rfl
    · simp only [if_neg hgroups, Condition.truth, Database.relatedRows, List.any_map]
      congr 2
      funext r
      simp only [Function.comp_apply, Condition.belongs, RelatedRow.enter_objectId, h]
      rfl

namespace Database

theorem truth_positionLookup (db : Database) (dhash : Text) (v : Viewer) (o : ObjectRecord) :
    (v.positionLookup dhash).condition.truth db o.names =
      (positionCondition dhash v).truth db (db.scope o) := by
  let named : Condition := .equals (.column .objectDhash) (.text dhash)
  have hnamed : named.expression.truth db o.names = named.truth db (db.scope o) :=
    Condition.truth_of_shows o.shows_names trivial
  have haccess : v.access.expression.truth db o.names = v.access.truth db (db.scope o) := by
    rw [Condition.truth_of_shows o.shows_names v.isRegular_access]
    exact v.truth_access_congr db rfl
  change (named.expression.truth db o.names).both (v.access.expression.truth db o.names) =
    (named.truth db (db.scope o)).both ((v.access.truth db (db.scope o)).both .yes)
  rw [hnamed, haccess]
  cases v.access.truth db (db.scope o) <;> rfl

/-- A position is looked up among the objects with a hash that the viewer sees. -/
theorem answer_positionLookup (db : Database) (dhash : Text) (v : Viewer) :
    (v.positionLookup dhash).answer db =
      (db.satisfying (positionCondition dhash v)).map fun o => [.int o.id, .text o.uploadTime] := by
  have hfound : (v.positionLookup dhash).found db =
      (db.satisfying (positionCondition dhash v)).map ObjectRecord.names :=
    filter_names (truth_positionLookup db dhash v)
  have hkept (es : List Names) : es.mergeSort (OrderTerm.beforeOrSame []) = es :=
    List.mergeSort_of_pairwise (List.pairwise_of_forall fun _ _ => rfl)
  change (((v.positionLookup dhash).found db).mergeSort (OrderTerm.beforeOrSame [])).map _ = _
  rw [hkept, hfound, List.map_map]
  apply List.map_congr_left
  intro o _
  rfl

end Database

end SampleSearch
