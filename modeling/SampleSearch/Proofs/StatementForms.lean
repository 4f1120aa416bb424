import SampleSearch.Proofs.StatementGrammar

/-!
# Statements of a search as they are read

A statement selects columns of joined rows, or counts the rows, where an expression is true. The
three statements of a search are read from their texts and their values: the rows are those of the
objects with the rows of their concrete kinds beside them, the order is the one of the plan, and the
expression is the one of its condition.
-/

namespace SampleSearch

namespace Sql

open Token

structure OrderTerm where
  column : ColumnName
  isDescending : Bool
  deriving DecidableEq, Repr

structure Statement where
  isDistinct : Bool
  /-- What is selected of every row; without columns the rows are counted. -/
  columns : Option (List ColumnName)
  rows : RowSource
  condition : Expression
  order : List OrderTerm
  limit : Option Int
  deriving DecidableEq, Repr

def columnNames? : Reader (List ColumnName)
  | .word r :: .mark '.' :: .word n :: .mark ',' :: ts =>
    (columnNames? ts).map fun p => (⟨r, n⟩ :: p.1, p.2)
  | .word r :: .mark '.' :: .word n :: ts => some ([⟨r, n⟩], ts)
  | _ => none

/-- Reads what is selected behind the first word, and whether equal rows are selected once. -/
def selected? : Reader (Bool × Option (List ColumnName)) := fun ts =>
  if ts.head? = some (keyword "DISTINCT") then
    (columnNames? ts.tail).map fun r => ((true, some r.1), r.2)
  else if ts.head? = some (keyword "COUNT") then
    (expect [.mark '(', .mark '*', .mark ')'] ts.tail).map fun r => ((false, none), r)
  else (columnNames? ts).map fun r => ((false, some r.1), r.2)

def isDescending? (w : Text) : Option Bool :=
  if w = "DESC".toList then some true else if w = "ASC".toList then some false else none

def orderTerms? : Reader (List OrderTerm)
  | .word r :: .mark '.' :: .word n :: .word d :: .mark ',' :: ts => do
    let down ← isDescending? d
    (orderTerms? ts).map fun p => (⟨⟨r, n⟩, down⟩ :: p.1, p.2)
  | .word r :: .mark '.' :: .word n :: .word d :: ts =>
    (isDescending? d).map fun down => ([⟨⟨r, n⟩, down⟩], ts)
  | _ => none

/-- Reads the order and the limit at the end of a statement, or the end alone. -/
def ending? (ts : List Token) : Option (List OrderTerm × Option Int) :=
  if ts.isEmpty then some ([], none)
  else do
    let ts ← expect [keyword "ORDER", keyword "BY"] ts
    let (terms, ts) ← orderTerms? ts
    let ts ← expect [keyword "LIMIT"] ts
    match ts with
    | [.bound (.int n)] => some (terms, some n)
    | _ => none

def statement? (ts : List Token) : Option Statement := do
  let ts ← expect [keyword "SELECT"] ts
  let ((isDistinct, columns), ts) ← selected? ts
  let ts ← expect [keyword "FROM"] ts
  let (rows, ts) ← rowSource? ts
  let ts ← expect [keyword "WHERE"] ts
  let (condition, ts) ← expression? (ts.length + 1) ts
  let (order, limit) ← ending? ts
  some ⟨isDistinct, columns, rows, condition, order, limit⟩

end Sql

open Sql Sql.Token

/-- The statement that the text of a fragment and its values are. -/
def Fragment.statement? (f : Fragment) : Option Statement := f.tokens?.bind Sql.statement?

def objectColumns : List Column := [.objectId, .objectDhash, .objectType, .objectUploadTime]

def fileColumns : List Column :=
  [.fileName, .fileSize, .fileType, .fileMd5, .fileSha1, .fileSha256, .fileSha512, .fileCrc32,
    .fileSsdeep]

def configColumns : List Column := [.configFamily, .configType, .configDocument]

def blobColumns : List Column := [.blobName, .blobSize, .blobType, .blobLastSeen]

def hitColumns : List Column := objectColumns ++ fileColumns ++ configColumns ++ blobColumns

/-- The rows of a concrete kind, joined by the ids of the objects. -/
def kindJoin (t : Table) (source : Source) : JoinPart :=
  ⟨true, t, source.alias, ⟨source.alias, "id".toList⟩, Column.objectId.columnName⟩

/-- Every object once, with empty columns for the kinds that it is not of. -/
def objectSource : RowSource :=
  ⟨.objects, Source.object.alias,
    [kindJoin .files .file, kindJoin .configs .config, kindJoin .blobs .blob]⟩

def SortOrder.terms (sort : SortOrder) : List OrderTerm :=
  [⟨Column.objectUploadTime.columnName, sort == .newest⟩,
    ⟨Column.objectId.columnName, sort == .newest⟩]

/-- The number that is bound as the limit. -/
def Fragment.limitValue (limit : Nat) : Int :=
  if limit ≤ Text.maxSigned64 then limit else (limit : Int) - 0x10000000000000000

namespace Plan

def selection (p : Plan) : Statement :=
  ⟨true, some (hitColumns.map Column.columnName), objectSource, p.condition.expression,
    p.sort.terms, some (Fragment.limitValue p.limit)⟩

def counting (p : Plan) : Statement :=
  ⟨false, none, objectSource, p.condition.expression, [], none⟩

end Plan

def Viewer.positionLookup (v : Viewer) (dhash : Text) : Statement :=
  ⟨false, some [Column.objectId.columnName, Column.objectUploadTime.columnName],
    ⟨.objects, "o".toList, []⟩,
    .both (Condition.equals (.column .objectDhash) (.text dhash)).expression v.access.expression,
    [], none⟩

namespace Fragment

def selectedTokens : List Column → List Token
  | [] => []
  | [c] => columnTokens c
  | c :: cs => columnTokens c ++ .mark ',' :: selectedTokens cs

def joinTokens (table row : String) : List Token :=
  [keyword "LEFT", keyword "JOIN", keyword table, keyword row, keyword "ON", keyword row,
    .mark '.', keyword "id", .sign ['='], keyword "o", .mark '.', keyword "id"]

def objectTokens : List Token :=
  [keyword "object", keyword "o"] ++ joinTokens "file" "f" ++ joinTokens "static_config" "c" ++
    joinTokens "text_blob" "b"

def orderTokens (sort : SortOrder) : List Token :=
  let d := keyword (if sort == .newest then "DESC" else "ASC")
  columnTokens .objectUploadTime ++ [d, .mark ','] ++ columnTokens .objectId ++ [d]

/-- Taking a long literal apart at once would take long. -/
theorem toList_append_ofList {s : String} {t : Text} (h : s.toList = t) (u : Text) :
    (s ++ String.ofList u).toList = t ++ u := by
  rw [String.toList_append, h, String.toList_ofList]

theorem tokens?_selectedColumns :
    (plain selectedColumns).tokens? = some (selectedTokens hitColumns) := by
  have hlines : selectedColumns = _ := toList_append_ofList (toList_append_ofList
    (toList_append_ofList (toList_append_ofList String.toList_ofList _) _) _) _
  rw [hlines]
  decide +kernel

theorem tokens?_objectRows : (plain objectRows).tokens? = some objectTokens := by
  have hlines : objectRows = _ := toList_append_ofList (toList_append_ofList
    (toList_append_ofList String.toList_ofList _) _) _
  rw [hlines]
  decide +kernel

theorem tokens?_orderText (sort : SortOrder) :
    (plain (orderText sort)).tokens? = some (orderTokens sort) := by
  cases sort <;> exact tokens?_literal rfl

theorem tokens?_filtered {head : Text} {ts : List Token} (h : (plain head).tokens? = some ts)
    (c : Condition) :
    (filtered head c).tokens? = some (ts ++ ([keyword "FROM"] ++ (objectTokens ++
      ([keyword "WHERE"] ++ c.clause.tokens)))) := by
  simp only [filtered, ← plain_append_plain, append_assoc]
  apply tokens?_append_of_first rfl h
  apply tokens?_append_of_last rfl rfl
  apply tokens?_append_of_first rfl tokens?_objectRows
  exact tokens?_append_of_last rfl rfl c.tokens?_ofCondition

theorem tokens?_selection (p : Plan) :
    (selection p).tokens? =
      some (([keyword "SELECT", keyword "DISTINCT"] ++ selectedTokens hitColumns ++
        ([keyword "FROM"] ++ (objectTokens ++ ([keyword "WHERE"] ++ p.condition.clause.tokens)))) ++
          ([keyword "ORDER", keyword "BY"] ++ (orderTokens p.sort ++ ([keyword "LIMIT"] ++
            [.bound (limitParameter p.limit)])))) := by
  have hhead : (plain ("SELECT DISTINCT ".toList ++ selectedColumns)).tokens? =
      some ([keyword "SELECT", keyword "DISTINCT"] ++ selectedTokens hitColumns) := by
    rw [← plain_append_plain]
    exact tokens?_literal_append rfl rfl tokens?_selectedColumns
  simp only [selection, ← plain_append_plain, append_assoc]
  apply tokens?_append_of_first rfl (tokens?_filtered hhead p.condition)
  apply tokens?_append_of_last rfl rfl
  apply tokens?_append_of_first rfl (tokens?_orderText p.sort)
  exact tokens?_append_of_last rfl rfl rfl

theorem tokens?_counting (p : Plan) :
    (counting p).tokens? =
      some ([keyword "SELECT", keyword "COUNT", .mark '(', .mark '*', .mark ')'] ++
        ([keyword "FROM"] ++ (objectTokens ++ ([keyword "WHERE"] ++ p.condition.clause.tokens)))) :=
  tokens?_filtered rfl p.condition

theorem tokens?_positionLookup (dhash : Text) (v : Viewer) :
    (positionLookup dhash v).tokens? =
      some (([keyword "SELECT"] ++ selectedTokens [.objectId, .objectUploadTime] ++
        [keyword "FROM", keyword "object", keyword "o", keyword "WHERE"] ++
          columnTokens .objectDhash ++ [.sign ['=']]) ++ ([.bound (.text dhash)] ++
            ([keyword "AND"] ++ v.access.clause.tokens))) := by
  rw [positionLookup, append_assoc, append_assoc]
  apply tokens?_literal_append rfl rfl
  apply tokens?_placeholder_append
  exact tokens?_literal_append rfl rfl v.access.tokens?_ofCondition

/-- What is selected is read up to the word behind it. -/
theorem columnNames?_selectedTokens (c : Column) (cs : List Column) (rest : List Token) :
    columnNames? (selectedTokens (c :: cs) ++ keyword "FROM" :: rest) =
      some ((c :: cs).map Column.columnName, keyword "FROM" :: rest) := by
  induction cs generalizing c with
  | nil => rfl
  | cons d cs ih =>
    change (columnNames? (selectedTokens (d :: cs) ++ keyword "FROM" :: rest)).map _ = _
    rw [ih d]
    rfl

theorem rowSource?_objectTokens (rest : List Token) :
    rowSource? (objectTokens ++ keyword "WHERE" :: rest) =
      some (objectSource, keyword "WHERE" :: rest) := rfl

theorem ending?_order (sort : SortOrder) (limit : Nat) :
    ending? ([keyword "ORDER", keyword "BY"] ++ (orderTokens sort ++ ([keyword "LIMIT"] ++
      [.bound (limitParameter limit)]))) = some (sort.terms, some (limitValue limit)) := by
  cases sort <;> rfl

theorem ends_order (ts : List Token) : Ends (keyword "ORDER" :: ts) :=
  ends_cons (fun j => by cases j <;> decide) ts

theorem expect_singleton (t : Token) (ts : List Token) : expect [t] (t :: ts) = some ts :=
  expect_append [t] ts

/-- A statement is read from its parts. -/
theorem statement?_of_parts {head source ts rest : List Token}
    {columns : Bool × Option (List ColumnName)} {rows : RowSource} {e : Expression}
    {last : List OrderTerm × Option Int}
    (hhead : ∀ us, selected? (head ++ keyword "FROM" :: us) = some (columns, keyword "FROM" :: us))
    (hrows : ∀ us, rowSource? (source ++ keyword "WHERE" :: us) =
      some (rows, keyword "WHERE" :: us))
    (he : expression? (ts.length + 1) ts = some (e, rest)) (hlast : ending? rest = some last) :
    Sql.statement? (keyword "SELECT" :: (head ++ keyword "FROM" ::
      (source ++ keyword "WHERE" :: ts))) =
        some ⟨columns.1, columns.2, rows, e, last.1, last.2⟩ := by
  simp only [Sql.statement?, Option.bind_eq_bind, expect_singleton, Option.bind_some, hhead, hrows,
    he, hlast]

/-- A condition is read as the expression of a statement, whatever follows. -/
theorem expression?_tokens (c : Condition) {rest : List Token} (hrest : Ends rest) :
    expression? ((c.clause.tokens ++ rest).length + 1) (c.clause.tokens ++ rest) =
      some (c.expression, rest) := by
  apply expression?_of_factor? _ hrest
  apply c.factor?_tokens
  rw [List.length_append]
  omega

/-- The text and the values of a selection are read as the selection by the plan. -/
theorem statement?_selection (p : Plan) : (selection p).statement? = some p.selection := by
  have hcolumns (us : List Token) : selected? ((keyword "DISTINCT" :: selectedTokens hitColumns) ++
      keyword "FROM" :: us) = some ((true, some (hitColumns.map Column.columnName)),
        keyword "FROM" :: us) := by
    have hread := columnNames?_selectedTokens .objectId hitColumns.tail us
    rw [show .objectId :: hitColumns.tail = hitColumns from rfl] at hread
    have hword : ((keyword "DISTINCT" :: selectedTokens hitColumns) ++ keyword "FROM" :: us).head? =
        some (keyword "DISTINCT") := rfl
    rw [selected?, if_pos hword, List.cons_append, List.tail_cons, hread, Option.map_some]
  have he := expression?_tokens p.condition
    (ends_order ([keyword "BY"] ++ (orderTokens p.sort ++ ([keyword "LIMIT"] ++
      [.bound (limitParameter p.limit)]))))
  have hread := statement?_of_parts hcolumns rowSource?_objectTokens he (ending?_order p.sort _)
  rw [Fragment.statement?, tokens?_selection, Option.bind_some]
  simpa only [Plan.selection, List.append_assoc, List.cons_append, List.nil_append] using hread

theorem statement?_counting (p : Plan) : (counting p).statement? = some p.counting := by
  have hcount (us : List Token) : selected? ([keyword "COUNT", .mark '(', .mark '*', .mark ')'] ++
      keyword "FROM" :: us) = some ((false, none), keyword "FROM" :: us) := rfl
  have he := expression?_tokens p.condition ends_nil
  have hread := statement?_of_parts hcount rowSource?_objectTokens he rfl
  rw [Fragment.statement?, tokens?_counting, Option.bind_some]
  simpa only [Plan.counting, List.append_nil, List.append_assoc, List.cons_append,
    List.nil_append] using hread

theorem expression?_position (dhash : Text) (v : Viewer) {n : Nat}
    (hn : v.access.clause.tokens.length ≤ n) :
    expression? (n + 1) (columnTokens .objectDhash ++ .sign ['='] :: .bound (.text dhash) ::
      keyword "AND" :: v.access.clause.tokens) =
        some (.both (Condition.equals (.column .objectDhash) (.text dhash)).expression
          v.access.expression, []) := by
  have haccess := v.access.factor?_tokens hn []
  rw [List.append_nil] at haccess
  exact expression?_of_pair (List.cons_ne_nil _ _)
    (factor?_operandTokens (expression? n) (.column .objectDhash) _) haccess ends_nil

theorem statement?_positionLookup (dhash : Text) (v : Viewer) :
    (positionLookup dhash v).statement? = some (v.positionLookup dhash) := by
  have hcolumns (us : List Token) : selected? (selectedTokens [.objectId, .objectUploadTime] ++
      keyword "FROM" :: us) = some ((false, some [Column.objectId.columnName,
        Column.objectUploadTime.columnName]), keyword "FROM" :: us) := rfl
  have hrows (us : List Token) : rowSource? ([keyword "object", keyword "o"] ++
      keyword "WHERE" :: us) = some (⟨.objects, "o".toList, []⟩, keyword "WHERE" :: us) := rfl
  have hread := statement?_of_parts hcolumns hrows (expression?_position dhash v (by
    simp only [List.length_append, List.length_cons]
    omega)) rfl
  rw [Fragment.statement?, tokens?_positionLookup, Option.bind_some]
  simpa only [Viewer.positionLookup, List.append_assoc, List.cons_append,
    List.nil_append] using hread

end Fragment

end SampleSearch
