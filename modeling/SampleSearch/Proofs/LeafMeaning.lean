import SampleSearch.Proofs.RelatedRows
import SampleSearch.Proofs.StoredDocuments
import SampleSearch.Store.Lookup

/-!
# What a value says of an object

The truth of a value or a range for a field is defined on the object itself: on its cells, on the
texts that are attached to it, on the documents of its attributes and on those it is shared with.
It is unknown only where a cell is empty. The condition that the value is compiled to has this
truth on every object.
-/

namespace SampleSearch

namespace Cell

/-- Whether a cell is no number. -/
def isTextual : Cell → Bool
  | empty => true
  | text _ => true
  | broken _ => true
  | _ => false

/-- Whether the text of a cell is what a written value stands for, or matches it if the value has
wild cards. -/
def agreesWith (value : Text) (c : Cell) : Truth :=
  match c.codes? with
  | none => .unknown
  | some codes =>
    .ofBool (if Text.hasWildcards value then Text.like (Text.likePattern value) codes
      else codes == (Text.unescape value).codes)

/-- How a cell compares with another one that is not empty. -/
def stands (c : Cell) (comparison : Comparison) (bound : Cell) : Truth :=
  .ofOrdering comparison.holds (c.compare? bound)

/-- The cell of the value that labels lead to in a document. -/
def within (labels : List Text) (c : Cell) : Cell :=
  match c.text? with
  | none => empty
  | some t => ((Document.lookUp? t labels).join.map ofCodes).getD empty

/-- Whether the moment of a cell lies in the window of a written date. -/
def inWindow (date : Text) (c : Cell) : Truth :=
  match Window.read? date with
  | none => .unknown
  | some w => (c.stands .ge (.text w.start.text)).both (c.stands .lt (.text w.stop.text))

theorem codes_inj {s t : Text} : Text.codes s = Text.codes t ↔ s = t :=
  List.map_inj_right fun _ _ => Char.toNat_inj.1

theorem compareOfLessAndEq_eq_iff {α : Type} [LT α] [DecidableLT α] [DecidableEq α]
    (h : ∀ a : α, ¬ a < a) {a b : α} : compareOfLessAndEq a b = .eq ↔ a = b := by
  rw [compareOfLessAndEq]
  by_cases heq : a = b
  · simp only [heq, h b, if_true, if_false]
  · by_cases hlt : a < b
    · simp only [hlt, heq, if_true, reduceCtorEq]
    · simp only [hlt, heq, if_false, reduceCtorEq]

theorem compareTexts_eq_iff {s t : Text} : compareTexts s t = .eq ↔ s = t :=
  compareOfLessAndEq_eq_iff List.lt_irrefl

theorem compareCodes_eq_iff {s t : List Nat} : compareCodes s t = .eq ↔ s = t :=
  compareOfLessAndEq_eq_iff List.lt_irrefl

theorem stands_eq_yes {c d : Cell} : c.stands .eq d = .yes ↔ c.compare? d = some .eq := by
  rw [stands]
  rcases c.compare? d with _ | _ | _ | _ <;>
    simp [Truth.ofOrdering, Truth.ofBool, Comparison.holds]

theorem isTextual_ofCodes (codes : List Nat) : (ofCodes codes).isTextual = true := by
  unfold ofCodes
  split <;> rfl

theorem isTextual_within (labels : List Text) (c : Cell) : (c.within labels).isTextual = true := by
  unfold within
  split
  · rfl
  · cases (Document.lookUp? _ labels).join with
    | none => rfl
    | some codes => exact isTextual_ofCodes codes

theorem stands_eq_text {c : Cell} (h : c.isTextual = true) (t : Text) :
    c.stands .eq (.text t) =
      match c.codes? with
      | none => .unknown
      | some codes => .ofBool (codes == t.codes) := by
  cases c with
  | empty => rfl
  | text s =>
    simp only [stands, compare?_text, codes?, text?, Option.map_some, Truth.ofOrdering]
    have hiff : compareTexts s t = .eq ↔ Text.codes s = Text.codes t := by
      rw [compareTexts_eq_iff, codes_inj]
    congr 1
    rw [Bool.eq_iff_iff, Comparison.holds, beq_iff_eq, beq_iff_eq]
    exact hiff
  | broken codes =>
    simp only [stands, compare?, codes?, Truth.ofOrdering]
    congr 1
    rw [Bool.eq_iff_iff, Comparison.holds, beq_iff_eq, beq_iff_eq]
    exact compareCodes_eq_iff
  | int n => cases h
  | real negative size => cases h
  | infinite negative => cases h

end Cell

namespace Database

/-- The texts that are attached to an object. -/
def attachedTexts (db : Database) (id : Int) : Relation → List Text
  | .tags =>
    ((db.rows .taggings).filter fun ot => ot.objectId == id).flatMap fun ot =>
      ((db.rows .tags).filter fun t => t.id == ot.tagId).map TagRecord.name
  | .comments => ((db.rows .comments).filter fun c => c.objectId == id).map CommentRecord.comment
  | .altNames => ((db.rows .altNames).filter fun n => n.fileId == id).map AltNameRecord.name
  | _ => []

end Database

namespace Leaf

/-- An end of a range that is open says nothing. -/
def ending (value : Text) (truth : Text → Truth) : Truth :=
  if isUnbounded value then .yes else truth (Text.unescape value)

def number (value : Text) : Cell := .int ((Text.nat? value).getD 0 : Nat)

/-- What a range says of a cell of numbers or of texts. -/
def between (r : Range) (bound : Text → Cell) (c : Cell) : Truth :=
  (ending r.low fun t => c.stands (if r.includesLow then .ge else .gt) (bound t)).both
    (ending r.high fun t => c.stands (if r.includesHigh then .le else .lt) (bound t))

/-- What a range says of a cell of moments: it starts with the window of its lower end and ends
with the one of its upper end. -/
def betweenWindows (r : Range) (c : Cell) : Truth :=
  (ending r.low fun t => (Window.read? t).elim .unknown fun w =>
      c.stands .ge (.text w.start.text)).both
    (ending r.high fun t => (Window.read? t).elim .unknown fun w =>
      c.stands .lt (.text w.stop.text))

/-- The truth of a value or a range for a field on an object. -/
def truthOn (db : Database) (o : ObjectRecord) (f : ResolvedField) (leaf : Leaf) : Truth :=
  match f.strategy, leaf with
  | .text c, term value => (db.scope o c).agreesWith value
  | .integer c, term value => (db.scope o c).stands .eq (number value)
  | .integer c, range r => between r number (db.scope o c)
  | .moment c, term value => (db.scope o c).inWindow (Text.unescape value)
  | .moment c, range r => betweenWindows r (db.scope o c)
  | .related r _, term value =>
    .ofBool ((db.attachedTexts o.id r).any fun t => (Cell.text t).agreesWith value == .yes)
  | .document c, term value =>
    ((db.scope o c).within (f.residual.map Text.unescape)).agreesWith value
  | .document c, range r =>
    between r .text ((db.scope o c).within (f.residual.map Text.unescape))
  | .keyed, term value =>
    match f.residual.map Text.unescape with
    | [] => .unknown
    | key :: labels =>
      .ofBool ((db.rows .attributes).any fun a => a.objectId == o.id && (a.key == key &&
        ((Cell.text a.value).within labels).agreesWith value == .yes))
  | .sharedWith, term value =>
    .ofBool ((db.rows .permissions).any fun p => p.objectId == o.id &&
      (db.group? (Text.unescape value)).any fun g => p.groupId == g.id)
  | .uploadedBy, term value =>
    .ofBool ((db.rows .permissions).any fun p => p.objectId == o.id &&
      (p.reason == ShareReason.added.text && (db.user? (Text.unescape value)).any fun u =>
        p.relatedUser.stands .eq (.int u.id) == .yes))
  | _, range _ => .unknown

end Leaf

namespace Truth

theorem both_assoc (a b c : Truth) : (a.both b).both c = a.both (b.both c) := by
  cases a <;> cases b <;> cases c <;> rfl

@[simp] theorem yes_both (a : Truth) : yes.both a = a := by cases a <;> rfl

@[simp] theorem both_yes (a : Truth) : a.both yes = a := by cases a <;> rfl

theorem ofBool_eq_yes {b : Bool} : ofBool b = yes ↔ b = true := by cases b <;> simp [ofBool]

theorem eq_ofBool {a : Truth} {b : Bool} (hknown : a ≠ unknown) (h : a = yes ↔ b = true) :
    a = ofBool b := by
  cases a <;> cases b <;> simp_all [ofBool]

end Truth

/-- The cell that an operand is compared by; it is empty if a document cannot be read. -/
def Operand.cellIn (o : Operand) (s : Scope) : Cell := (o.value? s).getD .empty

namespace Condition

variable {db : Database} {s : Scope}

theorem truth_all (cs : List Condition) : (all cs).truth db s = truthOfAll db s cs := by
  rw [truth]

theorem truthOfAll_append (cs ds : List Condition) :
    truthOfAll db s (cs ++ ds) = (truthOfAll db s cs).both (truthOfAll db s ds) := by
  induction cs with
  | nil => simp [truthOfAll]
  | cons c cs ih => rw [List.cons_append, truthOfAll, truthOfAll, ih, Truth.both_assoc]

theorem truth_conjoin (cs : List Condition) : (conjoin cs).truth db s = truthOfAll db s cs := by
  match cs with
  | [] => simp [truth]
  | [c] => simp [truthOfAll]
  | c :: d :: cs => simp [truth]

theorem truth_compare (o : Operand) (comparison : Comparison) (l : Literal) :
    (compare o comparison l).truth db s = (o.cellIn s).stands comparison (o.convert l.cell) := by
  rw [truth, compareTruth?, Operand.cellIn]
  cases o.value? s with
  | none => simp [Cell.stands, Truth.ofOrdering]
  | some cell => rfl

theorem truth_like {o : Operand} {pattern : Text} (hp : pattern.octets.length ≤ maxPatternSize) :
    (like o pattern).truth db s = likeTruth pattern (o.cellIn s) := by
  rw [truth, likeTruth?, if_neg (Nat.not_lt.2 hp), Operand.cellIn]
  cases o.value? s with
  | none => rfl
  | some cell => rfl

end Condition

namespace Operand

/-- Texts are compared with the operand as they are. -/
def TakesTexts (o : Operand) (s : Scope) : Prop :=
  (o.cellIn s).isTextual = true ∧ ∀ t, o.convert (.text t) = .text t

theorem convert_text {c : Column} (h : c.isInteger = false) (t : Text) :
    (column c).convert (.text t) = .text t := by
  simp [convert, h, Cell.asText]

theorem convert_int {c : Column} (h : c.isInteger = true) (n : Int) :
    (column c).convert (.int n) = .int n := by
  simp [convert, h, Cell.asInteger]

theorem cellIn_document {s : Scope} {c : Column} {labels : List Text}
    (h : ∀ l ∈ labels, '"' ∉ l) :
    (document c (Document.pathText labels)).cellIn s = (s c).within labels := by
  simp only [cellIn, value?, Cell.within]
  cases (s c).text? with
  | none => rfl
  | some t =>
    simp only [lookUp?, Document.pathLabels?_pathText h, Option.bind_eq_bind, Option.bind_some]
    rcases Document.lookUp? t labels with _ | _ | codes <;> rfl

theorem takesTexts_document {s : Scope} {c : Column} {labels : List Text}
    (h : ∀ l ∈ labels, '"' ∉ l) : (document c (Document.pathText labels)).TakesTexts s := by
  refine ⟨?_, fun t => rfl⟩
  rw [cellIn_document h]
  exact Cell.isTextual_within labels (s c)

end Operand

theorem ObjectRecord.isTextual_cell (o : ObjectRecord) {c : Column} (h : c.isInteger = false) :
    (o.cell c).isTextual = true := by cases c <;> first | rfl | cases h

theorem FileRecord.isTextual_cell (r : FileRecord) {c : Column} (h : c.isInteger = false) :
    (r.cell c).isTextual = true := by
  cases c with
  | fileSsdeep =>
    rw [cell]
    cases r.ssdeep <;> rfl
  | _ => first | rfl | cases h

theorem ConfigRecord.isTextual_cell (r : ConfigRecord) (c : Column) :
    (r.cell c).isTextual = true := by cases c <;> rfl

theorem BlobRecord.isTextual_cell (r : BlobRecord) {c : Column} (h : c.isInteger = false) :
    (r.cell c).isTextual = true := by cases c <;> first | rfl | cases h

namespace Database

theorem isTextual_cellOf {α : Type} {cell : α → Scope} {c : Column}
    (h : ∀ r, (cell r c).isTextual = true) (row : Option α) :
    (cellOf cell row c).isTextual = true := by
  cases row with
  | none => rfl
  | some r => exact h r

theorem isTextual_scope (db : Database) (o : ObjectRecord) {c : Column}
    (h : c.isInteger = false) : (db.scope o c).isTextual = true := by
  unfold scope
  cases c.source with
  | object => exact o.isTextual_cell h
  | file => exact isTextual_cellOf (fun r => r.isTextual_cell h) _
  | config => exact isTextual_cellOf (fun r => r.isTextual_cell c) _
  | blob => exact isTextual_cellOf (fun r => r.isTextual_cell h) _
  | _ => rfl

end Database

namespace Leaf

open Condition

variable {db : Database} {s : Scope}

theorem truth_textCondition {o : Operand} (ho : o.TakesTexts s) {value : Text}
    (hr : (textCondition o value).isReadable db s = true) :
    (textCondition o value).truth db s = (o.cellIn s).agreesWith value := by
  unfold textCondition at hr ⊢
  by_cases hw : Text.hasWildcards value = true
  · rw [if_pos hw] at hr ⊢
    have hp : (Text.likePattern value).octets.length ≤ maxPatternSize := by
      simp only [isReadable, Bool.and_eq_true, decide_eq_true_eq] at hr
      exact hr.1
    rw [truth_like hp, likeTruth, Cell.agreesWith]
    cases (o.cellIn s).codes? with
    | none => rfl
    | some codes => simp only [if_pos hw]
  · rw [if_neg hw, equals, truth_compare, Literal.cell, ho.2, Cell.stands_eq_text ho.1,
      Cell.agreesWith]
    simp only [if_neg hw]

theorem number_of_integer? {path value : Text} {n : Int} (h : integer? path value = .ok n) :
    number value = .int n := by
  unfold integer? at h
  unfold number
  cases hn : Text.nat? value with
  | none => simp [hn] at h
  | some m =>
    simp only [hn] at h
    split at h
    · cases h
      rfl
    · cases h

theorem truth_singleInt {c : Column} (hc : c.isInteger = true) (comparison : Comparison) (n : Int) :
    truthOfAll db s [.compare (.column c) comparison (.int n)] =
      (s c).stands comparison (.int n) := by
  rw [truthOfAll, truthOfAll, truth_compare, Literal.cell, Operand.convert_int hc, Truth.both_yes]
  rfl

theorem truth_singleMoment {c : Column} (hc : c.isInteger = false) (comparison : Comparison)
    (m : Moment) :
    truthOfAll db s [.compare (.column c) comparison (.moment m)] =
      (s c).stands comparison (.text m.text) := by
  rw [truthOfAll, truthOfAll, truth_compare, Literal.cell, Operand.convert_text hc, Truth.both_yes]
  rfl

theorem truth_integerBound {c : Column} (hc : c.isInteger = true) {path value : Text}
    {comparison : Comparison} {cs : List Condition}
    (h : integerBound path c comparison value = .ok cs) :
    truthOfAll db s cs = ending value fun t => (s c).stands comparison (number t) := by
  unfold integerBound at h
  unfold ending
  split at h
  · cases h
    simp [truthOfAll, *]
  · rename_i hopen
    obtain ⟨n, hn, h⟩ := bind_eq_ok_iff.1 h
    cases h
    rw [if_neg hopen, truth_singleInt hc, ← number_of_integer? hn]

theorem truth_integerRange {c : Column} (hc : c.isInteger = true) {path : Text} {r : Range}
    {e : Condition} (h : integerRange path c r = .ok e) :
    e.truth db s = between r number (s c) := by
  obtain ⟨low, hlow, h⟩ := bind_eq_ok_iff.1 h
  obtain ⟨high, hhigh, h⟩ := bind_eq_ok_iff.1 h
  cases h
  rw [truth_conjoin, truthOfAll_append, truth_integerBound hc hlow, truth_integerBound hc hhigh,
    between]

theorem read?_of_window? {path value : Text} {w : Window} (h : window? path value = .ok w) :
    Window.read? value = some w := by
  unfold window? at h
  split at h
  · cases h
  · cases h
    assumption

theorem truth_momentTerm {c : Column} (hc : c.isInteger = false) {path value : Text}
    {e : Condition} (h : momentTerm path c value = .ok e) :
    e.truth db s = (s c).inWindow (Text.unescape value) := by
  unfold momentTerm at h
  split at h
  · cases h
  · obtain ⟨w, hw, h⟩ := bind_eq_ok_iff.1 h
    cases h
    have hsplit : ∀ d e : Condition, truthOfAll db s [d, e] =
        (truthOfAll db s [d]).both (truthOfAll db s [e]) := fun d e => truthOfAll_append [d] [e]
    rw [truth_conjoin, hsplit, truth_singleMoment hc, truth_singleMoment hc, Cell.inWindow,
      read?_of_window? hw]

theorem truth_momentLow {c : Column} (hc : c.isInteger = false) {path value : Text}
    {cs : List Condition} (h : momentLow path c value = .ok cs) :
    truthOfAll db s cs = ending value fun t => (Window.read? t).elim .unknown fun w =>
      (s c).stands .ge (.text w.start.text) := by
  unfold momentLow at h
  unfold ending
  split at h
  · cases h
    simp [truthOfAll, *]
  · rename_i hopen
    obtain ⟨w, hw, h⟩ := bind_eq_ok_iff.1 h
    cases h
    simp only [if_neg hopen, truth_singleMoment hc, read?_of_window? hw, Option.elim_some]

theorem truth_momentHigh {c : Column} (hc : c.isInteger = false) {path value : Text}
    {cs : List Condition} (h : momentHigh path c value = .ok cs) :
    truthOfAll db s cs = ending value fun t => (Window.read? t).elim .unknown fun w =>
      (s c).stands .lt (.text w.stop.text) := by
  unfold momentHigh at h
  unfold ending
  split at h
  · cases h
    simp [truthOfAll, *]
  · rename_i hopen
    obtain ⟨w, hw, h⟩ := bind_eq_ok_iff.1 h
    cases h
    simp only [if_neg hopen, truth_singleMoment hc, read?_of_window? hw, Option.elim_some]

theorem truth_momentRange {c : Column} (hc : c.isInteger = false) {path : Text} {r : Range}
    {e : Condition} (h : momentRange path c r = .ok e) :
    e.truth db s = betweenWindows r (s c) := by
  unfold momentRange at h
  split at h
  · cases h
  · obtain ⟨low, hlow, h⟩ := bind_eq_ok_iff.1 h
    obtain ⟨high, hhigh, h⟩ := bind_eq_ok_iff.1 h
    cases h
    rw [truth_conjoin, truthOfAll_append, truth_momentLow hc hlow, truth_momentHigh hc hhigh,
      betweenWindows]

theorem gt_either_eq (r : Ordering) :
    (Truth.ofBool (Comparison.gt.holds r)).either (.ofBool (Comparison.eq.holds r)) =
      .ofBool (Comparison.ge.holds r) := by
  cases r <;> rfl

theorem lt_either_eq (r : Ordering) :
    (Truth.ofBool (Comparison.lt.holds r)).either (.ofBool (Comparison.eq.holds r)) =
      .ofBool (Comparison.le.holds r) := by
  cases r <;> rfl

/-- Beyond a bound or at it is the same as not on the other side of it. -/
theorem truth_orEqual (o : Operand) (strict loose : Comparison) (l : Literal)
    (h : ∀ r, (Truth.ofBool (strict.holds r)).either (.ofBool (Comparison.eq.holds r)) =
      .ofBool (loose.holds r)) :
    truthOfAll db s [.any [.compare o strict l, equals o l]] =
      (o.cellIn s).stands loose (o.convert l.cell) := by
  rw [truthOfAll, truthOfAll, truth, truthOfAny, truthOfAny, truthOfAny, equals, truth_compare,
    truth_compare, Truth.both_yes, Cell.stands, Cell.stands, Cell.stands]
  cases (o.cellIn s).compare? (o.convert l.cell) with
  | none => rfl
  | some r =>
    simp only [Truth.ofOrdering, ← h r]
    cases Truth.ofBool (Comparison.eq.holds r) <;> rfl

theorem truth_documentBound {o : Operand} (ho : o.TakesTexts s) {strict loose : Comparison}
    (h : ∀ r, (Truth.ofBool (strict.holds r)).either (.ofBool (Comparison.eq.holds r)) =
      .ofBool (loose.holds r)) (included : Bool) (value : Text) :
    truthOfAll db s (documentBound o strict included value) =
      ending value fun t => (o.cellIn s).stands (if included then loose else strict) (.text t) := by
  unfold documentBound ending
  split
  · rfl
  · cases included with
    | true =>
      rw [if_pos rfl, truth_orEqual o strict loose _ h, Literal.cell, ho.2]
      rfl
    | false =>
      simp only [Bool.false_eq_true, if_false]
      rw [truthOfAll, truthOfAll, truth_compare, Literal.cell, ho.2, Truth.both_yes]

theorem truth_documentRange {o : Operand} (ho : o.TakesTexts s) (r : Range) :
    (documentRange o r).truth db s = between r .text (o.cellIn s) := by
  rw [documentRange, truth_conjoin, truthOfAll_append, truth_documentBound ho gt_either_eq,
    truth_documentBound ho lt_either_eq, between]

end Leaf

namespace Database

variable {db : Database}

theorem mem_attachedTags {id : Int} {t : Text} :
    t ∈ db.attachedTexts id .tags ↔
      ∃ row ∈ db.relatedRows .tags, row.owner = id ∧ row.cell? .tagName = some (.text t) := by
  simp only [attachedTexts, List.mem_flatMap, List.mem_filter, List.mem_map, beq_iff_eq]
  constructor
  · rintro ⟨ot, ⟨hot, hid⟩, tag, htag, rfl⟩
    refine ⟨.tag ot tag, ?_, hid, rfl⟩
    refine List.mem_flatMap.2 ⟨ot, hot, List.mem_map.2 ⟨tag, ?_, rfl⟩⟩
    simpa [List.mem_filter] using htag
  · rintro ⟨row, hrow, howner, hcell⟩
    obtain ⟨ot, hot, hin⟩ := List.mem_flatMap.1 hrow
    obtain ⟨tag, htag, rfl⟩ := List.mem_map.1 hin
    refine ⟨ot, ⟨hot, howner⟩, tag, by simpa [List.mem_filter] using htag, ?_⟩
    simpa [RelatedRow.cell?] using hcell

theorem mem_map_text {α : Type} {rows : List α} (row : α → RelatedRow) {text : α → Text}
    {c : Column} (h : ∀ a, (row a).cell? c = some (.text (text a))) {id : Int} {t : Text} :
    t ∈ (rows.filter fun a => (row a).owner == id).map text ↔
      ∃ x ∈ rows.map row, x.owner = id ∧ x.cell? c = some (.text t) := by
  simp only [List.mem_map, List.mem_filter, beq_iff_eq]
  constructor
  · rintro ⟨a, ⟨ha, hid⟩, rfl⟩
    exact ⟨row a, ⟨a, ha, rfl⟩, hid, h a⟩
  · rintro ⟨_, ⟨a, ha, rfl⟩, howner, hcell⟩
    refine ⟨a, ⟨ha, howner⟩, ?_⟩
    simpa [h a] using hcell

/-- The texts that a field of related rows looks at are those attached to the object. -/
theorem mem_attachedTexts {r : Relation} {c : Column}
    (h : .related r c ∈ FieldEntry.strategies) {id : Int} {t : Text} :
    t ∈ db.attachedTexts id r ↔
      ∃ row ∈ db.relatedRows r, row.owner = id ∧ row.cell? c = some (.text t) := by
  rcases FieldEntry.related_of_mem_strategies h with ⟨rfl, rfl⟩ | ⟨rfl, rfl⟩ | ⟨rfl, rfl⟩
  · exact mem_attachedTags
  · exact mem_map_text RelatedRow.comment fun _ => rfl
  · exact mem_map_text RelatedRow.altName fun _ => rfl

theorem exists_text_of_related {r : Relation} {c : Column}
    (h : .related r c ∈ FieldEntry.strategies) {row : RelatedRow} (hrow : row ∈ db.relatedRows r) :
    c.isInteger = false ∧ ∃ t, row.cell? c = some (.text t) := by
  rcases FieldEntry.related_of_mem_strategies h with ⟨rfl, rfl⟩ | ⟨rfl, rfl⟩ | ⟨rfl, rfl⟩
  · obtain ⟨ot, _, hin⟩ := List.mem_flatMap.1 hrow
    obtain ⟨tag, _, rfl⟩ := List.mem_map.1 hin
    exact ⟨rfl, _, rfl⟩
  · obtain ⟨n, _, rfl⟩ := List.mem_map.1 hrow
    exact ⟨rfl, _, rfl⟩
  · obtain ⟨n, _, rfl⟩ := List.mem_map.1 hrow
    exact ⟨rfl, _, rfl⟩

@[simp] theorem scope_objectId (db : Database) (o : ObjectRecord) :
    db.scope o .objectId = .int o.id := rfl

end Database

namespace Leaf

open Condition

variable {db : Database} {o : ObjectRecord}

theorem truth_related {r : Relation} {c : Column} (h : .related r c ∈ FieldEntry.strategies)
    {value : Text}
    (hr : (ofObject r (textCondition (.column c) value)).isReadable db (db.scope o) = true) :
    (ofObject r (textCondition (.column c) value)).truth db (db.scope o) =
      .ofBool ((db.attachedTexts o.id r).any fun t => (Cell.text t).agreesWith value == .yes) := by
  have hinner : ∀ row ∈ db.relatedRows r, row.owner = o.id → ∀ t, c.isInteger = false →
      row.cell? c = some (.text t) →
      (textCondition (.column c) value).truth db (row.enter (db.scope o)) =
        (Cell.text t).agreesWith value := by
    intro row hrow howner t hc hcell
    have hread := (Database.isReadable_related_iff (db.scope_objectId o)).1 hr _ hrow howner
    have hcellIn : (Operand.column c).cellIn (row.enter (db.scope o)) = .text t := by
      simp [Operand.cellIn, Operand.value?, RelatedRow.enter, hcell]
    have htakes : (Operand.column c).TakesTexts (row.enter (db.scope o)) :=
      ⟨by rw [hcellIn]; rfl, Operand.convert_text hc⟩
    rw [truth_textCondition htakes hread, hcellIn]
  apply Truth.eq_ofBool (Database.truth_related_ne_unknown db _ _ _ _)
  rw [Database.truth_related_eq_yes (db.scope_objectId o), List.any_eq_true]
  constructor
  · rintro ⟨row, hrow, howner, htruth⟩
    obtain ⟨hc, t, ht⟩ := Database.exists_text_of_related h hrow
    refine ⟨t, (Database.mem_attachedTexts h).2 ⟨row, hrow, howner, ht⟩, ?_⟩
    rw [← hinner row hrow howner t hc ht, htruth]
    rfl
  · rintro ⟨t, ht, htruth⟩
    obtain ⟨row, hrow, howner, hcell⟩ := (Database.mem_attachedTexts h).1 ht
    have hc := (Database.exists_text_of_related h hrow).1
    refine ⟨row, hrow, howner, ?_⟩
    rw [hinner row hrow howner t hc hcell]
    exact beq_iff_eq.1 htruth

/-- A condition on the rows of an object speaks about them one by one. -/
theorem truth_ofRows {α : Type} {r : Relation} {rows : List α} (row : α → RelatedRow)
    (hrows : db.relatedRows r = rows.map row) {inner : Condition} {p : α → Bool}
    (h : ∀ a ∈ rows, (row a).owner = o.id →
      (inner.truth db ((row a).enter (db.scope o)) = .yes ↔ p a = true)) :
    (ofObject r inner).truth db (db.scope o) =
      .ofBool (rows.any fun a => (row a).owner == o.id && p a) := by
  apply Truth.eq_ofBool (Database.truth_related_ne_unknown db _ _ _ _)
  rw [Database.truth_related_eq_yes (db.scope_objectId o), List.any_eq_true, hrows]
  constructor
  · rintro ⟨_, hrow, howner, htruth⟩
    obtain ⟨a, ha, rfl⟩ := List.mem_map.1 hrow
    refine ⟨a, ha, ?_⟩
    rw [Bool.and_eq_true, beq_iff_eq]
    exact ⟨howner, (h a ha howner).1 htruth⟩
  · rintro ⟨a, ha, hp⟩
    rw [Bool.and_eq_true, beq_iff_eq] at hp
    exact ⟨row a, List.mem_map_of_mem ha, hp.1, (h a ha hp.1).2 hp.2⟩

theorem truth_sharedWith {v : Viewer} {path : Text} {leaf : Leaf} {e : Condition}
    (h : sharedWithCondition db.directory v path leaf = .ok e) :
    ∃ value, leaf = term value ∧ e.truth db (db.scope o) =
      .ofBool ((db.rows .permissions).any fun p => p.objectId == o.id &&
        (db.group? (Text.unescape value)).any fun g => p.groupId == g.id) := by
  obtain ⟨value, g, rfl, hg, _, rfl⟩ := sharedWithCondition_eq_ok h
  have hfound : db.group? (Text.unescape value) = some g := Except.ok.inj hg
  refine ⟨value, rfl, truth_ofRows .permission rfl fun r _ _ => ?_⟩
  rw [equals, truth_compare, Literal.cell, Operand.convert_int rfl, Cell.stands_eq_yes, hfound,
    Option.any_some, beq_iff_eq]
  exact Cell.compare?_int_eq_iff r.groupId g.id

/-- The text is that of a reason why an object is shared. -/
theorem truth_uploadedBy {v : Viewer} {path : Text} {leaf : Leaf} {e : Condition}
    (h : uploadedByCondition db.directory v path leaf = .ok e) :
    ∃ value, leaf = term value ∧ e.truth db (db.scope o) =
      .ofBool ((db.rows .permissions).any fun p => p.objectId == o.id &&
        (p.reason == ShareReason.added.text && (db.user? (Text.unescape value)).any fun u =>
          p.relatedUser.stands .eq (.int u.id) == .yes)) := by
  obtain ⟨value, u, rfl, hu, _, rfl⟩ := uploadedByCondition_eq_ok h
  have hfound : db.user? (Text.unescape value) = some u := Except.ok.inj hu
  refine ⟨value, rfl, truth_ofRows .permission rfl fun r _ _ => ?_⟩
  rw [truth, truthOfAll_eq_yes, hfound, Option.any_some, Bool.and_eq_true, beq_iff_eq, beq_iff_eq]
  simp only [List.mem_cons, List.not_mem_nil, or_false, forall_eq_or_imp, forall_eq, equals,
    truth_compare, Literal.cell, Operand.convert_int (c := .permissionUser) rfl,
    Operand.convert_text (c := .permissionReason) rfl]
  rw [and_comm]
  refine and_congr_left fun _ => ?_
  rw [Cell.stands_eq_yes]
  change (Cell.text r.reason).compare? (.text ShareReason.added.text) = some .eq ↔ _
  rw [Cell.compare?_text, Option.some.injEq, Cell.compareTexts_eq_iff]

theorem truth_keyed {v : Viewer} {path : Text} {residual : List Text} {leaf : Leaf} {e : Condition}
    (h : keyedCondition db.directory v path residual leaf = .ok e)
    (hr : e.isReadable db (db.scope o) = true) :
    ∃ value key labels, leaf = term value ∧ residual.map Text.unescape = key :: labels ∧
      e.truth db (db.scope o) =
        .ofBool ((db.rows .attributes).any fun a => a.objectId == o.id && (a.key == key &&
          ((Cell.text a.value).within labels).agreesWith value == .yes)) := by
  obtain ⟨value, segment, rest, _, rfl, rfl, _, _, _, hquote, rfl⟩ := keyedCondition_eq_ok h
  refine ⟨value, _, _, rfl, rfl, truth_ofRows .attributeRow rfl fun r hmem howner => ?_⟩
  have hrow : RelatedRow.attributeRow r ∈ db.relatedRows .attributes :=
    List.mem_map_of_mem hmem
  have hread := (Database.isReadable_related_iff (db.scope_objectId o)).1 hr _ hrow howner
  have htext : (textCondition (.document .attributeValue
      (Document.pathText (rest.map Text.unescape))) value).isReadable db
        ((RelatedRow.attributeRow r).enter (db.scope o)) = true := by
    simp only [isReadable, allReadable, Bool.and_eq_true] at hread
    exact hread.2.1
  rw [truth, truthOfAll_eq_yes, Bool.and_eq_true, beq_iff_eq, beq_iff_eq]
  simp only [List.mem_cons, List.not_mem_nil, or_false, forall_eq_or_imp, forall_eq, equals,
    truth_compare, Literal.cell, Operand.convert_text (c := .attributeKey) rfl]
  rw [truth_textCondition (Operand.takesTexts_document hquote) htext,
    Operand.cellIn_document hquote, Cell.stands_eq_yes]
  refine and_congr_left fun _ => ?_
  change (Cell.text r.key).compare? (.text (Text.unescape segment)) = some .eq ↔ _
  rw [Cell.compare?_text, Option.some.injEq, Cell.compareTexts_eq_iff]

end Leaf

namespace Leaf

open Condition

variable {db : Database} {o : ObjectRecord}

theorem takesTexts_scope {c : Column} (hc : c.isInteger = false) :
    (Operand.column c).TakesTexts (db.scope o) :=
  ⟨db.isTextual_scope o hc, Operand.convert_text hc⟩

/-- The condition of a value has the truth of the value on every object that it is readable for. -/
theorem truth_eq_truthOn {v : Viewer} {f : ResolvedField}
    (hf : f.strategy ∈ FieldEntry.strategies) {leaf : Leaf} {e : Condition}
    (h : leaf.condition db.directory v f = .ok e)
    (hr : e.isReadable db (db.scope o) = true) :
    e.truth db (db.scope o) = leaf.truthOn db o f := by
  obtain ⟨path, kind, strategy, residual⟩ := f
  cases strategy with
  | text c =>
    cases leaf with
    | term value =>
      cases h
      exact truth_textCondition (takesTexts_scope (FieldEntry.text_of_mem_strategies hf)) hr
    | range r => cases h
  | integer c =>
    have hc : c.isInteger = true := FieldEntry.integer_of_mem_strategies hf
    cases leaf with
    | term value =>
      obtain ⟨n, hn, h⟩ := bind_eq_ok_iff.1 h
      cases h
      rw [equals, truth_compare, Literal.cell, Operand.convert_int hc, ← number_of_integer? hn]
      rfl
    | range r => exact truth_integerRange hc h
  | moment c =>
    have hc : c.isInteger = false := FieldEntry.moment_of_mem_strategies hf
    cases leaf with
    | term value => exact truth_momentTerm hc h
    | range r => exact truth_momentRange hc h
  | related r c =>
    cases leaf with
    | term value =>
      cases h
      exact truth_related hf hr
    | range r => cases h
  | document c =>
    cases leaf with
    | term value =>
      obtain ⟨operand, hoperand, h⟩ := bind_eq_ok_iff.1 h
      cases h
      obtain ⟨rfl, hquote⟩ := documentOperand_eq_ok hoperand
      rw [truth_textCondition (Operand.takesTexts_document hquote) hr,
        Operand.cellIn_document hquote]
      rfl
    | range r =>
      obtain ⟨operand, hoperand, h⟩ := bind_eq_ok_iff.1 h
      cases h
      obtain ⟨rfl, hquote⟩ := documentOperand_eq_ok hoperand
      rw [truth_documentRange (Operand.takesTexts_document hquote),
        Operand.cellIn_document hquote]
      rfl
  | keyed =>
    have hk : keyedCondition db.directory v path residual leaf = .ok e := by
      cases leaf <;> exact h
    obtain ⟨value, key, labels, rfl, hlabels, htruth⟩ := truth_keyed hk hr
    rw [htruth]
    simp only [truthOn, hlabels]
  | sharedWith =>
    have hs : sharedWithCondition db.directory v path leaf = .ok e := by cases leaf <;> exact h
    obtain ⟨value, rfl, htruth⟩ := truth_sharedWith hs
    exact htruth
  | uploadedBy =>
    have hu : uploadedByCondition db.directory v path leaf = .ok e := by cases leaf <;> exact h
    obtain ⟨value, rfl, htruth⟩ := truth_uploadedBy hu
    exact htruth

end Leaf

end SampleSearch
