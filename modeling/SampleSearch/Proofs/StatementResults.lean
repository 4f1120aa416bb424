import SampleSearch.Proofs.StatementAnswers

/-!
# What the texts of a search find

The text of a statement with its values has the answer of the statement that is read from it. The
number in the answer to the counting text of a plan is the total of the search, and its hits are
read from the rows that the selecting text answers with: the cells of an object are followed by
those of a file, of a configuration and of a blob, and the type of the object says which count.
-/

namespace SampleSearch

open Sql

def Fragment.answer? (db : Database) (f : Fragment) : Option (List (List Cell)) :=
  f.statement?.map (Statement.answer db)

def Cell.optionalText? : Cell → Option (Option Text)
  | empty => some none
  | text t => some (some t)
  | _ => none

def FileDetails.ofCells? : List Cell → Option FileDetails
  | [.text fileName, .int fileSize, .text fileType, .text md5, .text sha1, .text sha256,
      .text sha512, .text crc32, ssdeep] =>
    ssdeep.optionalText?.map fun hash =>
      ⟨fileName, fileSize, fileType, md5, sha1, sha256, sha512, crc32, hash⟩
  | _ => none

def ConfigDetails.ofCells? : List Cell → Option ConfigDetails
  | [.text family, .text configType, .text document] =>
    (Json.read? document).map fun d => ⟨family, configType, d⟩
  | _ => none

def BlobDetails.ofCells? : List Cell → Option BlobDetails
  | [.text blobName, .int blobSize, .text blobType, .text lastSeen] =>
    (Moment.stored? lastSeen).map fun m => ⟨blobName, blobSize, blobType, m⟩
  | _ => none

/-- The details of an object with a type, from the cells behind its own. -/
def Details.ofCells? (typeTag : Text) (cells : List Cell) : Option Details :=
  match Kind.ofTypeTag typeTag with
  | some .file => (FileDetails.ofCells? (cells.take 9)).map .file
  | some .config => (ConfigDetails.ofCells? ((cells.drop 9).take 3)).map .config
  | some .blob => (BlobDetails.ofCells? (cells.drop 12)).map .blob
  | _ => some .object

def Hit.ofCells? : List Cell → Option Hit
  | .int id :: .text dhash :: .text typeTag :: .text uploadTime :: cells => do
    let details ← Details.ofCells? typeTag cells
    let m ← Moment.stored? uploadTime
    some ⟨id, dhash, m, details⟩
  | _ => none

def Position.ofCells? : List Cell → Option Position
  | [.int id, .text uploadTime] => (Moment.stored? uploadTime).map fun m => ⟨id, m⟩
  | _ => none

/-- The number that a counting statement answers with. -/
def total? : List (List Cell) → Option Nat
  | [[.int n]] => some n.toNat
  | _ => none

/-- The position in the first row of an answer, if it has a row. -/
def position? : List (List Cell) → Option (Option Position)
  | [] => some none
  | row :: _ => (Position.ofCells? row).map some

theorem Database.toOption_moment (t : Text) : (moment t).toOption = Moment.stored? t := by
  unfold moment
  cases Moment.stored? t <;> rfl

namespace Database

variable (db : Database) (o : ObjectRecord)

theorem ofCells?_file :
    FileDetails.ofCells? (fileColumns.map (db.scope o)) = (db.fileDetails o.id).toOption := by
  change FileDetails.ofCells? (fileColumns.map (cellOf FileRecord.cell (db.file? o.id))) = _
  unfold fileDetails
  cases db.file? o.id with
  | none => rfl
  | some r =>
    obtain ⟨id, fileName, fileSize, fileType, md5, sha1, sha256, sha512, crc32, ssdeep⟩ := r
    cases fileSize <;> cases ssdeep <;> rfl

theorem ofCells?_config :
    ConfigDetails.ofCells? (configColumns.map (db.scope o)) =
      (db.configDetails o.id).toOption := by
  change ConfigDetails.ofCells? (configColumns.map (cellOf ConfigRecord.cell (db.config? o.id))) = _
  unfold configDetails
  cases db.config? o.id with
  | none => rfl
  | some r =>
    obtain ⟨id, family, configType, document⟩ := r
    change (Json.read? document).map _ = _
    dsimp only
    cases Json.read? document <;> rfl

theorem ofCells?_blob :
    BlobDetails.ofCells? (blobColumns.map (db.scope o)) = (db.blobDetails o.id).toOption := by
  change BlobDetails.ofCells? (blobColumns.map (cellOf BlobRecord.cell (db.blob? o.id))) = _
  unfold blobDetails
  cases db.blob? o.id with
  | none => rfl
  | some r =>
    obtain ⟨id, blobName, blobSize, blobType, content, lastSeen⟩ := r
    cases blobSize with
    | int n =>
      change (Moment.stored? lastSeen).map _ = (do
        .ok ⟨blobName, n, blobType, ← moment lastSeen⟩ : Except SearchError BlobDetails).toOption
      rw [← toOption_moment]
      cases moment lastSeen <;> rfl
    | _ => rfl

theorem ofCells?_details :
    Details.ofCells? o.typeTag ((fileColumns ++ configColumns ++ blobColumns).map (db.scope o)) =
      (db.details o).toOption := by
  unfold Details.ofCells? details
  have hfile := db.ofCells?_file o
  have hconfig := db.ofCells?_config o
  have hblob := db.ofCells?_blob o
  cases Kind.ofTypeTag o.typeTag with
  | none => rfl
  | some k =>
    cases k with
    | object => rfl
    | file =>
      change (FileDetails.ofCells? (fileColumns.map (db.scope o))).map _ = _
      rw [hfile]
      cases db.fileDetails o.id <;> rfl
    | config =>
      change (ConfigDetails.ofCells? (configColumns.map (db.scope o))).map _ = _
      rw [hconfig]
      cases db.configDetails o.id <;> rfl
    | blob =>
      change (BlobDetails.ofCells? (blobColumns.map (db.scope o))).map _ = _
      rw [hblob]
      cases db.blobDetails o.id <;> rfl

/-- The hit of an object is read from the cells that are selected of it. -/
theorem ofCells?_hitColumns : Hit.ofCells? (hitColumns.map (db.scope o)) = (db.hit o).toOption := by
  have hdetails := db.ofCells?_details o
  change ((Details.ofCells? o.typeTag ((fileColumns ++ configColumns ++ blobColumns).map
    (db.scope o))).bind fun details => (Moment.stored? o.uploadTime).bind fun m => _) = _
  rw [hdetails, ← toOption_moment, hit]
  cases moment o.uploadTime <;> cases db.details o <;> rfl

theorem mapM_hitColumns (os : List ObjectRecord) :
    (os.map fun o => hitColumns.map (db.scope o)).mapM Hit.ofCells? =
      (os.mapM db.hit).toOption := by
  induction os with
  | nil => rfl
  | cons o os ih =>
    rw [List.map_cons, List.mapM_cons, List.mapM_cons, ih, ofCells?_hitColumns]
    cases db.hit o with
    | error e => rfl
    | ok h => cases os.mapM db.hit <;> rfl

section

variable {db : Database} {login text : Text} {options : SearchOptions} {p : Plan}
  (hi : db.isIntact = true) (hp : db.plan login options text = .ok p)

include hi hp

theorem answer?_counting :
    (Fragment.counting p).answer? db = some [[.int (db.satisfying p.condition).length]] := by
  obtain ⟨v, -, hcompile⟩ := plan_eq_ok hp
  rw [Fragment.answer?, Fragment.statement?_counting, Option.map_some,
    answer_counting hi (Plan.isRegular_of_compile hcompile)]

theorem answer?_selection :
    (Fragment.selection p).answer? db = some ((page p (db.satisfying p.condition)).map fun o =>
      hitColumns.map (db.scope o)) := by
  obtain ⟨v, -, hcompile⟩ := plan_eq_ok hp
  have hlimit : p.limit ≤ Text.maxSigned64 := by
    rw [(sort_limit_of_plan hp).2]
    exact Nat.le_trans options.effectiveLimit_bounds.2 (by decide)
  rw [Fragment.answer?, Fragment.statement?_selection, Option.map_some,
    answer_selection hi (Plan.isRegular_of_compile hcompile) hlimit]

/-- A search by a supported plan finds what its two texts answer with: the total is the number in
the one answer, and the hits are the rows of the other. -/
theorem search_eq_answers (hs : db.Supports p) :
    ((db.search login options text).toOption.map fun a => (a.total, a.hits)) =
      (do
        let total ← ((Fragment.counting p).answer? db).bind total?
        let hits ← ((Fragment.selection p).answer? db).bind fun rows => rows.mapM Hit.ofCells?
        some (total, hits)) := by
  have hcount : db.count p = .ok (db.satisfying p.condition).length := by
    rw [count, matching_of_supports hs]
    rfl
  have hhits : db.hits p = (page p (db.satisfying p.condition)).mapM db.hit := by
    rw [hits, matching_of_supports hs]
    rfl
  rw [answer?_counting hi hp, answer?_selection hi hp, search, hp]
  simp only [required, hs.accepted, hcount, hhits, if_true, bind, Except.bind, Option.bind_some,
    mapM_hitColumns]
  cases (page p (db.satisfying p.condition)).mapM db.hit <;> rfl

end

/-- A position is the one in the answer to the text that looks it up. -/
theorem position?_eq_answer (dhash : Text) (v : Viewer) :
    (db.position? dhash v).toOption =
      ((Fragment.positionLookup dhash v).answer? db).bind SampleSearch.position? := by
  rw [Fragment.answer?, Fragment.statement?_positionLookup, Option.map_some,
    answer_positionLookup, Option.bind_some, Database.position?]
  cases db.satisfying (positionCondition dhash v) with
  | nil => rfl
  | cons o os =>
    change (do
      .ok (some ⟨o.id, ← moment o.uploadTime⟩) : Except SearchError (Option Position)).toOption =
        ((Moment.stored? o.uploadTime).map _).map _
    rw [← toOption_moment]
    cases moment o.uploadTime <;> rfl

end Database

end SampleSearch
