import SampleSearch.Compile.Plan
import SampleSearch.Search.Hit
import SampleSearch.Sql.Limits
import SampleSearch.Store.Lookup

/-! # Answers

The answer to a search holds the hits in the order of the plan and up to its limit, and the number
of all objects that match. The objects are counted by one statement and selected by another, and
either may fail. An object whose rows cannot be read makes the search fail if it is within the
limit.
-/

namespace SampleSearch

namespace SortOrder

/-- Objects by time of upload, and by id among those of the same time. -/
def beforeOrSame (sort : SortOrder) (a b : ObjectRecord) : Bool :=
  match sort with
  | .oldest => a.uploadTime < b.uploadTime || (a.uploadTime == b.uploadTime && a.id ≤ b.id)
  | .newest => b.uploadTime < a.uploadTime || (a.uploadTime == b.uploadTime && b.id ≤ a.id)

end SortOrder

namespace Database

def missingRow {α : Type} : Except SearchError α := storageFailure "a row is missing"

def fileDetails (db : Database) (id : Int) : Except SearchError FileDetails :=
  match db.file? id with
  | none => missingRow
  | some r => do
    .ok ⟨r.fileName, ← number r.fileSize, r.fileType, r.md5, r.sha1, r.sha256, r.sha512,
      r.crc32, r.ssdeep⟩

def configDetails (db : Database) (id : Int) : Except SearchError ConfigDetails :=
  match db.config? id with
  | none => missingRow
  | some r =>
    match Json.read? r.document with
    | none => storageFailure "a stored document is malformed"
    | some document => .ok ⟨r.family, r.configType, document⟩

def blobDetails (db : Database) (id : Int) : Except SearchError BlobDetails :=
  match db.blob? id with
  | none => missingRow
  | some r => do .ok ⟨r.blobName, ← number r.blobSize, r.blobType, ← moment r.lastSeen⟩

def details (db : Database) (o : ObjectRecord) : Except SearchError Details :=
  match Kind.ofTypeTag o.typeTag with
  | some .file => do .ok (.file (← db.fileDetails o.id))
  | some .config => do .ok (.config (← db.configDetails o.id))
  | some .blob => do .ok (.blob (← db.blobDetails o.id))
  | _ => .ok .object

def hit (db : Database) (o : ObjectRecord) : Except SearchError Hit := do
  .ok ⟨o.id, o.dhash, ← moment o.uploadTime, ← db.details o⟩

/-- The objects of a plan in its order. -/
def sorted (p : Plan) (os : List ObjectRecord) : List ObjectRecord :=
  os.mergeSort p.sort.beforeOrSame

def page (p : Plan) (os : List ObjectRecord) : List ObjectRecord := (sorted p os).take p.limit

/-- The objects of a plan, at least those within its limit. -/
def matching (db : Database) (p : Plan) (purpose : Purpose) :
    Except SearchError (List ObjectRecord) :=
  match db.matching? p.condition purpose (sorted p) p.limit with
  | some os => .ok os
  | none => storageFailure "a condition cannot be decided"

/-- The number of objects of a plan, whatever its limit. -/
def count (db : Database) (p : Plan) : Except SearchError Nat := do
  .ok (← db.matching p .counting).length

def hits (db : Database) (p : Plan) : Except SearchError (List Hit) := do
  (page p (← db.matching p .selecting)).mapM db.hit

end Database

structure Answer where
  plan : Plan
  total : Nat
  hits : List Hit

namespace Database

def required (accepted : Bool) : Except SearchError Unit :=
  if accepted then .ok () else storageFailure "a statement is too large"

/-- The plan of a query for the user with a login. -/
def plan (db : Database) (login : Text) (o : SearchOptions) (query : Text) :
    Except SearchError Plan := do
  let v ← db.viewer login
  Plan.compile db.directory v o query

/-- The plan of a query whose statement can be explained. -/
def explained (db : Database) (login : Text) (o : SearchOptions) (query : Text) :
    Except SearchError Plan := do
  let p ← db.plan login o query
  required (Fragment.explanationIsAccepted p)
  .ok p

def search (db : Database) (login : Text) (o : SearchOptions) (query : Text) :
    Except SearchError Answer := do
  let p ← db.plan login o query
  required (Fragment.searchIsAccepted p)
  let total ← db.count p
  .ok ⟨p, total, ← db.hits p⟩

end Database

end SampleSearch
