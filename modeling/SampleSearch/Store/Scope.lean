import SampleSearch.Condition.Column
import SampleSearch.Store.Database

/-! # Scopes

A condition is evaluated on one object. Its scope gives the cell of every column: of the object, of
its record of a concrete kind, and of a related row once a relation has been entered. The columns
of rows that are not there are empty.
-/

namespace SampleSearch

abbrev Scope := Column → Cell

def ObjectRecord.cell (r : ObjectRecord) : Scope
  | .objectId => .int r.id
  | .objectDhash => .text r.dhash
  | .objectType => .text r.typeTag
  | .objectUploadTime => .text r.uploadTime
  | _ => .empty

def FileRecord.cell (r : FileRecord) : Scope
  | .fileName => .text r.fileName
  | .fileSize => r.fileSize
  | .fileType => .text r.fileType
  | .fileMd5 => .text r.md5
  | .fileSha1 => .text r.sha1
  | .fileSha256 => .text r.sha256
  | .fileSha512 => .text r.sha512
  | .fileCrc32 => .text r.crc32
  | .fileSsdeep => .ofOption r.ssdeep
  | _ => .empty

def ConfigRecord.cell (r : ConfigRecord) : Scope
  | .configFamily => .text r.family
  | .configType => .text r.configType
  | .configDocument => .text r.document
  | _ => .empty

def BlobRecord.cell (r : BlobRecord) : Scope
  | .blobName => .text r.blobName
  | .blobSize => r.blobSize
  | .blobType => .text r.blobType
  | .blobContent => .text r.content
  | .blobLastSeen => .text r.lastSeen
  | _ => .empty

/-- A row that is related to an object. -/
inductive RelatedRow
  | tag (tagging : TaggingRecord) (tag : TagRecord)
  | comment (r : CommentRecord)
  | altName (r : AltNameRecord)
  | attributeRow (r : AttributeRecord)
  | permission (r : PermissionRecord)
  deriving DecidableEq, Repr

namespace RelatedRow

def cell? : RelatedRow → Column → Option Cell
  | tag ot _, .taggingObject => some (.int ot.objectId)
  | tag _ t, .tagName => some (.text t.name)
  | comment r, .commentObject => some (.int r.objectId)
  | comment r, .commentText => some (.text r.comment)
  | altName r, .altNameFile => some (.int r.fileId)
  | altName r, .altNameText => some (.text r.name)
  | attributeRow r, .attributeObject => some (.int r.objectId)
  | attributeRow r, .attributeKey => some (.text r.key)
  | attributeRow r, .attributeValue => some (.text r.value)
  | permission r, .permissionObject => some (.int r.objectId)
  | permission r, .permissionGroup => some (.int r.groupId)
  | permission r, .permissionUser => some r.relatedUser
  | permission r, .permissionReason => some (.text r.reason)
  | _, _ => none

/-- The scope inside a relation. -/
def enter (row : RelatedRow) (s : Scope) : Scope := fun c => (row.cell? c).getD (s c)

end RelatedRow

namespace Database

def file? (db : Database) (id : Int) : Option FileRecord :=
  (db.rows .files).find? fun r => r.id == id

def config? (db : Database) (id : Int) : Option ConfigRecord :=
  (db.rows .configs).find? fun r => r.id == id

def blob? (db : Database) (id : Int) : Option BlobRecord :=
  (db.rows .blobs).find? fun r => r.id == id

def cellOf {α : Type} (cell : α → Scope) (row : Option α) : Scope :=
  match row with
  | none => fun _ => .empty
  | some r => cell r

def scope (db : Database) (o : ObjectRecord) : Scope := fun c =>
  match c.source with
  | .object => o.cell c
  | .file => cellOf FileRecord.cell (db.file? o.id) c
  | .config => cellOf ConfigRecord.cell (db.config? o.id) c
  | .blob => cellOf BlobRecord.cell (db.blob? o.id) c
  | _ => .empty

/-- The tags of the repository, each with the objects that have it. -/
def taggedRows (db : Database) : List RelatedRow :=
  (db.rows .taggings).flatMap fun ot =>
    ((db.rows .tags).filter fun t => t.id == ot.tagId).map (.tag ot)

def relatedRows (db : Database) : Relation → List RelatedRow
  | .tags => db.taggedRows
  | .comments => (db.rows .comments).map .comment
  | .altNames => (db.rows .altNames).map .altName
  | .attributes => (db.rows .attributes).map .attributeRow
  | .permissions => (db.rows .permissions).map .permission

end Database

end SampleSearch
