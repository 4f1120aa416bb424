import SampleSearch.Store.Cell
import SampleSearch.Viewer

/-! # Records

The rows of the repository. Ids are whole numbers, and what must be a text is one; a few numeric
columns that nothing refers to hold whatever was put into them. An object of a concrete kind has a
record of that kind with the same id. Tags, comments, names, attributes and permissions are
attached to objects by their ids.
-/

namespace SampleSearch

structure ObjectRecord where
  id : Int
  dhash : Text
  typeTag : Text
  uploadTime : Text
  deriving DecidableEq, Repr

structure FileRecord where
  id : Int
  fileName : Text
  fileSize : Cell
  fileType : Text
  md5 : Text
  sha1 : Text
  sha256 : Text
  sha512 : Text
  crc32 : Text
  ssdeep : Option Text
  deriving DecidableEq, Repr

structure AltNameRecord where
  fileId : Int
  name : Text
  deriving DecidableEq, Repr

structure ConfigRecord where
  id : Int
  family : Text
  configType : Text
  document : Text
  deriving DecidableEq, Repr

structure BlobRecord where
  id : Int
  blobName : Text
  blobSize : Cell
  blobType : Text
  content : Text
  lastSeen : Text
  deriving DecidableEq, Repr

structure TagRecord where
  id : Int
  name : Text
  deriving DecidableEq, Repr

/-- A tag on an object. -/
structure TaggingRecord where
  objectId : Int
  tagId : Int
  deriving DecidableEq, Repr

structure CommentRecord where
  id : Int
  objectId : Int
  userId : Cell
  comment : Text
  timestamp : Text
  deriving DecidableEq, Repr

structure AttributeRecord where
  id : Int
  objectId : Int
  key : Text
  value : Text
  deriving DecidableEq, Repr

structure DefinitionRecord where
  key : Option Text
  label : Text
  urlTemplate : Option Text
  hidden : Cell
  deriving DecidableEq, Repr

/-- What a group may do with the attributes of a key. -/
structure RightRecord where
  key : Text
  groupId : Cell
  canRead : Cell
  canSet : Cell
  deriving DecidableEq, Repr

structure GroupRecord where
  id : Int
  name : Text
  capabilities : Text
  deriving DecidableEq, Repr

structure MemberRecord where
  userId : Int
  groupId : Int
  deriving DecidableEq, Repr

/-- An object shared with a group. -/
structure PermissionRecord where
  objectId : Int
  groupId : Int
  reason : Text
  relatedUser : Cell
  deriving DecidableEq, Repr

structure RelationRecord where
  parentId : Int
  childId : Int
  deriving DecidableEq, Repr

namespace ObjectRecord

def cells (r : ObjectRecord) : List Cell :=
  [.int r.id, .text r.dhash, .text r.typeTag, .text r.uploadTime]

def ofCells? : List Cell → Option ObjectRecord
  | [.int id, .text dhash, .text tag, .text time] => some ⟨id, dhash, tag, time⟩
  | _ => none

end ObjectRecord

namespace FileRecord

def cells (r : FileRecord) : List Cell :=
  [.int r.id, .text r.fileName, r.fileSize, .text r.fileType, .text r.md5, .text r.sha1,
   .text r.sha256, .text r.sha512, .text r.crc32, .ofOption r.ssdeep]

def ofCells? : List Cell → Option FileRecord
  | [.int id, .text name, size, .text type, .text md5, .text sha1, .text sha256, .text sha512,
     .text crc32, ssdeep] =>
    some ⟨id, name, size, type, md5, sha1, sha256, sha512, crc32, ssdeep.text?⟩
  | _ => none

end FileRecord

namespace AltNameRecord

def cells (r : AltNameRecord) : List Cell := [.int r.fileId, .text r.name]

def ofCells? : List Cell → Option AltNameRecord
  | [.int fileId, .text name] => some ⟨fileId, name⟩
  | _ => none

end AltNameRecord

namespace ConfigRecord

def cells (r : ConfigRecord) : List Cell :=
  [.int r.id, .text r.family, .text r.configType, .text r.document]

def ofCells? : List Cell → Option ConfigRecord
  | [.int id, .text family, .text type, .text document] => some ⟨id, family, type, document⟩
  | _ => none

end ConfigRecord

namespace BlobRecord

def cells (r : BlobRecord) : List Cell :=
  [.int r.id, .text r.blobName, r.blobSize, .text r.blobType, .text r.content, .text r.lastSeen]

def ofCells? : List Cell → Option BlobRecord
  | [.int id, .text name, size, .text type, .text content, .text seen] =>
    some ⟨id, name, size, type, content, seen⟩
  | _ => none

end BlobRecord

namespace TagRecord

def cells (r : TagRecord) : List Cell := [.int r.id, .text r.name]

def ofCells? : List Cell → Option TagRecord
  | [.int id, .text name] => some ⟨id, name⟩
  | _ => none

end TagRecord

namespace TaggingRecord

def cells (r : TaggingRecord) : List Cell := [.int r.objectId, .int r.tagId]

def ofCells? : List Cell → Option TaggingRecord
  | [.int objectId, .int tagId] => some ⟨objectId, tagId⟩
  | _ => none

end TaggingRecord

namespace CommentRecord

def cells (r : CommentRecord) : List Cell :=
  [.int r.id, .int r.objectId, r.userId, .text r.comment, .text r.timestamp]

def ofCells? : List Cell → Option CommentRecord
  | [.int id, .int objectId, userId, .text comment, .text time] =>
    some ⟨id, objectId, userId, comment, time⟩
  | _ => none

end CommentRecord

namespace AttributeRecord

def cells (r : AttributeRecord) : List Cell :=
  [.int r.id, .int r.objectId, .text r.key, .text r.value]

def ofCells? : List Cell → Option AttributeRecord
  | [.int id, .int objectId, .text key, .text value] => some ⟨id, objectId, key, value⟩
  | _ => none

end AttributeRecord

namespace DefinitionRecord

def cells (r : DefinitionRecord) : List Cell :=
  [.ofOption r.key, .text r.label, .ofOption r.urlTemplate, r.hidden]

def ofCells? : List Cell → Option DefinitionRecord
  | [key, .text label, url, hidden] => some ⟨key.text?, label, url.text?, hidden⟩
  | _ => none

end DefinitionRecord

namespace RightRecord

def cells (r : RightRecord) : List Cell := [.text r.key, r.groupId, r.canRead, r.canSet]

def ofCells? : List Cell → Option RightRecord
  | [.text key, groupId, canRead, canSet] => some ⟨key, groupId, canRead, canSet⟩
  | _ => none

end RightRecord

namespace User

def cells (r : User) : List Cell := [.int r.id, .text r.login]

def ofCells? : List Cell → Option User
  | [.int id, .text login] => some ⟨id, login⟩
  | _ => none

end User

namespace GroupRecord

def cells (r : GroupRecord) : List Cell := [.int r.id, .text r.name, .text r.capabilities]

def ofCells? : List Cell → Option GroupRecord
  | [.int id, .text name, .text capabilities] => some ⟨id, name, capabilities⟩
  | _ => none

def group (r : GroupRecord) : Group := ⟨r.id, r.name⟩

end GroupRecord

namespace MemberRecord

def cells (r : MemberRecord) : List Cell := [.int r.userId, .int r.groupId]

def ofCells? : List Cell → Option MemberRecord
  | [.int userId, .int groupId] => some ⟨userId, groupId⟩
  | _ => none

end MemberRecord

namespace PermissionRecord

def cells (r : PermissionRecord) : List Cell :=
  [.int r.objectId, .int r.groupId, .text r.reason, r.relatedUser]

def ofCells? : List Cell → Option PermissionRecord
  | [.int objectId, .int groupId, .text reason, user] => some ⟨objectId, groupId, reason, user⟩
  | _ => none

end PermissionRecord

namespace RelationRecord

def cells (r : RelationRecord) : List Cell := [.int r.parentId, .int r.childId]

def ofCells? : List Cell → Option RelationRecord
  | [.int parentId, .int childId] => some ⟨parentId, childId⟩
  | _ => none

end RelationRecord

end SampleSearch
