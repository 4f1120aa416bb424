import SampleSearch.Text.Basic

/-! # Columns and relations

Conditions speak about columns of the rows that belong to one object: the object itself, its row
of a concrete kind, and the rows related to it. A relation reaches related rows through a column
that holds the id of the object.
-/

namespace SampleSearch

/-- The rows that a condition may look at. -/
inductive Source
  | object
  | file
  | config
  | blob
  | tag
  | tagging
  | comment
  | altName
  | attributeRow
  | permission
  deriving DecidableEq, Repr

def Source.alias : Source → Text
  | object => "o".toList
  | file => "f".toList
  | config => "c".toList
  | blob => "b".toList
  | tag => "t".toList
  | tagging => "ot".toList
  | comment => "cm".toList
  | altName => "fa".toList
  | attributeRow => "a".toList
  | permission => "p".toList

inductive Column
  | objectId
  | objectDhash
  | objectType
  | objectUploadTime
  | fileName
  | fileSize
  | fileType
  | fileMd5
  | fileSha1
  | fileSha256
  | fileSha512
  | fileCrc32
  | fileSsdeep
  | configFamily
  | configType
  | configDocument
  | blobName
  | blobSize
  | blobType
  | blobContent
  | blobLastSeen
  | tagName
  | taggingObject
  | commentText
  | commentObject
  | altNameText
  | altNameFile
  | attributeKey
  | attributeValue
  | attributeObject
  | permissionGroup
  | permissionUser
  | permissionReason
  | permissionObject
  deriving DecidableEq, Repr

namespace Column

def all : List Column :=
  [objectId, objectDhash, objectType, objectUploadTime, fileName, fileSize, fileType, fileMd5,
   fileSha1, fileSha256, fileSha512, fileCrc32, fileSsdeep, configFamily, configType,
   configDocument, blobName, blobSize, blobType, blobContent, blobLastSeen, tagName,
   taggingObject, commentText, commentObject, altNameText, altNameFile, attributeKey,
   attributeValue, attributeObject, permissionGroup, permissionUser, permissionReason,
   permissionObject]

theorem mem_all (c : Column) : c ∈ all := by cases c <;> decide

def source : Column → Source
  | objectId | objectDhash | objectType | objectUploadTime => .object
  | fileName | fileSize | fileType | fileMd5 | fileSha1 | fileSha256 | fileSha512 | fileCrc32
  | fileSsdeep => .file
  | configFamily | configType | configDocument => .config
  | blobName | blobSize | blobType | blobContent | blobLastSeen => .blob
  | tagName => .tag
  | taggingObject => .tagging
  | commentText | commentObject => .comment
  | altNameText | altNameFile => .altName
  | attributeKey | attributeValue | attributeObject => .attributeRow
  | permissionGroup | permissionUser | permissionReason | permissionObject => .permission

def name : Column → Text
  | objectId => "id".toList
  | objectDhash => "dhash".toList
  | objectType => "type".toList
  | objectUploadTime => "upload_time".toList
  | fileName => "file_name".toList
  | fileSize => "file_size".toList
  | fileType => "file_type".toList
  | fileMd5 => "md5".toList
  | fileSha1 => "sha1".toList
  | fileSha256 => "sha256".toList
  | fileSha512 => "sha512".toList
  | fileCrc32 => "crc32".toList
  | fileSsdeep => "ssdeep".toList
  | configFamily => "family".toList
  | configType => "config_type".toList
  | configDocument => "cfg".toList
  | blobName => "blob_name".toList
  | blobSize => "blob_size".toList
  | blobType => "blob_type".toList
  | blobContent => "content".toList
  | blobLastSeen => "last_seen".toList
  | tagName => "tag".toList
  | taggingObject => "object_id".toList
  | commentText => "comment".toList
  | commentObject => "object_id".toList
  | altNameText => "name".toList
  | altNameFile => "file_id".toList
  | attributeKey => "key".toList
  | attributeValue => "value".toList
  | attributeObject => "object_id".toList
  | permissionGroup => "group_id".toList
  | permissionUser => "related_user_id".toList
  | permissionReason => "reason_type".toList
  | permissionObject => "object_id".toList

/-- The name of the column behind the alias of its row. -/
def text (c : Column) : Text := c.source.alias ++ '.' :: c.name

def ofText? (t : Text) : Option Column := all.find? fun c => c.text == t

/-- Whether the column holds whole numbers; all others hold texts. -/
def isInteger : Column → Bool
  | objectId | fileSize | blobSize | taggingObject | commentObject | altNameFile
  | attributeObject | permissionGroup | permissionUser | permissionObject => true
  | _ => false

theorem ofText?_text (c : Column) : ofText? c.text = some c := by cases c <;> decide

theorem text_injective {c d : Column} (h : c.text = d.text) : c = d := by
  have hc := ofText?_text c
  rw [h, ofText?_text d] at hc
  exact (Option.some.inj hc).symm

end Column

inductive Relation
  | tags
  | comments
  | altNames
  | attributes
  | permissions
  deriving DecidableEq, Repr

namespace Relation

def all : List Relation := [tags, comments, altNames, attributes, permissions]

def name : Relation → Text
  | tags => "tags".toList
  | comments => "comments".toList
  | altNames => "alt_names".toList
  | attributes => "attributes".toList
  | permissions => "permissions".toList

/-- The column that holds the id of the object to which a related row belongs. -/
def link : Relation → Column
  | tags => .taggingObject
  | comments => .commentObject
  | altNames => .altNameFile
  | attributes => .attributeObject
  | permissions => .permissionObject

end Relation

end SampleSearch
