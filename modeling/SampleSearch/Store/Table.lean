import SampleSearch.Store.Record

/-! # Tables

The tables of the repository, each after those it refers to. A table has named columns, keys whose
values are distinct among its rows, and references to rows of other tables. Deleting a row deletes
the rows that refer to it.
-/

namespace SampleSearch

structure ColumnSpec where
  name : Text
  columnClass : ColumnClass
  isRequired : Bool
  /-- What an insertion puts into the column if it does not name it. -/
  absent : Cell

namespace ColumnSpec

def rowId : ColumnSpec := ⟨"id".toList, .rowId, false, .empty⟩

def text (name : String) : ColumnSpec := ⟨name.toList, .text, true, .empty⟩

def integer (name : String) : ColumnSpec := ⟨name.toList, .integer, true, .empty⟩

def optionalText (name : String) : ColumnSpec := ⟨name.toList, .text, false, .empty⟩

def optionalInteger (name : String) : ColumnSpec := ⟨name.toList, .integer, false, .empty⟩

def withDefault (c : ColumnSpec) (absent : Cell) : ColumnSpec := { c with absent := absent }

end ColumnSpec

inductive Table
  | objects
  | files
  | altNames
  | configs
  | blobs
  | tags
  | taggings
  | comments
  | attributes
  | definitions
  | rights
  | users
  | groups
  | members
  | permissions
  | relations
  deriving DecidableEq, Repr

namespace Table

/-- Every table after those that its references lead to. -/
def all : List Table :=
  [objects, files, altNames, configs, blobs, tags, taggings, comments, attributes, definitions,
   rights, users, groups, members, permissions, relations]

theorem mem_all (t : Table) : t ∈ all := by cases t <;> decide

def name : Table → Text
  | objects => "object".toList
  | files => "file".toList
  | altNames => "file_alt_name".toList
  | configs => "static_config".toList
  | blobs => "text_blob".toList
  | tags => "tag".toList
  | taggings => "object_tag".toList
  | comments => "comment".toList
  | attributes => "attribute".toList
  | definitions => "attribute_definition".toList
  | rights => "attribute_permission".toList
  | users => "user".toList
  | groups => "group".toList
  | members => "member".toList
  | permissions => "permission".toList
  | relations => "relation".toList

def ofName? (name : Text) : Option Table := all.find? fun t => t.name == name

theorem ofName?_name (t : Table) : ofName? t.name = some t := by cases t <;> decide

def columns : Table → List ColumnSpec
  | objects => [.rowId, .text "dhash", .text "type", .text "upload_time"]
  | files =>
    [.rowId, .text "file_name", .integer "file_size", .text "file_type", .text "md5",
     .text "sha1", .text "sha256", .text "sha512", .text "crc32", .optionalText "ssdeep"]
  | altNames => [.integer "file_id", .text "name"]
  | configs => [.rowId, .text "family", .text "config_type", .text "cfg"]
  | blobs =>
    [.rowId, .text "blob_name", .integer "blob_size", .text "blob_type", .text "content",
     .text "last_seen"]
  | tags => [.rowId, .text "tag"]
  | taggings => [.integer "object_id", .integer "tag_id"]
  | comments =>
    [.rowId, .integer "object_id", .optionalInteger "user_id", .text "comment",
     .text "timestamp"]
  | attributes => [.rowId, .integer "object_id", .text "key", .text "value"]
  | definitions =>
    [.optionalText "key", (ColumnSpec.text "label").withDefault (.text []),
     .optionalText "url_template", (ColumnSpec.integer "hidden").withDefault (.int 0)]
  | rights =>
    [.text "key", .integer "group_id", (ColumnSpec.integer "can_read").withDefault (.int 0),
     (ColumnSpec.integer "can_set").withDefault (.int 0)]
  | users => [.rowId, .text "login"]
  | groups =>
    [.rowId, .text "name", (ColumnSpec.text "capabilities").withDefault (.text "[]".toList)]
  | members => [.integer "user_id", .integer "group_id"]
  | permissions =>
    [.integer "object_id", .integer "group_id", .text "reason_type",
     .optionalInteger "related_user_id"]
  | relations => [.integer "parent_id", .integer "child_id"]

abbrev Record : Table → Type
  | objects => ObjectRecord
  | files => FileRecord
  | altNames => AltNameRecord
  | configs => ConfigRecord
  | blobs => BlobRecord
  | tags => TagRecord
  | taggings => TaggingRecord
  | comments => CommentRecord
  | attributes => AttributeRecord
  | definitions => DefinitionRecord
  | rights => RightRecord
  | users => User
  | groups => GroupRecord
  | members => MemberRecord
  | permissions => PermissionRecord
  | relations => RelationRecord

/-- The cells of a row in the order of the columns. -/
def cells : (t : Table) → t.Record → List Cell
  | objects => ObjectRecord.cells
  | files => FileRecord.cells
  | altNames => AltNameRecord.cells
  | configs => ConfigRecord.cells
  | blobs => BlobRecord.cells
  | tags => TagRecord.cells
  | taggings => TaggingRecord.cells
  | comments => CommentRecord.cells
  | attributes => AttributeRecord.cells
  | definitions => DefinitionRecord.cells
  | rights => RightRecord.cells
  | users => User.cells
  | groups => GroupRecord.cells
  | members => MemberRecord.cells
  | permissions => PermissionRecord.cells
  | relations => RelationRecord.cells

/-- The row of a list of cells, unless one of them has the wrong type. -/
def ofCells? : (t : Table) → List Cell → Option t.Record
  | objects => ObjectRecord.ofCells?
  | files => FileRecord.ofCells?
  | altNames => AltNameRecord.ofCells?
  | configs => ConfigRecord.ofCells?
  | blobs => BlobRecord.ofCells?
  | tags => TagRecord.ofCells?
  | taggings => TaggingRecord.ofCells?
  | comments => CommentRecord.ofCells?
  | attributes => AttributeRecord.ofCells?
  | definitions => DefinitionRecord.ofCells?
  | rights => RightRecord.ofCells?
  | users => User.ofCells?
  | groups => GroupRecord.ofCells?
  | members => MemberRecord.ofCells?
  | permissions => PermissionRecord.ofCells?
  | relations => RelationRecord.ofCells?

/-- The id of a row in a table whose rows have one. -/
def rowId? : (t : Table) → t.Record → Option Int
  | objects, r => some r.id
  | files, r => some r.id
  | configs, r => some r.id
  | blobs, r => some r.id
  | tags, r => some r.id
  | comments, r => some r.id
  | attributes, r => some r.id
  | users, r => some r.id
  | groups, r => some r.id
  | _, _ => none

/-- The value of each key of a row; an empty one may occur more than once. -/
def keys : (t : Table) → t.Record → List (List Cell)
  | objects, r => [[.int r.id], [.text r.dhash]]
  | files, r => [[.int r.id]]
  | altNames, _ => []
  | configs, r => [[.int r.id]]
  | blobs, r => [[.int r.id]]
  | tags, r => [[.int r.id], [.text r.name]]
  | taggings, r => [[.int r.objectId, .int r.tagId]]
  | comments, r => [[.int r.id]]
  | attributes, r => [[.int r.id]]
  | definitions, r => [[.ofOption r.key]]
  | rights, r => [[.text r.key, r.groupId]]
  | users, r => [[.int r.id], [.text r.login]]
  | groups, r => [[.int r.id], [.text r.name]]
  | members, r => [[.int r.userId, .int r.groupId]]
  | permissions, r => [[.int r.objectId, .int r.groupId]]
  | relations, r => [[.int r.parentId, .int r.childId]]

/-- The rows that a row refers to: their tables, and the first key that each of them has. -/
def references : (t : Table) → t.Record → List (Table × Cell)
  | objects, _ => []
  | files, r => [(objects, .int r.id)]
  | altNames, r => [(files, .int r.fileId)]
  | configs, r => [(objects, .int r.id)]
  | blobs, r => [(objects, .int r.id)]
  | tags, _ => []
  | taggings, r => [(objects, .int r.objectId), (tags, .int r.tagId)]
  | comments, r => [(objects, .int r.objectId)]
  | attributes, r => [(objects, .int r.objectId)]
  | definitions, _ => []
  | rights, r => [(definitions, .text r.key)]
  | users, _ => []
  | groups, _ => []
  | members, r => [(users, .int r.userId), (groups, .int r.groupId)]
  | permissions, r => [(objects, .int r.objectId), (groups, .int r.groupId)]
  | relations, r => [(objects, .int r.parentId), (objects, .int r.childId)]

end Table

end SampleSearch
