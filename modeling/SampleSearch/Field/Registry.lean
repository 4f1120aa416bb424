import SampleSearch.Condition.Column
import SampleSearch.Kind

/-! # The fields of a query

The registry lists the fields of every kind and how each of them is compared. Its tables are
searched in order. Within a table a field of the kind itself comes before one of the generic kind,
which every kind inherits.
-/

namespace SampleSearch

/-- How the values of a field are compared. -/
inductive Strategy
  | text (c : Column)
  | integer (c : Column)
  | moment (c : Column)
  | related (r : Relation) (c : Column)
  | document (c : Column)
  /-- A value inside an attribute that has a given key. -/
  | keyed
  | sharedWith
  | uploadedBy
  deriving DecidableEq, Repr

namespace Strategy

def takesSegments : Strategy → Bool
  | document _ => true
  | keyed => true
  | _ => false

end Strategy

structure FieldEntry where
  kind : Kind
  name : Text
  strategy : Strategy
  deriving DecidableEq, Repr

namespace FieldEntry

def documentFields : List FieldEntry :=
  [⟨.config, "cfg".toList, .document .configDocument⟩]

def relatedFields : List FieldEntry :=
  [⟨.object, "tag".toList, .related .tags .tagName⟩,
   ⟨.object, "comment".toList, .related .comments .commentText⟩,
   ⟨.file, "alt_name".toList, .related .altNames .altNameText⟩]

def keyedFields : List FieldEntry :=
  [⟨.object, "meta".toList, .keyed⟩, ⟨.object, "attribute".toList, .keyed⟩]

def sharingFields : List FieldEntry :=
  [⟨.object, "shared".toList, .sharedWith⟩, ⟨.object, "uploader".toList, .uploadedBy⟩]

def plainFields : List FieldEntry :=
  [⟨.object, "dhash".toList, .text .objectDhash⟩,
   ⟨.object, "upload_time".toList, .moment .objectUploadTime⟩,
   ⟨.file, "name".toList, .text .fileName⟩,
   ⟨.file, "size".toList, .integer .fileSize⟩,
   ⟨.file, "type".toList, .text .fileType⟩,
   ⟨.file, "md5".toList, .text .fileMd5⟩,
   ⟨.file, "sha1".toList, .text .fileSha1⟩,
   ⟨.file, "sha256".toList, .text .fileSha256⟩,
   ⟨.file, "sha512".toList, .text .fileSha512⟩,
   ⟨.file, "crc32".toList, .text .fileCrc32⟩,
   ⟨.file, "ssdeep".toList, .text .fileSsdeep⟩,
   ⟨.config, "family".toList, .text .configFamily⟩,
   ⟨.config, "type".toList, .text .configType⟩,
   ⟨.blob, "name".toList, .text .blobName⟩,
   ⟨.blob, "size".toList, .integer .blobSize⟩,
   ⟨.blob, "type".toList, .text .blobType⟩,
   ⟨.blob, "content".toList, .text .blobContent⟩,
   ⟨.blob, "first_seen".toList, .moment .objectUploadTime⟩,
   ⟨.blob, "last_seen".toList, .moment .blobLastSeen⟩]

def tables : List (List FieldEntry) :=
  [documentFields, relatedFields, keyedFields, sharingFields, plainFields]

def findIn (table : List FieldEntry) (kind : Kind) (name : Text) : Option FieldEntry :=
  table.find? fun e => e.kind == kind && e.name == name

/-- The field of a kind, its own or an inherited one. -/
def find? (kind : Kind) (name : Text) : Option FieldEntry :=
  tables.findSome? fun table => findIn table kind name <|> findIn table .object name

end FieldEntry

end SampleSearch
