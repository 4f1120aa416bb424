import SampleSearch.Calendar.Moment
import SampleSearch.Json.Value
import SampleSearch.Kind

/-! # Hits

A hit is one object that a search found, with the details of its concrete kind. On a line it shows
its time of upload, its kind, its hash and a short label.
-/

namespace SampleSearch

structure FileDetails where
  fileName : Text
  fileSize : Int
  fileType : Text
  md5 : Text
  sha1 : Text
  sha256 : Text
  sha512 : Text
  crc32 : Text
  ssdeep : Option Text
  deriving DecidableEq, Repr

structure ConfigDetails where
  family : Text
  configType : Text
  document : Json
  deriving Repr

structure BlobDetails where
  blobName : Text
  blobSize : Int
  blobType : Text
  lastSeen : Moment
  deriving DecidableEq, Repr

inductive Details
  | object
  | file (d : FileDetails)
  | config (d : ConfigDetails)
  | blob (d : BlobDetails)
  deriving Repr

structure Hit where
  id : Int
  dhash : Text
  uploadTime : Moment
  details : Details
  deriving Repr

namespace Details

def kind : Details → Kind
  | object => .object
  | file _ => .file
  | config _ => .config
  | blob _ => .blob

def label : Details → Text
  | object => []
  | file d => d.fileName
  | config d => d.family
  | blob d => d.blobName

/-- The type of the object and its further members. -/
def members : Details → List (Text × Json)
  | object => [("type".toList, .ofString "object")]
  | file d =>
    [("type".toList, .ofString "file"), ("file_name".toList, .string d.fileName),
     ("file_size".toList, .int d.fileSize), ("file_type".toList, .string d.fileType),
     ("md5".toList, .string d.md5), ("sha1".toList, .string d.sha1),
     ("sha256".toList, .string d.sha256), ("sha512".toList, .string d.sha512),
     ("crc32".toList, .string d.crc32), ("ssdeep".toList, .ofOption .string d.ssdeep)]
  | config d =>
    [("type".toList, .ofString "static_config"), ("family".toList, .string d.family),
     ("config_type".toList, .string d.configType), ("cfg".toList, d.document)]
  | blob d =>
    [("type".toList, .ofString "text_blob"), ("blob_name".toList, .string d.blobName),
     ("blob_size".toList, .int d.blobSize), ("blob_type".toList, .string d.blobType),
     ("last_seen".toList, .string d.lastSeen.resultText)]

end Details

namespace Hit

def kind (h : Hit) : Kind := h.details.kind

def label (h : Hit) : Text := h.details.label

def json (h : Hit) : Json :=
  .object ([("id".toList, .int h.id), ("dhash".toList, .string h.dhash),
    ("upload_time".toList, .string h.uploadTime.resultText)] ++ h.details.members)

/-- Width of the column of kinds. -/
def kindWidth : Nat := 6

def line (h : Hit) : Text :=
  h.uploadTime.text ++ "  ".toList ++ h.kind.text ++
    List.replicate (kindWidth - h.kind.text.length) ' ' ++ "  ".toList ++ h.dhash ++
    (if h.label.isEmpty then [] else "  ".toList ++ h.label)

end Hit

end SampleSearch
