import SampleSearch.Compile.Plan
import SampleSearch.Sql.Fragment

/-! # Statements of a search

The objects of a plan are selected with the rows of their concrete kind beside them, in the order
of the plan and up to its limit. They are counted by the same condition without order and limit.
-/

namespace SampleSearch

namespace Fragment

def selectedColumns : Text :=
  ("o.id, o.dhash, o.type, o.upload_time,\n" ++
   "       f.file_name, f.file_size, f.file_type, f.md5, f.sha1, f.sha256, f.sha512, " ++
   "f.crc32, f.ssdeep,\n" ++
   "       c.family, c.config_type, c.cfg,\n" ++
   "       b.blob_name, b.blob_size, b.blob_type, b.last_seen").toList

def objectRows : Text :=
  ("object o\n" ++
   "LEFT JOIN file f ON f.id = o.id\n" ++
   "LEFT JOIN static_config c ON c.id = o.id\n" ++
   "LEFT JOIN text_blob b ON b.id = o.id").toList

def orderText : SortOrder → Text
  | .newest => "o.upload_time DESC, o.id DESC".toList
  | .oldest => "o.upload_time ASC, o.id ASC".toList

/-- The limit as a signed 64-bit number. -/
def limitParameter (limit : Nat) : Parameter :=
  .int (if limit ≤ Text.maxSigned64 then limit else (limit : Int) - 0x10000000000000000)

def filtered (head : Text) (c : Condition) : Fragment :=
  plain (head ++ "\nFROM ".toList ++ objectRows ++ "\nWHERE ".toList) ++ ofCondition c

def selection (p : Plan) : Fragment :=
  filtered ("SELECT DISTINCT ".toList ++ selectedColumns) p.condition ++
    plain ("\nORDER BY ".toList ++ orderText p.sort ++ "\nLIMIT ".toList) ++
    placeholder (limitParameter p.limit)

def counting (p : Plan) : Fragment := filtered "SELECT COUNT(*) ".toList p.condition

/-- Finds the position of the object with a hash among those that the viewer sees. -/
def positionLookup (dhash : Text) (v : Viewer) : Fragment :=
  plain "SELECT o.id, o.upload_time FROM object o WHERE o.dhash = ".toList ++
    placeholder (.text dhash) ++ plain " AND ".toList ++ ofCondition v.access

end Fragment

end SampleSearch
