import SampleSearch.Calendar.Moment
import SampleSearch.Error
import SampleSearch.Viewer

/-! # Directories

While a query is compiled, groups, users, attributes and objects are looked up by name in a
directory. A directory may find nothing, and a look-up may fail.
-/

namespace SampleSearch

structure AttributePermission where
  groupId : Int
  canRead : Bool
  canSet : Bool
  deriving DecidableEq, Repr

structure AttributeDefinition where
  key : Text
  label : Text
  urlTemplate : Option Text
  hidden : Bool
  permissions : List AttributePermission
  deriving DecidableEq, Repr

namespace AttributeDefinition

/-- Whether a viewer may read the attribute: through one of its groups or by capability. -/
def readableBy (d : AttributeDefinition) (v : Viewer) : Bool :=
  v.has .readingAllAttributes || d.permissions.any fun p => p.canRead && v.isMember p.groupId

end AttributeDefinition

structure Position where
  id : Int
  uploadTime : Moment
  deriving DecidableEq, Repr

structure Directory where
  group? : Text → Except SearchError (Option Group)
  user? : Text → Except SearchError (Option User)
  attribute? : Text → Except SearchError (Option AttributeDefinition)
  /-- The position of an object that the viewer sees. -/
  position? : Text → Viewer → Except SearchError (Option Position)

namespace Directory

def required {α : Type} (missing : SearchError) (found : Except SearchError (Option α)) :
    Except SearchError α :=
  match found with
  | .error e => .error e
  | .ok none => .error missing
  | .ok (some a) => .ok a

end Directory

end SampleSearch
