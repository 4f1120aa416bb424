import SampleSearch.Compile.Directory
import SampleSearch.Condition.Access
import SampleSearch.Json.Reader
import SampleSearch.Scan.Matching

/-! # Look-ups in a database

The viewer of a search is the user with a login, its groups in the order of their ids and the
capabilities that the groups list by name. While a query is compiled, a database is the directory
of its groups, users, attributes and objects.
-/

namespace SampleSearch

namespace Database

def user? (db : Database) (login : Text) : Option User :=
  (db.rows .users).find? fun u => u.login == login

def group? (db : Database) (name : Text) : Option Group :=
  ((db.rows .groups).find? fun g => g.name == name).map GroupRecord.group

def isMember (db : Database) (userId groupId : Int) : Bool :=
  (db.rows .members).any fun m => m.userId == userId && m.groupId == groupId

def groupsOf (db : Database) (userId : Int) : List GroupRecord :=
  (db.rows .groups).filter fun g => db.isMember userId g.id

/-- The capabilities in a list of names; names of no capability are passed over. -/
def capabilities (t : Text) : Except SearchError (List Capability) :=
  match (Json.read? t).bind Json.strings? with
  | none => .error .malformedCapabilities
  | some names => .ok (names.filterMap Capability.ofName)

def enroll (v : Viewer) (g : GroupRecord) : Except SearchError Viewer := do
  let cs ← capabilities g.capabilities
  .ok ((cs.foldl Viewer.grant v).join g.group)

def viewer (db : Database) (login : Text) : Except SearchError Viewer := do
  let u ← Directory.required (.noSuchUser login) (.ok (db.user? login))
  (db.groupsOf u.id).foldlM enroll (.ofUser u)

def wrongType {α : Type} : Except SearchError α := storageFailure "a cell is of the wrong type"

/-- A number as a truth value. -/
def flag : Cell → Except SearchError Bool
  | .int n => .ok (n != 0)
  | _ => wrongType

def number : Cell → Except SearchError Int
  | .int n => .ok n
  | _ => wrongType

def attributePermission (r : RightRecord) : Except SearchError AttributePermission := do
  .ok ⟨← number r.groupId, ← flag r.canRead, ← flag r.canSet⟩

def attribute? (db : Database) (key : Text) : Except SearchError (Option AttributeDefinition) :=
  match (db.rows .definitions).find? fun r => r.key == some key with
  | none => .ok none
  | some r => do
    let hidden ← flag r.hidden
    let rights := (db.rows .rights).filter fun right => right.key == key
    .ok (some ⟨key, r.label, r.urlTemplate, hidden, ← rights.mapM attributePermission⟩)

def moment (t : Text) : Except SearchError Moment :=
  match Moment.stored? t with
  | some m => .ok m
  | none => storageFailure "a stored moment is malformed"

/-- The condition of the object with a hash that a viewer sees. -/
def positionCondition (dhash : Text) (v : Viewer) : Condition :=
  .all [.equals (.column .objectDhash) (.text dhash), v.access]

def position? (db : Database) (dhash : Text) (v : Viewer) :
    Except SearchError (Option Position) :=
  match db.satisfying (positionCondition dhash v) with
  | [] => .ok none
  | o :: _ => do .ok (some ⟨o.id, ← moment o.uploadTime⟩)

def directory (db : Database) : Directory where
  group? name := .ok (db.group? name)
  user? login := .ok (db.user? login)
  attribute? := db.attribute?
  position? := db.position?

end Database

end SampleSearch
