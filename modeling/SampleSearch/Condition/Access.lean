import SampleSearch.Condition.Basic
import SampleSearch.Viewer

/-! # Access to objects

A viewer sees the objects that are shared with one of its groups, or all of them with the
capability for that.
-/

namespace SampleSearch.Viewer

/-- The condition of the objects that a viewer sees, for the id in a column. -/
def accessTo (v : Viewer) (id : Column) : Condition :=
  if v.has .accessAllObjects then .const true
  else if v.groups.isEmpty then .const false
  else .related .permissions id
    (.among (.column .permissionGroup) (v.groups.map fun g => .int g.id))

def access (v : Viewer) : Condition := v.accessTo .objectId

end SampleSearch.Viewer
