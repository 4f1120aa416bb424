import SampleSearch.Kind

/-! # Viewers

A search runs on behalf of a user. The viewer is that user with its groups, each of them once, and
the capabilities that come with them.
-/

namespace SampleSearch

inductive Capability
  | manageUsers
  | readingAllAttributes
  | accessAllObjects
  deriving DecidableEq, Repr

namespace Capability

def all : List Capability := [manageUsers, readingAllAttributes, accessAllObjects]

def name : Capability → Text
  | manageUsers => "manage_users".toList
  | readingAllAttributes => "reading_all_attributes".toList
  | accessAllObjects => "access_all_objects".toList

def ofName (name : Text) : Option Capability := all.find? fun c => c.name == name

theorem ofName_name (c : Capability) : ofName c.name = some c := by cases c <;> decide

end Capability

/-- Why an object is shared with a group. -/
inductive ShareReason
  | added
  | shared
  | queried
  | migrated
  deriving DecidableEq, Repr

namespace ShareReason

def all : List ShareReason := [added, shared, queried, migrated]

def text : ShareReason → Text
  | added => "added".toList
  | shared => "shared".toList
  | queried => "queried".toList
  | migrated => "migrated".toList

end ShareReason

structure Group where
  id : Int
  name : Text
  deriving DecidableEq, Repr

structure User where
  id : Int
  login : Text
  deriving DecidableEq, Repr

structure Viewer where
  user : User
  groups : List Group
  capabilities : List Capability
  deriving DecidableEq, Repr

namespace Viewer

def ofUser (user : User) : Viewer := ⟨user, [], []⟩

def login (v : Viewer) : Text := v.user.login

def isMember (v : Viewer) (groupId : Int) : Bool := v.groups.any fun g => g.id == groupId

/-- A group whose id is there already is not added again. -/
def join (v : Viewer) (g : Group) : Viewer :=
  if v.isMember g.id then v else { v with groups := v.groups ++ [g] }

def grant (v : Viewer) (c : Capability) : Viewer :=
  if v.capabilities.contains c then v else { v with capabilities := v.capabilities ++ [c] }

def has (v : Viewer) (c : Capability) : Bool := v.capabilities.contains c

@[simp] theorem isMember_join (v : Viewer) (g : Group) (id : Int) :
    (v.join g).isMember id = (v.isMember id || g.id == id) := by
  unfold join
  split
  · rename_i h
    by_cases hid : g.id = id
    · subst hid; simp [h]
    · simp [hid]
  · simp [isMember]

@[simp] theorem has_join (v : Viewer) (g : Group) (c : Capability) :
    (v.join g).has c = v.has c := by
  unfold join
  split <;> rfl

@[simp] theorem has_grant (v : Viewer) (c d : Capability) :
    (v.grant c).has d = (v.has d || c == d) := by
  unfold grant
  split
  · rename_i h
    by_cases hd : c = d
    · subst hd; simp_all [has]
    · simp [has, hd]
  · by_cases hd : c = d
    · simp [has, hd]
    · have hd' : ¬ d = c := fun h => hd h.symm
      simp [has, hd, hd']

end Viewer

end SampleSearch
