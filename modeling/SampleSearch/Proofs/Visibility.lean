import SampleSearch.Proofs.DistinctKeys
import SampleSearch.Proofs.LeafMeaning

/-!
# Who sees an object

A user sees an object if one of its groups lists the capability for all objects or has a
permission for this one. The viewer that is loaded for a login has exactly the groups of the user
and the capabilities that they list, and its access condition is true of what the user sees.
-/

namespace SampleSearch

def GroupRecord.Lists (g : GroupRecord) (name : Text) : Prop :=
  ∃ names, (Json.read? g.capabilities).bind Json.strings? = some names ∧ name ∈ names

namespace Database

/-- Whether the user with a login sees an object. -/
def Sees (db : Database) (login : Text) (o : ObjectRecord) : Prop :=
  ∃ u ∈ db.rows .users, u.login = login ∧
    ∃ g ∈ db.rows .groups, (∃ m ∈ db.rows .members, m.userId = u.id ∧ m.groupId = g.id) ∧
      (g.Lists "access_all_objects".toList ∨
        ∃ p ∈ db.rows .permissions, p.objectId = o.id ∧ p.groupId = g.id)

theorem isMember_iff {db : Database} {userId groupId : Int} :
    db.isMember userId groupId = true ↔
      ∃ m ∈ db.rows .members, m.userId = userId ∧ m.groupId = groupId := by
  simp [isMember]

theorem mem_groupsOf {db : Database} {userId : Int} {g : GroupRecord} :
    g ∈ db.groupsOf userId ↔
      g ∈ db.rows .groups ∧ ∃ m ∈ db.rows .members, m.userId = userId ∧ m.groupId = g.id := by
  rw [groupsOf, List.mem_filter, isMember_iff]

end Database

namespace Capability

theorem mem_filterMap_ofName {names : List Text} {c : Capability} :
    c ∈ names.filterMap ofName ↔ c.name ∈ names := by
  rw [List.mem_filterMap]
  constructor
  · rintro ⟨name, hname, hc⟩
    have hfound : c.name = name := by simpa using List.find?_some hc
    rw [hfound]
    exact hname
  · intro h
    exact ⟨c.name, h, ofName_name c⟩

end Capability

namespace Viewer

@[simp] theorem isMember_grant (v : Viewer) (c : Capability) (id : Int) :
    (v.grant c).isMember id = v.isMember id := by
  unfold grant
  split <;> rfl

@[simp] theorem user_grant (v : Viewer) (c : Capability) : (v.grant c).user = v.user := by
  unfold grant
  split <;> rfl

@[simp] theorem user_join (v : Viewer) (g : Group) : (v.join g).user = v.user := by
  unfold join
  split <;> rfl

theorem has_foldl_grant (cs : List Capability) (v : Viewer) (d : Capability) :
    (cs.foldl grant v).has d = true ↔ v.has d = true ∨ d ∈ cs := by
  induction cs generalizing v with
  | nil => simp
  | cons c cs ih =>
    rw [List.foldl_cons, ih, has_grant, Bool.or_eq_true, beq_iff_eq, List.mem_cons, or_assoc,
      eq_comm (a := c)]

theorem isMember_foldl_grant (cs : List Capability) (v : Viewer) (id : Int) :
    (cs.foldl grant v).isMember id = v.isMember id := by
  induction cs generalizing v with
  | nil => rfl
  | cons c cs ih => rw [List.foldl_cons, ih, isMember_grant]

theorem user_foldl_grant (cs : List Capability) (v : Viewer) :
    (cs.foldl grant v).user = v.user := by
  induction cs generalizing v with
  | nil => rfl
  | cons c cs ih => rw [List.foldl_cons, ih, user_grant]

end Viewer

namespace Database

open Viewer

theorem enroll_eq_ok {v w : Viewer} {g : GroupRecord} (h : enroll v g = .ok w) :
    w.user = v.user ∧ (∀ id, w.isMember id = true ↔ v.isMember id = true ∨ g.id = id) ∧
      ∀ c : Capability, w.has c = true ↔ v.has c = true ∨ g.Lists c.name := by
  obtain ⟨cs, hcs, h⟩ := bind_eq_ok_iff.1 h
  cases h
  unfold capabilities at hcs
  cases hnames : (Json.read? g.capabilities).bind Json.strings? with
  | none => simp [hnames] at hcs
  | some names =>
    simp only [hnames, Except.ok.injEq] at hcs
    subst hcs
    refine ⟨?_, fun id => ?_, fun c => ?_⟩
    · rw [user_join, user_foldl_grant]
    · rw [isMember_join, isMember_foldl_grant, Bool.or_eq_true, beq_iff_eq]
      rfl
    · rw [has_join, has_foldl_grant, Capability.mem_filterMap_ofName, GroupRecord.Lists]
      simp [hnames]

theorem foldlM_enroll_eq_ok {gs : List GroupRecord} {v w : Viewer}
    (h : gs.foldlM enroll v = .ok w) :
    w.user = v.user ∧
      (∀ id, w.isMember id = true ↔ v.isMember id = true ∨ ∃ g ∈ gs, g.id = id) ∧
      ∀ c : Capability, w.has c = true ↔ v.has c = true ∨ ∃ g ∈ gs, g.Lists c.name := by
  induction gs generalizing v with
  | nil =>
    cases h
    simp
  | cons g gs ih =>
    rw [List.foldlM_cons] at h
    obtain ⟨u, hu, h⟩ := bind_eq_ok_iff.1 h
    obtain ⟨huser, hmember, hhas⟩ := enroll_eq_ok hu
    obtain ⟨huser', hmember', hhas'⟩ := ih h
    refine ⟨huser'.trans huser, fun id => ?_, fun c => ?_⟩
    · rw [hmember' id, hmember id, or_assoc]
      simp
    · rw [hhas' c, hhas c, or_assoc]
      simp

theorem viewer_eq_ok {db : Database} {login : Text} {v : Viewer} (h : db.viewer login = .ok v) :
    ∃ u, db.user? login = some u ∧ v.user = u ∧
      (∀ id, v.isMember id = true ↔ ∃ g ∈ db.groupsOf u.id, g.id = id) ∧
      ∀ c : Capability, v.has c = true ↔ ∃ g ∈ db.groupsOf u.id, g.Lists c.name := by
  obtain ⟨u, hu, h⟩ := bind_eq_ok_iff.1 h
  obtain ⟨huser, hmember, hhas⟩ := foldlM_enroll_eq_ok h
  refine ⟨u, Except.ok.inj (Leaf.required_eq_ok.1 hu), huser, fun id => ?_, fun c => ?_⟩
  · rw [hmember id]
    simp [ofUser, Viewer.isMember]
  · rw [hhas c]
    simp [ofUser, has]

end Database

namespace Viewer

open Condition

/-- The access condition is true of the objects shared with a group of the viewer, or of all. -/
theorem truth_access_eq_yes {db : Database} {v : Viewer} {s : Scope} {id : Int}
    (hs : s .objectId = .int id) :
    v.access.truth db s = .yes ↔
      v.has .accessAllObjects = true ∨
        ∃ p ∈ db.rows .permissions, p.objectId = id ∧ v.isMember p.groupId = true := by
  unfold access accessTo
  by_cases hall : v.has .accessAllObjects = true
  · simp [hall, truth, Truth.ofBool]
  · rw [if_neg hall]
    by_cases hempty : v.groups.isEmpty = true
    · have hnone : v.groups = [] := by simpa using hempty
      simp [hall, truth, Truth.ofBool, isMember, hnone]
    · rw [if_neg hempty, Database.truth_related_eq_yes hs]
      have hinner : ∀ p : PermissionRecord,
          (among (.column .permissionGroup) (v.groups.map fun g => .int g.id)).truth db
            ((RelatedRow.permission p).enter s) = .yes ↔
              v.isMember p.groupId = true := by
        intro p
        have hsome : (v.groups.map fun g => Literal.int g.id).isEmpty = false := by
          simpa using hempty
        rw [truth, amongTruth?, hsome]
        simp only [Bool.false_eq_true, if_false, Operand.value?, Option.map_some,
          Option.getD_some, amongTruth]
        change (if Cell.int p.groupId = .empty then Truth.unknown else _) = _ ↔ _
        rw [if_neg (by simp), Truth.ofBool_eq_yes, List.any_map, isMember, List.any_eq_true,
          List.any_eq_true]
        simp only [Function.comp_apply, Literal.cell,
          Operand.convert_int (c := .permissionGroup) rfl, beq_iff_eq]
        refine exists_congr fun g => and_congr_right fun _ => ?_
        exact (Cell.compare?_int_eq_iff _ _).trans eq_comm
      constructor
      · rintro ⟨row, hrow, howner, htruth⟩
        obtain ⟨p, hp, rfl⟩ := List.mem_map.1 hrow
        right
        exact ⟨p, hp, howner, (hinner p).1 htruth⟩
      · rintro (h | ⟨p, hp, howner, hmember⟩)
        · exact absurd h hall
        · exact ⟨.permission p, List.mem_map_of_mem hp, howner, (hinner p).2 hmember⟩

end Viewer

namespace Database

/-- The access condition of the viewer of a login is true of what the user sees. -/
theorem truth_access_iff_sees {db : Database} (hi : db.isIntact = true) {login : Text}
    {v : Viewer} (hv : db.viewer login = .ok v) (o : ObjectRecord) :
    v.access.truth db (db.scope o) = .yes ↔ db.Sees login o := by
  obtain ⟨u, hu, _, hmember, hhas⟩ := viewer_eq_ok hv
  obtain ⟨humem, hlogin⟩ := (user?_eq_some_iff hi).1 hu
  rw [Viewer.truth_access_eq_yes (db.scope_objectId o), hhas]
  constructor
  · rintro (⟨g, hg, hlists⟩ | ⟨p, hp, howner, hin⟩)
    · obtain ⟨hgroup, hm⟩ := mem_groupsOf.1 hg
      exact ⟨u, humem, hlogin, g, hgroup, hm, .inl hlists⟩
    · obtain ⟨g, hg, hid⟩ := (hmember p.groupId).1 hin
      obtain ⟨hgroup, hm⟩ := mem_groupsOf.1 hg
      exact ⟨u, humem, hlogin, g, hgroup, hm, .inr ⟨p, hp, howner, hid.symm⟩⟩
  · rintro ⟨u', hu', hlogin', g, hgroup, hm, hsees⟩
    have hsame : u' = u := by
      have hfound := (user?_eq_some_iff hi).2 ⟨hu', hlogin'⟩
      rw [hu] at hfound
      exact (Option.some.inj hfound).symm
    subst hsame
    have hg := mem_groupsOf.2 ⟨hgroup, hm⟩
    rcases hsees with hlists | ⟨p, hp, howner, hid⟩
    · left
      exact ⟨g, hg, hlists⟩
    · right
      exact ⟨p, hp, howner, (hmember p.groupId).2 ⟨g, hg, hid.symm⟩⟩

end Database

end SampleSearch
