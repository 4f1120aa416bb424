import SampleSearch.Proofs.CourseConditions
import SampleSearch.Proofs.HiddenEntities
import SampleSearch.Proofs.SearchExactness

/-!
# Objects that a user does not see

Two databases show a user the same if they agree on users, groups and rights and on everything
about the objects that the user sees. The objects that the user does not see may be others. A search
whose patterns and paths are within the limits of the database then gives the same answer or the
same error in both.
-/

namespace SampleSearch

namespace Database

/-- Whether two databases hold the same about the object with an id. -/
structure SameAbout (db₁ db₂ : Database) (id : Int) : Prop where
  files : ∀ r : FileRecord, r.id = id → (r ∈ db₁.rows .files ↔ r ∈ db₂.rows .files)
  configs : ∀ r : ConfigRecord, r.id = id → (r ∈ db₁.rows .configs ↔ r ∈ db₂.rows .configs)
  blobs : ∀ r : BlobRecord, r.id = id → (r ∈ db₁.rows .blobs ↔ r ∈ db₂.rows .blobs)
  covers : db₁.Covers db₂ id
  covered : db₂.Covers db₁ id

/-- Whether two databases show the user with a login the same. -/
structure ShowsSame (login : Text) (db₁ db₂ : Database) : Prop where
  users : db₁.rows .users = db₂.rows .users
  groups : db₁.rows .groups = db₂.rows .groups
  members : ∀ m, m ∈ db₁.rows .members ↔ m ∈ db₂.rows .members
  definitions : ∀ r, r ∈ db₁.rows .definitions ↔ r ∈ db₂.rows .definitions
  rights : ∀ r, r ∈ db₁.rows .rights ↔ r ∈ db₂.rows .rights
  objects : ∀ o, (o ∈ db₁.rows .objects ∧ db₁.Sees login o) ↔
    (o ∈ db₂.rows .objects ∧ db₂.Sees login o)
  about : ∀ o ∈ db₁.rows .objects, db₁.Sees login o → db₁.SameAbout db₂ o.id

variable {db₁ db₂ : Database} {login text : Text} {o : SearchOptions}

theorem SameAbout.symm {id : Int} (h : db₁.SameAbout db₂ id) : db₂.SameAbout db₁ id where
  files r hr := (h.files r hr).symm
  configs r hr := (h.configs r hr).symm
  blobs r hr := (h.blobs r hr).symm
  covers := h.covered
  covered := h.covers

theorem ShowsSame.symm (h : ShowsSame login db₁ db₂) : ShowsSame login db₂ db₁ where
  users := h.users.symm
  groups := h.groups.symm
  members m := (h.members m).symm
  definitions r := (h.definitions r).symm
  rights r := (h.rights r).symm
  objects r := (h.objects r).symm
  about r hr hs := by
    obtain ⟨hr', hs'⟩ := (h.objects r).2 ⟨hr, hs⟩
    exact (h.about r hr' hs').symm

section SeenObjects

variable {r : ObjectRecord} (hi₁ : db₁.isIntact = true) (hi₂ : db₂.isIntact = true)
  (h : db₁.SameAbout db₂ r.id)

include hi₁ hi₂ h

theorem SameAbout.file?_eq : db₁.file? r.id = db₂.file? r.id := by
  apply Option.ext
  intro f
  rw [file?_eq_some_iff hi₁, file?_eq_some_iff hi₂]
  exact and_congr_left (h.files f)

theorem SameAbout.config?_eq : db₁.config? r.id = db₂.config? r.id := by
  apply Option.ext
  intro c
  rw [config?_eq_some_iff hi₁, config?_eq_some_iff hi₂]
  exact and_congr_left (h.configs c)

theorem SameAbout.blob?_eq : db₁.blob? r.id = db₂.blob? r.id := by
  apply Option.ext
  intro b
  rw [blob?_eq_some_iff hi₁, blob?_eq_some_iff hi₂]
  exact and_congr_left (h.blobs b)

theorem SameAbout.scope_eq : db₁.scope r = db₂.scope r := by
  funext c
  unfold scope
  rw [h.file?_eq hi₁ hi₂, h.config?_eq hi₁ hi₂, h.blob?_eq hi₁ hi₂]

theorem SameAbout.hasRowOf_eq (s : Source) : db₁.hasRowOf s r.id = db₂.hasRowOf s r.id := by
  unfold hasRowOf
  rw [h.file?_eq hi₁ hi₂, h.config?_eq hi₁ hi₂, h.blob?_eq hi₁ hi₂]

theorem SameAbout.hit_eq : db₁.hit r = db₂.hit r := by
  have hdetails : db₁.details r = db₂.details r := by
    unfold details fileDetails configDetails blobDetails
    rw [h.file?_eq hi₁ hi₂, h.config?_eq hi₁ hi₂, h.blob?_eq hi₁ hi₂]
  unfold hit
  rw [hdetails]

theorem SameAbout.truth_eq {c : Condition} (hc : c.IsRegular) :
    c.truth db₁ (db₁.scope r) = c.truth db₂ (db₂.scope r) := by
  rw [← h.scope_eq hi₁ hi₂]
  exact Condition.truth_congr h.covers h.covered (db₁.scope_objectId r) hc

end SeenObjects

mutual

theorem SameAbout.isPassed_eq {r : ObjectRecord} (hi₁ : db₁.isIntact = true)
    (hi₂ : db₂.isIntact = true) (h : db₁.SameAbout db₂ r.id) {t : Test}
    (ht : t.Obeys Condition.IsRegular) : t.isPassed db₁ r = t.isPassed db₂ r := by
  cases t with
  | holds c settles => simp only [Test.isPassed, h.truth_eq hi₁ hi₂ (show c.IsRegular from ht)]
  | joined s => simp only [Test.isPassed, h.hasRowOf_eq hi₁ hi₂]
  | starts octets => simp only [Test.isPassed]
  | someOf courses =>
    have hcs := Test.eachObey_iff.1 ht
    simp only [Test.isPassed, SameAbout.somePassed_eq hi₁ hi₂ h hcs]

theorem SameAbout.allPassed_eq {r : ObjectRecord} (hi₁ : db₁.isIntact = true)
    (hi₂ : db₂.isIntact = true) (h : db₁.SameAbout db₂ r.id) {ts : List Test}
    (hts : ∀ t ∈ ts, t.Obeys Condition.IsRegular) :
    Test.allPassed db₁ r ts = Test.allPassed db₂ r ts := by
  cases ts with
  | nil => rfl
  | cons t ts =>
    have ht := hts t (by simp)
    have hrest : ∀ u ∈ ts, u.Obeys Condition.IsRegular :=
      fun u hu => hts u (List.mem_cons_of_mem t hu)
    simp only [Test.allPassed, SameAbout.isPassed_eq hi₁ hi₂ h ht,
      SameAbout.allPassed_eq hi₁ hi₂ h hrest]

theorem SameAbout.somePassed_eq {r : ObjectRecord} (hi₁ : db₁.isIntact = true)
    (hi₂ : db₂.isIntact = true) (h : db₁.SameAbout db₂ r.id) {courses : List (List Test)}
    (hcs : ∀ ts ∈ courses, Test.AllObey Condition.IsRegular ts) :
    Test.somePassed db₁ r courses = Test.somePassed db₂ r courses := by
  cases courses with
  | nil => rfl
  | cons ts rest =>
    have hts := Test.allObey_iff.1 (hcs ts (by simp))
    have hrest : ∀ us ∈ rest, Test.AllObey Condition.IsRegular us :=
      fun us hu => hcs us (List.mem_cons_of_mem ts hu)
    simp only [Test.somePassed, SameAbout.allPassed_eq hi₁ hi₂ h hts,
      SameAbout.somePassed_eq hi₁ hi₂ h hrest]

end

theorem SameAbout.isMatch_eq {r : ObjectRecord} (hi₁ : db₁.isIntact = true)
    (hi₂ : db₂.isIntact = true) (h : db₁.SameAbout db₂ r.id) {c : Condition} (hc : c.IsRegular)
    (purpose : Purpose) : db₁.isMatch c purpose r = db₂.isMatch c purpose r := by
  have htruth := h.truth_eq hi₁ hi₂ hc
  have hpassed := h.allPassed_eq hi₁ hi₂ (Condition.obeys_of_mem_course hc purpose)
  unfold isMatch
  rw [htruth, hpassed]

theorem viewer_eq_of_showsSame (h : ShowsSame login db₁ db₂) :
    db₁.viewer login = db₂.viewer login := by
  have hgroups : ∀ id, db₁.groupsOf id = db₂.groupsOf id := by
    intro id
    unfold groupsOf
    rw [h.groups]
    apply List.filter_congr
    intro g _
    rw [Bool.eq_iff_iff, isMember_iff, isMember_iff]
    simp only [h.members]
  unfold viewer user?
  rw [h.users]
  simp only [hgroups]

theorem number_cases (c : Cell) : number c = wrongType ∨ ∃ n, number c = .ok n := by
  cases c <;> simp [number]

theorem flag_cases (c : Cell) : flag c = wrongType ∨ ∃ b, flag c = .ok b := by
  cases c <;> simp [flag]

theorem attributePermission_cases (r : RightRecord) :
    attributePermission r = wrongType ∨ ∃ p, attributePermission r = .ok p := by
  unfold attributePermission
  rcases number_cases r.groupId with hid | ⟨id, hid⟩
  · left
    rw [hid]
    rfl
  · rcases flag_cases r.canRead with hread | ⟨canRead, hread⟩
    · left
      rw [hid, hread]
      rfl
    · rcases flag_cases r.canSet with hset | ⟨canSet, hset⟩
      · left
        rw [hid, hread, hset]
        rfl
      · right
        rw [hid, hread, hset]
        exact ⟨_, rfl⟩

theorem mapM_attributePermission_of_fails {rs : List RightRecord} {r : RightRecord} (hr : r ∈ rs)
    (h : attributePermission r = wrongType) : rs.mapM attributePermission = wrongType := by
  induction rs with
  | nil => cases hr
  | cons s rs ih =>
    rw [List.mapM_cons]
    rcases attributePermission_cases s with hs | ⟨p, hs⟩
    · rw [hs]
      rfl
    · rcases List.mem_cons.1 hr with rfl | hr
      · rw [h]
        rfl
      · rw [hs, ih hr]
        rfl

theorem mapM_attributePermission_of_not_fails {rs : List RightRecord}
    (h : ¬ ∃ r ∈ rs, attributePermission r = wrongType) :
    ∃ ps, rs.mapM attributePermission = .ok ps ∧
      ∀ p, p ∈ ps ↔ ∃ r ∈ rs, attributePermission r = .ok p := by
  induction rs with
  | nil => exact ⟨[], rfl, by simp⟩
  | cons r rs ih =>
    have hrest : ¬ ∃ s ∈ rs, attributePermission s = wrongType := by
      rintro ⟨s, hs, hfail⟩
      exact h ⟨s, List.mem_cons_of_mem r hs, hfail⟩
    obtain ⟨ps, hps, hmem⟩ := ih hrest
    rcases attributePermission_cases r with hr | ⟨p, hr⟩
    · exact absurd ⟨r, by simp, hr⟩ h
    · rw [List.mapM_cons, hr, hps]
      refine ⟨p :: ps, rfl, fun q => ?_⟩
      simp [hmem, hr, eq_comm]

/-- What the compiler asks about an attribute is the same, since rights only count as a set. -/
theorem readFlag_eq_of_showsSame (hi₁ : db₁.isIntact = true) (hi₂ : db₂.isIntact = true)
    (h : ShowsSame login db₁ db₂) (v : Viewer) (key : Text) :
    Leaf.readFlag db₁.directory v key = Leaf.readFlag db₂.directory v key := by
  have hfound : (db₁.rows .definitions).find? (fun r => r.key == some key) =
      (db₂.rows .definitions).find? fun r => r.key == some key := by
    have hshare : ∀ r s : DefinitionRecord, (r.key == some key) = true →
        (s.key == some key) = true → sharesKey .definitions r s = true := by
      intro r s hr hs
      rw [beq_iff_eq] at hr hs
      simp [sharesKey, Table.keys, hr, hs, Cell.ofOption]
    apply Option.ext
    intro r
    rw [find?_eq_some_iff hi₁ (t := .definitions) hshare,
      find?_eq_some_iff hi₂ (t := .definitions) hshare, h.definitions]
  have hrights : ∀ r, r ∈ (db₁.rows .rights).filter (fun right => right.key == key) ↔
      r ∈ (db₂.rows .rights).filter fun right => right.key == key := by
    intro r
    rw [List.mem_filter, List.mem_filter, h.rights]
  unfold Leaf.readFlag
  simp only [directory, attribute?, hfound]
  cases (db₂.rows .definitions).find? fun r => r.key == some key with
  | none => rfl
  | some r =>
    simp only
    cases flag r.hidden with
    | error e => rfl
    | ok hidden =>
      by_cases hfail : ∃ s ∈ (db₁.rows .rights).filter (fun right => right.key == key),
          attributePermission s = wrongType
      · obtain ⟨s, hs, hwrong⟩ := hfail
        rw [mapM_attributePermission_of_fails hs hwrong,
          mapM_attributePermission_of_fails ((hrights s).1 hs) hwrong]
      · have hfail' : ¬ ∃ s ∈ (db₂.rows .rights).filter (fun right => right.key == key),
            attributePermission s = wrongType := by
          simp only [← hrights]
          exact hfail
        obtain ⟨ps, hps, hmem⟩ := mapM_attributePermission_of_not_fails hfail
        obtain ⟨qs, hqs, hmem'⟩ := mapM_attributePermission_of_not_fails hfail'
        have hany : (ps.any fun p => p.canRead && v.isMember p.groupId) =
            qs.any fun p => p.canRead && v.isMember p.groupId := by
          rw [Bool.eq_iff_iff, List.any_eq_true, List.any_eq_true]
          simp only [hmem, hmem', hrights]
        rw [hps, hqs]
        simp only [bind, Except.bind, Directory.required, AttributeDefinition.readableBy, hany]
        rfl

theorem head?_satisfying_position_iff {dhash : Text} {v : Viewer} {db : Database}
    (hi : db.isIntact = true) {r : ObjectRecord} :
    (db.satisfying (positionCondition dhash v)).head? = some r ↔
      r ∈ db.rows .objects ∧ r.dhash = dhash ∧ v.access.truth db (db.scope r) = .yes := by
  have hmem : ∀ s, s ∈ db.satisfying (positionCondition dhash v) ↔
      s ∈ db.rows .objects ∧ s.dhash = dhash ∧ v.access.truth db (db.scope s) = .yes := by
    intro s
    rw [mem_satisfying, truth_positionCondition]
  constructor
  · intro h
    exact (hmem r).1 (List.mem_of_head? h)
  · intro h
    cases hs : db.satisfying (positionCondition dhash v) with
    | nil =>
      have hr := (hmem r).2 h
      rw [hs] at hr
      cases hr
    | cons s rest =>
      obtain ⟨hs', hhash, _⟩ := (hmem s).1 (by simp [hs])
      rw [List.head?_cons, object_eq_of_dhash hi hs' h.1 (hhash.trans h.2.1.symm)]

theorem position?_eq_of_showsSame (hi₁ : db₁.isIntact = true) (hi₂ : db₂.isIntact = true)
    (h : ShowsSame login db₁ db₂) {v : Viewer} (hv : db₁.viewer login = .ok v) (dhash : Text) :
    db₁.position? dhash v = db₂.position? dhash v := by
  have hv' : db₂.viewer login = .ok v := by rw [← viewer_eq_of_showsSame h, hv]
  have hhead : (db₁.satisfying (positionCondition dhash v)).head? =
      (db₂.satisfying (positionCondition dhash v)).head? := by
    apply Option.ext
    intro r
    rw [head?_satisfying_position_iff hi₁, head?_satisfying_position_iff hi₂,
      truth_access_iff_sees hi₁ hv,
      truth_access_iff_sees hi₂ hv', and_left_comm, and_left_comm (b := r.dhash = dhash), h.objects]
  have heq : ∀ db : Database, db.position? dhash v =
      match (db.satisfying (positionCondition dhash v)).head? with
      | none => .ok none
      | some r => moment r.uploadTime >>= fun m => .ok (some ⟨r.id, m⟩) := by
    intro db
    unfold position?
    cases db.satisfying (positionCondition dhash v) <;> rfl
  rw [heq, heq, hhead]

/-- A query is compiled to the same plan, or refused with the same error. -/
theorem plan_eq_of_showsSame (hi₁ : db₁.isIntact = true) (hi₂ : db₂.isIntact = true)
    (h : ShowsSame login db₁ db₂) : db₁.plan login o text = db₂.plan login o text := by
  unfold plan
  rw [← viewer_eq_of_showsSame h]
  cases hv : db₁.viewer login with
  | error e => rfl
  | ok v =>
    apply Plan.compile_congr
    exact {
      groups := fun name => by simp only [directory, group?, h.groups]
      users := fun login' _ => by simp only [directory, user?, h.users]
      flags := readFlag_eq_of_showsSame hi₁ hi₂ h v
      positions := position?_eq_of_showsSame hi₁ hi₂ h hv }

/-- What the condition of a plan is true of is seen. -/
theorem sees_of_truth {db : Database} (hi : db.isIntact = true) {p : Plan}
    (hp : db.plan login o text = .ok p) {r : ObjectRecord}
    (htruth : p.condition.truth db (db.scope r) = .yes) : db.Sees login r := by
  obtain ⟨v, hv, hcompile⟩ := plan_eq_ok hp
  obtain ⟨_, _, _, _, _, _, _, rfl⟩ := Plan.compile_eq_ok hcompile
  rw [Condition.truth_all, Condition.truthOfAll_eq_yes] at htruth
  exact (truth_access_iff_sees hi hv r).1 (htruth v.access (by simp))

/-- Objects with different ids are in an order that does not depend on how they are listed. -/
theorem sorted_eq_of_mem_iff (p : Plan) {os ps : List ObjectRecord}
    (ho : os.Pairwise fun a b => a.id ≠ b.id) (hp : ps.Pairwise fun a b => a.id ≠ b.id)
    (h : ∀ r, r ∈ os ↔ r ∈ ps) : sorted p os = sorted p ps := by
  refine SortOrder.eq_of_pairwise_precedes (SortOrder.pairwise_precedes_mergeSort p.sort ho)
    (SortOrder.pairwise_precedes_mergeSort p.sort hp) fun r => ?_
  exact (mem_sorted (p := p)).trans ((h r).trans mem_sorted.symm)

section Matches

variable (hi₁ : db₁.isIntact = true) (hi₂ : db₂.isIntact = true) (h : ShowsSame login db₁ db₂)
  {p : Plan} (hp : db₁.plan login o text = .ok p)

include hi₁ hi₂ h hp

/-- What matches in one database is seen, and it matches in the other one. -/
theorem isMatch_of_showsSame {purpose : Purpose} {r : ObjectRecord} (hr : r ∈ db₁.rows .objects)
    (hmatch : db₁.isMatch p.condition purpose r = true) :
    db₁.Sees login r ∧ r ∈ db₂.rows .objects ∧ db₂.isMatch p.condition purpose r = true := by
  have hregular : p.condition.IsRegular := by
    obtain ⟨v, _, hcompile⟩ := plan_eq_ok hp
    exact Plan.isRegular_of_compile hcompile
  have htruth : p.condition.truth db₁ (db₁.scope r) = .yes := by
    rw [isMatch, Bool.and_eq_true, beq_iff_eq] at hmatch
    exact hmatch.1
  have hsees := sees_of_truth hi₁ hp htruth
  refine ⟨hsees, ((h.objects r).1 ⟨hr, hsees⟩).1, ?_⟩
  rw [← (h.about r hr hsees).isMatch_eq hi₁ hi₂ hregular]
  exact hmatch

theorem mem_matches_iff (purpose : Purpose) (r : ObjectRecord) :
    r ∈ (db₁.rows .objects).filter (db₁.isMatch p.condition purpose) ↔
      r ∈ (db₂.rows .objects).filter (db₂.isMatch p.condition purpose) := by
  have hp' : db₂.plan login o text = .ok p := by rw [← plan_eq_of_showsSame hi₁ hi₂ h, hp]
  rw [List.mem_filter, List.mem_filter]
  constructor
  · rintro ⟨hr, hmatch⟩
    exact (isMatch_of_showsSame hi₁ hi₂ h hp hr hmatch).2
  · rintro ⟨hr, hmatch⟩
    exact (isMatch_of_showsSame hi₂ hi₁ h.symm hp' hr hmatch).2

theorem page_matches_eq (purpose : Purpose) :
    page p ((db₁.rows .objects).filter (db₁.isMatch p.condition purpose)) =
      page p ((db₂.rows .objects).filter (db₂.isMatch p.condition purpose)) := by
  have hsorted := sorted_eq_of_mem_iff p ((pairwise_ids hi₁).filter _) ((pairwise_ids hi₂).filter _)
    (mem_matches_iff hi₁ hi₂ h hp purpose)
  rw [page, page, hsorted]

theorem length_matches_eq (purpose : Purpose) :
    ((db₁.rows .objects).filter (db₁.isMatch p.condition purpose)).length =
      ((db₂.rows .objects).filter (db₂.isMatch p.condition purpose)).length := by
  apply List.Perm.length_eq
  rw [List.perm_ext_iff_of_nodup ((nodup_objects hi₁).filter _) ((nodup_objects hi₂).filter _)]
  exact mem_matches_iff hi₁ hi₂ h hp purpose

theorem mapM_hit_eq (purpose : Purpose) :
    (page p ((db₁.rows .objects).filter (db₁.isMatch p.condition purpose))).mapM db₁.hit =
      (page p ((db₂.rows .objects).filter (db₂.isMatch p.condition purpose))).mapM db₂.hit := by
  rw [← page_matches_eq hi₁ hi₂ h hp]
  apply mapM_congr
  intro r hr
  obtain ⟨hmem, hmatch⟩ := List.mem_filter.1 (List.mem_mergeSort.1 (List.mem_of_mem_take hr))
  obtain ⟨hsees, _⟩ := isMatch_of_showsSame hi₁ hi₂ h hp hmem hmatch
  exact (h.about r hmem hsees).hit_eq hi₁ hi₂

end Matches

/-- A search tells nothing about objects that the user does not see: a database with others, or
without them, gives the same answer or the same error. -/
theorem search_eq_of_showsSame (hi₁ : db₁.isIntact = true) (hi₂ : db₂.isIntact = true)
    (hd₁ : db₁.HoldsDocuments) (hd₂ : db₂.HoldsDocuments) (h : ShowsSame login db₁ db₂)
    (hm : ∀ p, db₁.plan login o text = .ok p → p.condition.isModest = true) :
    db₁.search login o text = db₂.search login o text := by
  unfold search
  rw [← plan_eq_of_showsSame hi₁ hi₂ h]
  cases hp : db₁.plan login o text with
  | error e => simp only [bind, Except.bind]
  | ok p =>
    obtain ⟨v, _, hcompile⟩ := plan_eq_ok hp
    have hu₁ := isUntroubled_of_compile hd₁ hcompile (hm p hp)
    have hu₂ := isUntroubled_of_compile hd₂ hcompile (hm p hp)
    have hcount : db₁.count p = db₂.count p := by
      rw [count, count, matching, matching, matching?_of_isUntroubled hu₁,
        matching?_of_isUntroubled hu₂]
      simp only [bind, Except.bind, length_matches_eq hi₁ hi₂ h hp]
    have hhits : db₁.hits p = db₂.hits p := by
      rw [Database.hits, Database.hits, matching, matching, matching?_of_isUntroubled hu₁,
        matching?_of_isUntroubled hu₂]
      simp only [bind, Except.bind, mapM_hit_eq hi₁ hi₂ h hp]
    simp only [bind, Except.bind, hcount, hhits]

/-- Databases that differ only in objects that are not seen and in their attributes. -/
theorem ShowsSame.of_rows
    (hrows : ∀ t, t ≠ .objects → t ≠ .attributes → db₁.rows t = db₂.rows t)
    (hobjects : ∀ r, db₁.Sees login r → (r ∈ db₁.rows .objects ↔ r ∈ db₂.rows .objects))
    (hattributes : ∀ r a, db₁.Sees login r → a.objectId = r.id →
      (a ∈ db₁.rows .attributes ↔ a ∈ db₂.rows .attributes)) :
    ShowsSame login db₁ db₂ where
  users := hrows .users (by decide) (by decide)
  groups := hrows .groups (by decide) (by decide)
  members m := by rw [hrows .members (by decide) (by decide)]
  definitions r := by rw [hrows .definitions (by decide) (by decide)]
  rights r := by rw [hrows .rights (by decide) (by decide)]
  objects r := by
    have hsees : db₁.Sees login r ↔ db₂.Sees login r := by
      unfold Sees
      rw [hrows .users (by decide) (by decide), hrows .groups (by decide) (by decide),
        hrows .members (by decide) (by decide), hrows .permissions (by decide) (by decide)]
    rw [← hsees]
    exact and_congr_left (hobjects r)
  about r hr hsees := by
    have hrelated : ∀ s, ∀ row : RelatedRow, row.owner = r.id →
        (row ∈ db₁.relatedRows s ↔ row ∈ db₂.relatedRows s) := by
      intro s row howner
      cases s with
      | tags =>
        rw [relatedRows, relatedRows, taggedRows, taggedRows,
          hrows .taggings (by decide) (by decide), hrows .tags (by decide) (by decide)]
      | comments => rw [relatedRows, relatedRows, hrows .comments (by decide) (by decide)]
      | altNames => rw [relatedRows, relatedRows, hrows .altNames (by decide) (by decide)]
      | permissions => rw [relatedRows, relatedRows, hrows .permissions (by decide) (by decide)]
      | attributes =>
        simp only [relatedRows, List.mem_map]
        constructor
        · rintro ⟨a, ha, rfl⟩
          exact ⟨a, (hattributes r a hsees howner).1 ha, rfl⟩
        · rintro ⟨a, ha, rfl⟩
          exact ⟨a, (hattributes r a hsees howner).2 ha, rfl⟩
    refine ⟨fun f _ => ?_, fun c _ => ?_, fun b _ => ?_, ?_, ?_⟩
    · rw [hrows .files (by decide) (by decide)]
    · rw [hrows .configs (by decide) (by decide)]
    · rw [hrows .blobs (by decide) (by decide)]
    · exact fun s row hrow howner => ⟨row, (hrelated s row howner).1 hrow, howner, rfl⟩
    · exact fun s row hrow howner => ⟨row, (hrelated s row howner).2 hrow, howner, rfl⟩

/-- One object that the user sees. -/
def desk : Database where
  rows
    | .objects => [⟨1, ['p'], "object".toList, "2021-01-05 00:00:00".toList⟩]
    | .definitions => [⟨some ['k'], [], none, .int 0⟩]
    | .rights => [⟨['k'], .int 1, .int 1, .int 0⟩]
    | .users => [⟨1, ['u']⟩]
    | .groups => [⟨1, ['g'], ['[', ']']⟩]
    | .members => [⟨1, 1⟩]
    | .permissions => [⟨1, 1, "added".toList, .empty⟩]
    | _ => []

/-- The object on the desk, and one with an attribute that the user does not see. -/
def drawer : Database where
  rows
    | .objects =>
      [⟨1, ['p'], "object".toList, "2021-01-05 00:00:00".toList⟩,
       ⟨2, ['q'], "object".toList, "2021-01-04 00:00:00".toList⟩]
    | .attributes => [⟨1, 2, ['k'], ['\x7b', '\x7d']⟩]
    | t => desk.rows t

theorem id_eq_of_sees_desk {r : ObjectRecord} (h : desk.Sees ['u'] r) : r.id = 1 := by
  obtain ⟨_, _, _, g, hg, _, hlists | ⟨p, hp, hid, _⟩⟩ := h
  · have hnone : (Json.read? ['[', ']']).bind Json.strings? = some [] := by decide +kernel
    obtain ⟨names, hnames, hmem⟩ := hlists
    rw [List.mem_singleton.1 hg, hnone] at hnames
    cases hnames
    cases hmem
  · rw [List.mem_singleton.1 hp] at hid
    exact hid.symm

/-- What is in the drawer does not show. -/
theorem showsSame_desk_drawer : ShowsSame ['u'] desk drawer := by
  refine .of_rows (fun t ho ha => ?_) (fun r hsees => ?_) fun r a hsees howner => ?_
  · cases t with
    | objects => exact absurd rfl ho
    | attributes => exact absurd rfl ha
    | _ => rfl
  · have hid : r.id = 1 := id_eq_of_sees_desk hsees
    constructor
    · intro hr
      exact List.mem_cons.2 (Or.inl (List.mem_singleton.1 hr))
    · intro hr
      rcases List.mem_cons.1 hr with rfl | hr
      · exact List.mem_singleton.2 rfl
      · rw [List.mem_singleton.1 hr] at hid
        cases hid
  · have hid : a.objectId = 1 := howner.trans (id_eq_of_sees_desk hsees)
    constructor
    · intro ha
      cases ha
    · intro ha
      rw [List.mem_singleton.1 ha] at hid
      cases hid

theorem holdsDocuments_desk : desk.HoldsDocuments := by
  apply holdsDocuments_of_read?
  · intro r hr
    cases hr
  · intro r hr
    cases hr

theorem holdsDocuments_drawer : drawer.HoldsDocuments := by
  apply holdsDocuments_of_read?
  · intro r hr
    cases hr
  · decide +kernel

theorem search_eq_desk_drawer :
    desk.search ['u'] .default "NOT attribute.k.a:x".toList =
      drawer.search ['u'] .default "NOT attribute.k.a:x".toList := by
  refine search_eq_of_showsSame (by decide +kernel) (by decide +kernel) holdsDocuments_desk
    holdsDocuments_drawer showsSame_desk_drawer fun p hp => ?_
  have hmodest : (desk.plan ['u'] .default "NOT attribute.k.a:x".toList).toOption.all
      (fun p => p.condition.isModest) = true := by decide +kernel
  rw [hp] at hmodest
  exact hmodest

/-- A torn label tells of attributes that the user does not see: to look into any document along it
fails. -/
theorem search_ne_desk_drawer :
    desk.isIntact = true ∧ drawer.isIntact = true ∧ desk.HoldsDocuments ∧
      drawer.HoldsDocuments ∧ ShowsSame ['u'] desk drawer ∧
      desk.found? ['u'] .default ("attribute.k.a".toList ++ [Char.ofNat 0, ':', 'x']) =
        some (0, []) ∧
      drawer.found? ['u'] .default ("attribute.k.a".toList ++ [Char.ofNat 0, ':', 'x']) =
        none := by
  refine ⟨by decide +kernel, by decide +kernel, holdsDocuments_desk, holdsDocuments_drawer,
    showsSame_desk_drawer, ?_, ?_⟩
  · exact found?_eq_some (by decide +kernel) (by decide +kernel)
  · exact found?_eq_none (by decide +kernel)

end Database

end SampleSearch
