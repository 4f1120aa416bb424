import SampleSearch.Compile.Plan

/-!
# Hidden entities while a query is compiled

Two directories look alike to a viewer if they agree on everything that the viewer may know of:
groups the viewer belongs to, the viewer's own account, attributes the viewer can read, and the
positions of objects the viewer sees. What one of them hides may be missing in the other. Every
query is then compiled to the same plan or refused with the same error.
-/

namespace SampleSearch

namespace Viewer

def shown (v : Viewer) (g : Option Group) : Option Group :=
  g.filter fun g => v.has .manageUsers || v.isMember g.id

theorem shown_of_manageUsers {v : Viewer} (h : v.has .manageUsers = true) (g : Option Group) :
    v.shown g = g := by
  cases g <;> simp [shown, h]

end Viewer

namespace Directory

/-- No look-up fails, although it may find nothing. -/
structure Available (d : Directory) : Prop where
  groups : ∀ name, ∃ g, d.group? name = .ok g
  users : ∀ login, ∃ u, d.user? login = .ok u
  attributes : ∀ key, ∃ a, d.attribute? key = .ok a
  positions : ∀ dhash v, ∃ p, d.position? dhash v = .ok p

def Reads (d : Directory) (v : Viewer) (key : Text) (hidden : Bool) : Prop :=
  ∃ a, d.attribute? key = .ok (some a) ∧ a.readableBy v = true ∧ a.hidden = hidden

structure LooksLike (v : Viewer) (d e : Directory) : Prop where
  groups : ∀ name, (d.group? name).map v.shown = (e.group? name).map v.shown
  users : ∀ login, v.has .manageUsers = true ∨ login = v.login → d.user? login = e.user? login
  attributes : ∀ key hidden, d.Reads v key hidden ↔ e.Reads v key hidden
  positions : ∀ dhash, d.position? dhash v = e.position? dhash v

def blank : Directory :=
  ⟨fun _ => .ok none, fun _ => .ok none, fun _ => .ok none, fun _ _ => .ok none⟩

/-- A directory in which every name is that of a group, and every key that of a hidden attribute
which this group alone can read. -/
def secretive : Directory where
  group? name := .ok (some ⟨1, name⟩)
  user? _ := .ok none
  attribute? key := .ok (some ⟨key, [], none, true, [⟨1, true, false⟩]⟩)
  position? _ _ := .ok none

theorem available_blank : blank.Available :=
  ⟨fun _ => ⟨_, rfl⟩, fun _ => ⟨_, rfl⟩, fun _ => ⟨_, rfl⟩, fun _ _ => ⟨_, rfl⟩⟩

theorem available_secretive : secretive.Available :=
  ⟨fun _ => ⟨_, rfl⟩, fun _ => ⟨_, rfl⟩, fun _ => ⟨_, rfl⟩, fun _ _ => ⟨_, rfl⟩⟩

theorem secretive_looksLike_blank (u : User) : LooksLike (.ofUser u) secretive blank where
  groups _ := rfl
  users _ _ := rfl
  attributes key hidden := by
    constructor
    · rintro ⟨a, ha, hr, _⟩
      cases ha
      cases hr
    · rintro ⟨a, ha, _⟩
      cases ha
  positions _ := rfl

end Directory

namespace Leaf

open Directory

variable {d e : Directory} {v : Viewer}

/-- The rights on an attribute as the compiler checks them: whether it is hidden, or no such
attribute. -/
def readFlag (d : Directory) (v : Viewer) (key : Text) : Except SearchError Bool := do
  let a ← Directory.required (.noSuchAttribute key) (d.attribute? key)
  if a.readableBy v then .ok a.hidden else .error (.noSuchAttribute key)

theorem keyedCondition_term (d : Directory) (v : Viewer) (path segment : Text)
    (rest : List Text) (value : Text) :
    keyedCondition d v path (segment :: rest) (term value) =
      (readFlag d v (Text.unescape segment)).bind fun hidden =>
        if hidden && Text.hasWildcards value then .error .hiddenWildcard
        else (documentOperand .attributeValue rest).bind fun o =>
          .ok (.ofObject .attributes (.conjoin
            [.equals (.column .attributeKey) (.text (Text.unescape segment)),
              textCondition o value])) := by
  simp only [keyedCondition, readFlag]
  cases hr : Directory.required (.noSuchAttribute (Text.unescape segment))
      (d.attribute? (Text.unescape segment)) with
  | error err => rfl
  | ok a =>
    cases ha : a.readableBy v with
    | true => simp [bind, Except.bind, ha]
    | false => simp [bind, Except.bind, ha]

theorem readFlag_eq_ok_iff {key : Text} {hidden : Bool} :
    readFlag d v key = .ok hidden ↔ d.Reads v key hidden := by
  unfold readFlag Reads
  cases hd : d.attribute? key with
  | error err => simp [Directory.required, bind, Except.bind]
  | ok found =>
    cases found with
    | none => simp [Directory.required, bind, Except.bind]
    | some a =>
      cases ha : a.readableBy v with
      | true => simp [Directory.required, bind, Except.bind, ha]
      | false => simp [Directory.required, bind, Except.bind, ha]

theorem readFlag_eq_error (hd : d.Available) {key : Text} {err : SearchError}
    (h : readFlag d v key = .error err) : err = .noSuchAttribute key := by
  obtain ⟨found, hf⟩ := hd.attributes key
  unfold readFlag at h
  rw [hf] at h
  cases found with
  | none => simpa [Directory.required, bind, Except.bind] using h.symm
  | some a =>
    cases ha : a.readableBy v with
    | true => simp [Directory.required, bind, Except.bind, ha] at h
    | false => simpa [Directory.required, bind, Except.bind, ha] using h.symm

theorem readFlag_congr (hd : d.Available) (he : e.Available) (h : LooksLike v d e) (key : Text) :
    readFlag d v key = readFlag e v key := by
  cases hk : readFlag d v key with
  | ok hidden =>
    have hreads := (h.attributes key hidden).1 (readFlag_eq_ok_iff.1 hk)
    exact (readFlag_eq_ok_iff.2 hreads).symm
  | error err =>
    cases hk' : readFlag e v key with
    | ok hidden =>
      rw [readFlag_eq_ok_iff.2 ((h.attributes key hidden).2 (readFlag_eq_ok_iff.1 hk'))] at hk
      cases hk
    | error err' => rw [readFlag_eq_error hd hk, readFlag_eq_error he hk']

end Leaf

namespace Directory

/-- What the compiler gets from two directories for a viewer is the same. -/
structure ServesAlike (v : Viewer) (d e : Directory) : Prop where
  groups : ∀ name, (d.group? name).map v.shown = (e.group? name).map v.shown
  users : ∀ login, v.has .manageUsers = true ∨ login = v.login → d.user? login = e.user? login
  flags : ∀ key, Leaf.readFlag d v key = Leaf.readFlag e v key
  positions : ∀ dhash, d.position? dhash v = e.position? dhash v

theorem LooksLike.servesAlike {v : Viewer} {d e : Directory} (hd : d.Available) (he : e.Available)
    (h : LooksLike v d e) : ServesAlike v d e :=
  ⟨h.groups, h.users, Leaf.readFlag_congr hd he h, h.positions⟩

end Directory

namespace Leaf

open Directory

variable {d e : Directory} {v : Viewer}

theorem keyedCondition_congr (h : ServesAlike v d e) (path : Text) (residual : List Text)
    (leaf : Leaf) :
    keyedCondition d v path residual leaf = keyedCondition e v path residual leaf := by
  cases leaf with
  | range r => rfl
  | term value =>
    cases residual with
    | nil => rfl
    | cons segment rest => rw [keyedCondition_term, keyedCondition_term, h.flags]

theorem sharedWithCondition_eq (d : Directory) (v : Viewer) (path : Text) (leaf : Leaf) :
    sharedWithCondition d v path leaf =
      (exactName path leaf).bind fun name =>
        (Directory.required (.noSuchGroup name) ((d.group? name).map v.shown)).bind fun g =>
          .ok (.ofObject .permissions (.equals (.column .permissionGroup) (.int g.id))) := by
  unfold sharedWithCondition
  cases exactName path leaf with
  | error err => rfl
  | ok name =>
    cases hg : d.group? name with
    | error err => simp [Except.map, Directory.required, bind, Except.bind, hg]
    | ok found =>
      cases found with
      | none => simp [Except.map, Viewer.shown, Directory.required, bind, Except.bind, hg]
      | some g =>
        cases hs : v.has .manageUsers || v.isMember g.id with
        | true =>
          simp only [Bool.or_eq_true] at hs
          simp [Except.map, Viewer.shown, Directory.required, bind, Except.bind, hg, Option.filter,
            hs]
        | false =>
          simp only [Bool.or_eq_false_iff] at hs
          simp [Except.map, Viewer.shown, Directory.required, bind, Except.bind, hg, Option.filter,
            hs]

theorem uploadedByCondition_congr (h : ServesAlike v d e) (path : Text) (leaf : Leaf) :
    uploadedByCondition d v path leaf = uploadedByCondition e v path leaf := by
  unfold uploadedByCondition
  cases exactName path leaf with
  | error err => rfl
  | ok login =>
    by_cases hl : (v.has .manageUsers || login == v.login) = true
    · have hu : d.user? login = e.user? login := by
        apply h.users
        simpa [Bool.or_eq_true] using hl
      simp only [bind, Except.bind, hl, if_true, hu]
    · simp only [bind, Except.bind, if_neg hl]

theorem condition_congr (h : ServesAlike v d e) (f : ResolvedField) (leaf : Leaf) :
    leaf.condition d v f = leaf.condition e v f := by
  obtain ⟨path, kind, strategy, residual⟩ := f
  cases strategy with
  | text c => cases leaf <;> rfl
  | integer c => cases leaf <;> rfl
  | moment c => cases leaf <;> rfl
  | related r c => cases leaf <;> rfl
  | document c => cases leaf <;> rfl
  | keyed =>
    have hk := keyedCondition_congr h path residual leaf
    cases leaf <;> exact hk
  | sharedWith =>
    have hs : sharedWithCondition d v path leaf = sharedWithCondition e v path leaf := by
      rw [sharedWithCondition_eq, sharedWithCondition_eq]
      simp only [h.groups]
    cases leaf <;> exact hs
  | uploadedBy =>
    have hu := uploadedByCondition_congr h path leaf
    cases leaf <;> exact hu

end Leaf

namespace Query

open Directory

variable {d e : Directory} {v : Viewer}

theorem leafCondition_congr (h : ServesAlike v d e) (field : Option ResolvedField) (leaf : Leaf) :
    leafCondition d v field leaf = leafCondition e v field leaf := by
  cases field with
  | none => rfl
  | some f => exact Leaf.condition_congr h f leaf

mutual

theorem compileIn_congr (h : ServesAlike v d e) (field : Option ResolvedField) (b : Binding)
    (q : Query) :
    compileIn d v field b q = compileIn e v field b q := by
  cases q with
  | all parts => simp only [compileIn, compileParts_congr h field b parts]
  | any parts => simp only [compileIn, compileParts_congr h field b parts]
  | negated q => simp only [compileIn, compileIn_congr h field b q]
  | prohibited q => simp only [compileIn, compileIn_congr h field b q]
  | group q => simp only [compileIn, compileIn_congr h field b q]
  | fieldGroup q => simp only [compileIn, compileIn_congr h field b q]
  | field name q =>
    simp only [compileIn]
    cases ResolvedField.resolve name b with
    | error err => rfl
    | ok f =>
      cases hb : Kind.bind b f.kind with
      | error err => simp [bind, Except.bind, hb]
      | ok b' => simpa [bind, Except.bind, hb] using compileIn_congr h (some f) b' q
  | word value => simp only [compileIn, leafCondition_congr h]
  | phrase content => simp only [compileIn, leafCondition_congr h]
  | range r => simp only [compileIn, leafCondition_congr h]
  | required q => rfl
  | fuzzy value degree => rfl
  | proximity content degree => rfl
  | boost q force => rfl
  | regex pattern => rfl

theorem compileParts_congr (h : ServesAlike v d e) (field : Option ResolvedField) (b : Binding)
    (qs : List Query) :
    compileParts d v field b qs = compileParts e v field b qs := by
  cases qs with
  | nil => rfl
  | cons q qs =>
    simp only [compileParts, compileIn_congr h field b q]
    cases compileIn e v field b q with
    | error err => rfl
    | ok r => simp only [bind, Except.bind, compileParts_congr h field r.2 qs]

end

end Query

namespace Plan

open Directory

variable {d e : Directory} {v : Viewer}

theorem afterObject_congr (h : ServesAlike v d e) (sort : SortOrder) (dhash : Option Text) :
    afterObject d v sort dhash = afterObject e v sort dhash := by
  cases dhash with
  | none => rfl
  | some dhash => simp only [afterObject, h.positions]

theorem compile_congr (h : ServesAlike v d e) (o : SearchOptions) (text : Text) :
    compile d v o text = compile e v o text := by
  unfold compile
  cases Query.parse text with
  | error err => rfl
  | ok q =>
    simp only [bind, Except.bind, ofQuery, Query.compile, Query.compileIn_congr h none o.kind q,
      afterObject_congr h]

/-- Compiling tells nothing about entities that the viewer must not know of: a directory without
them gives the same plan, or the same error with the same message and offset. -/
theorem compile_eq_of_looksLike (hd : d.Available) (he : e.Available) (h : LooksLike v d e)
    (o : SearchOptions) (text : Text) : compile d v o text = compile e v o text :=
  compile_congr (h.servesAlike hd he) o text

/-- A group and an attribute that only some other group knows are missed by the viewer alike,
whether they exist or not, and one error comes in front of the other. -/
theorem compile_eq_of_secretive :
    Directory.secretive.Available ∧ Directory.blank.Available ∧
      LooksLike (.ofUser ⟨1, ['a']⟩) Directory.secretive Directory.blank ∧
      compile Directory.secretive (.ofUser ⟨1, ['a']⟩) .default "meta.k:x* shared:g".toList =
        compile Directory.blank (.ofUser ⟨1, ['a']⟩) .default "meta.k:x* shared:g".toList :=
  ⟨Directory.available_secretive, Directory.available_blank, Directory.secretive_looksLike_blank _,
    compile_eq_of_looksLike Directory.available_secretive Directory.available_blank
      (Directory.secretive_looksLike_blank _) _ _⟩

end Plan

end SampleSearch
