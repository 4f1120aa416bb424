import SampleSearch.Proofs.CompiledConditions
import SampleSearch.Proofs.Routes

/-!
# What a course tests

However the database finds its way through the rows, the conditions that it tests are parts of the
condition of the search. What is inherited by the parts of conjunctions and disjunctions, such as
being regular, holds of every condition in the course.
-/

namespace SampleSearch

namespace Condition

/-- What the parts of conjunctions and of disjunctions have if the whole has it. -/
class IsInherited (P : Condition → Prop) : Prop where
  all : ∀ cs, P (.all cs) → ∀ c ∈ cs, P c
  any : ∀ cs, P (.any cs) → ∀ c ∈ cs, P c

instance : IsInherited IsRegular where
  all _ h := allRegular_iff.1 h
  any _ h := allRegular_iff.1 h

section

variable {P : Condition → Prop}

mutual

theorem holds_of_mem_conjuncts [IsInherited P] {c d : Condition} (hc : P c)
    (hd : d ∈ c.conjuncts) : P d := by
  match c with
  | all (c :: cs) =>
    have hcs := IsInherited.all (c :: cs) hc
    rw [conjuncts] at hd
    rcases List.mem_append.1 hd with hd | hd
    · exact holds_of_mem_conjuncts (hcs c (by simp)) hd
    · exact holds_of_mem_conjunctsOfAll (fun e he => hcs e (List.mem_cons_of_mem c he)) hd
  | any [c] =>
    rw [conjuncts] at hd
    exact holds_of_mem_conjuncts (IsInherited.any [c] hc c (by simp)) hd
  | all [] | any [] | any (_ :: _ :: _) | const _ | compare _ _ _ | like _ _ | among _ _
  | negated _ | related _ _ _ =>
    rw [conjuncts] at hd
    · rw [List.mem_singleton.1 hd]
      exact hc
    all_goals simp

theorem holds_of_mem_conjunctsOfAll [IsInherited P] {cs : List Condition} {d : Condition}
    (hcs : ∀ c ∈ cs, P c) (hd : d ∈ conjunctsOfAll cs) : P d := by
  match cs with
  | [] => cases hd
  | c :: cs =>
    rw [conjunctsOfAll] at hd
    rcases List.mem_append.1 hd with hd | hd
    · exact holds_of_mem_conjuncts (hcs c (by simp)) hd
    · exact holds_of_mem_conjunctsOfAll (fun e he => hcs e (List.mem_cons_of_mem c he)) hd

end

mutual

theorem holds_of_mem_disjuncts [IsInherited P] {c d : Condition} (hc : P c)
    (hd : d ∈ c.disjuncts) : P d := by
  match c with
  | any (c :: cs) =>
    have hcs := IsInherited.any (c :: cs) hc
    rw [disjuncts] at hd
    rcases List.mem_append.1 hd with hd | hd
    · exact holds_of_mem_disjuncts (hcs c (by simp)) hd
    · exact holds_of_mem_disjunctsOfAny (fun e he => hcs e (List.mem_cons_of_mem c he)) hd
  | all [c] =>
    rw [disjuncts] at hd
    exact holds_of_mem_disjuncts (IsInherited.all [c] hc c (by simp)) hd
  | any [] | all [] | all (_ :: _ :: _) | const _ | compare _ _ _ | like _ _ | among _ _
  | negated _ | related _ _ _ =>
    rw [disjuncts] at hd
    · rw [List.mem_singleton.1 hd]
      exact hc
    all_goals simp

theorem holds_of_mem_disjunctsOfAny [IsInherited P] {cs : List Condition} {d : Condition}
    (hcs : ∀ c ∈ cs, P c) (hd : d ∈ disjunctsOfAny cs) : P d := by
  match cs with
  | [] => cases hd
  | c :: cs =>
    rw [disjunctsOfAny] at hd
    rcases List.mem_append.1 hd with hd | hd
    · exact holds_of_mem_disjuncts (hcs c (by simp)) hd
    · exact holds_of_mem_disjunctsOfAny (fun e he => hcs e (List.mem_cons_of_mem c he)) hd

end

end

end Condition

section

variable {P : Condition → Prop}

namespace Claim

/-- Whether the condition of a claim has a property. -/
def Obeys (P : Condition → Prop) : Claim → Prop
  | holds c _ => P c
  | joined _ => True

end Claim

namespace Term

def Obeys (P : Condition → Prop) (t : Term) : Prop := t.claim.Obeys P

end Term

namespace Outline

open Condition

variable {o : Outline}

@[simp] theorem claim_term (o : Outline) (place : List Nat) (claim : Claim) :
    (o.term place claim).claim = claim := by cases claim <;> rfl

theorem claim_of_mem_derived {t u : Term} (h : u ∈ o.derived t) : u.claim = t.claim := by
  unfold derived at h
  obtain ⟨p, _, rfl⟩ := List.mem_map.1 h
  rfl

/-- Terms say nothing but what they are made from. -/
theorem claim_mem_of_mem_terms {place : List Nat} {claims : List Claim} {t : Term}
    (h : t ∈ o.terms place claims) : t.claim ∈ claims := by
  have hbase : ∀ u ∈ claims.zipIdx.map fun p => o.term (place ++ [p.2]) p.1, u.claim ∈ claims := by
    intro u hu
    obtain ⟨p, hp, rfl⟩ := List.mem_map.1 hu
    rw [claim_term]
    exact List.fst_mem_of_mem_zipIdx hp
  unfold terms at h
  rcases List.mem_append.1 h with h | h
  · exact hbase t h
  · obtain ⟨u, hu, ht⟩ := List.mem_flatMap.1 h
    rw [claim_of_mem_derived ht]
    exact hbase u (List.mem_reverse.1 hu)

theorem obeys_of_mem_terms {place : List Nat} {claims : List Claim}
    (hclaims : ∀ claim ∈ claims, claim.Obeys P) {t : Term} (h : t ∈ o.terms place claims) :
    t.Obeys P :=
  hclaims _ (claim_mem_of_mem_terms h)

theorem obeys_of_mem_holds [Condition.IsInherited P] {c : Condition} (hc : P c) :
    ∀ claim ∈ c.conjuncts.map fun d => Claim.holds d false, claim.Obeys P := by
  intro claim h
  obtain ⟨d, hd, rfl⟩ := List.mem_map.1 h
  exact holds_of_mem_conjuncts hc hd

theorem obeys_of_mem_branch [Condition.IsInherited P] {place : List Nat} {c : Condition}
    (hc : P c) {t : Term} (h : t ∈ o.branch place c) : t.Obeys P := by
  unfold branch at h
  split at h
  · rw [List.mem_singleton.1 h, Term.Obeys, claim_term]
    exact hc
  · exact obeys_of_mem_terms (obeys_of_mem_holds hc) h

theorem obeys_of_mem_branches [Condition.IsInherited P] {t : Term} (ht : t.Obeys P)
    {b : Condition × List Term} (h : b ∈ o.branches t) : P b.1 ∧ ∀ u ∈ b.2, u.Obeys P := by
  unfold branches at h
  split at h
  · rename_i c d cs settles hclaim
    have hc : P (any (c :: d :: cs)) := by
      rw [Term.Obeys, hclaim] at ht
      exact ht
    obtain ⟨p, hp, rfl⟩ := List.mem_map.1 h
    have hpart : P p.1 := holds_of_mem_disjuncts hc (List.fst_mem_of_mem_zipIdx hp)
    exact ⟨hpart, fun u hu => obeys_of_mem_branch hpart hu⟩
  · cases h

end Outline

namespace Condition

/-- A condition settles a column only by a comparison. -/
theorem settle_cons (c : Condition) (cs : List Condition) :
    ∃ settles, (settle (c :: cs)).1 = .holds c settles :: (settle cs).1 ∧
      (settles = true → ∃ d l, c = compare (.column d) .eq l) := by
  rw [settle]
  obtain ⟨claims, settled⟩ := settle cs
  simp only
  split
  · split
    · exact ⟨false, rfl, fun h => (nomatch h)⟩
    · exact ⟨true, rfl, fun _ => ⟨_, _, rfl⟩⟩
  · exact ⟨false, rfl, fun h => (nomatch h)⟩

theorem obeys_of_mem_settle {cs : List Condition} (hcs : ∀ c ∈ cs, P c) :
    ∀ claim ∈ (settle cs).1, claim.Obeys P := by
  induction cs with
  | nil =>
    intro claim h
    cases h
  | cons c cs ih =>
    obtain ⟨settles, hsettle, -⟩ := settle_cons c cs
    rw [hsettle]
    intro claim h
    rcases List.mem_cons.1 h with rfl | h
    · exact hcs c (by simp)
    · exact ih (fun d hd => hcs d (List.mem_cons_of_mem c hd)) claim h

theorem obeys_of_mem_outline [Condition.IsInherited P] {c : Condition} (hc : P c) :
    ∀ claim ∈ c.outline.claims, claim.Obeys P := by
  intro claim h
  rcases List.mem_append.1 h with h | h
  · exact obeys_of_mem_settle (fun d hd => holds_of_mem_conjuncts hc hd) claim h
  · obtain ⟨s, _, rfl⟩ := List.mem_map.1 h
    trivial

end Condition

namespace Test

mutual

/-- Whether all conditions of a test have a property. -/
def Obeys (P : Condition → Prop) : Test → Prop
  | holds c _ => P c
  | joined _ => True
  | starts _ => True
  | someOf courses => EachObey P courses

def AllObey (P : Condition → Prop) : List Test → Prop
  | [] => True
  | t :: ts => Obeys P t ∧ AllObey P ts

def EachObey (P : Condition → Prop) : List (List Test) → Prop
  | [] => True
  | ts :: rest => AllObey P ts ∧ EachObey P rest

end

theorem allObey_iff {ts : List Test} : AllObey P ts ↔ ∀ t ∈ ts, t.Obeys P := by
  induction ts with
  | nil => simp [AllObey]
  | cons t ts ih => simp [AllObey, ih]

theorem eachObey_iff {courses : List (List Test)} :
    EachObey P courses ↔ ∀ ts ∈ courses, AllObey P ts := by
  induction courses with
  | nil => simp [EachObey]
  | cons ts rest ih => simp [EachObey, ih]

end Test

namespace Term

variable {t : Term}

theorem obeys_test (h : t.Obeys P) : t.test.Obeys P := by
  unfold test
  split
  · rename_i c settles hclaim
    rw [Obeys, hclaim] at h
    exact h
  · trivial

theorem obeys_finding (h : t.Obeys P) : t.finding.Obeys P := by
  unfold finding
  split
  · trivial
  · exact obeys_test h

theorem obeys_of_shared? (h : t.Obeys P) {claim : Claim} (hs : t.shared? = some claim) :
    claim.Obeys P := by
  unfold shared? at hs
  rw [Obeys] at h
  split at hs
  · cases hs
  · split at hs
    · rename_i hclaim
      cases hs
      rw [hclaim] at h
      exact h
    · rename_i hclaim
      split at hs
      · cases hs
        rw [hclaim] at h
        exact h
      · cases hs
    · cases hs

end Term

namespace Conjunction

variable {j : Conjunction}

def Obeys (P : Condition → Prop) (j : Conjunction) : Prop := ∀ t ∈ j.terms, t.Obeys P

/-- The accesses to the sources of a conjunction are made of its terms. -/
theorem isMadeOf_of_mem_accesses (depth : Nat) (ss : List Source) :
    ∀ a ∈ j.accesses depth ss, ∃ s ∈ ss, a.IsMadeOf s j.terms := by
  have hfold : ∀ (rest : List Source) (known : List Access), (∀ s ∈ rest, s ∈ ss) →
      (∀ a ∈ known, ∃ s ∈ ss, a.IsMadeOf s j.terms) →
      ∀ a ∈ rest.foldl (fun known s => (j.survey s).addAccesses depth known) known,
        ∃ s ∈ ss, a.IsMadeOf s j.terms := by
    intro rest
    induction rest with
    | nil => exact fun known _ h => h
    | cons s rest ih =>
      intro known hss hknown
      refine ih _ (fun x hx => hss x (List.mem_cons_of_mem s hx)) ?_
      refine Survey.of_mem_addAccesses ?_ (fun a ha => ?_) depth hknown
      · rintro known a ⟨x, hx, ha⟩
        exact ⟨x, hx, ha.correctedBy known⟩
      · rw [survey, List.append_nil] at ha
        exact ⟨s, hss s (by simp), ha⟩
  refine hfold ss [] (fun s hs => hs) ?_
  intro a ha
  cases ha

/-- Every source can be reached behind those that are joined in front of it. -/
theorem exists_access (j : Conjunction) (depth : Nat) {ss : List Source} {s : Source}
    (hs : s ∈ ss) : ∃ a ∈ j.accesses depth ss, a.source = s ∧ ∀ x ∈ a.needs, x ∈ s.before := by
  have hfold : ∀ (rest : List Source) (known : List Access) (p : Access),
      p ∈ known ∨ (∃ x ∈ rest, p ∈ (j.survey x).direct) →
      ∃ b ∈ rest.foldl (fun known s => (j.survey s).addAccesses depth known) known,
        b.Replaces p := by
    intro rest
    induction rest with
    | nil =>
      intro known p h
      exact ⟨p, h.resolve_right (by simp), .refl p⟩
    | cons x rest ih =>
      intro known p h
      have hadded : p ∈ known ∨ p ∈ (j.survey x).direct →
          ∃ b ∈ (x :: rest).foldl (fun known s => (j.survey s).addAccesses depth known) known,
            b.Replaces p := by
        intro h
        obtain ⟨q, hq, hreplaces⟩ := Survey.exists_addAccesses_replaces depth h
        obtain ⟨b, hb, hb'⟩ := ih _ q (.inl hq)
        exact ⟨b, hb, hb'.trans hreplaces⟩
      rcases h with h | ⟨y, hy, h⟩
      · exact hadded (.inl h)
      · rcases List.mem_cons.1 hy with rfl | hy
        · exact hadded (.inr h)
        · exact ih _ p (.inr ⟨y, hy, h⟩)
  -- The access by row ids is always found, and whatever replaces it needs no more sources.
  obtain ⟨p, hp, hsource, hneeds⟩ := Survey.exists_direct (j.survey s)
  obtain ⟨b, hb, hreplaces⟩ := hfold ss [] p (.inr ⟨s, hs, hp⟩)
  refine ⟨b, hb, hreplaces.source.trans hsource, fun x hx => ?_⟩
  have hx := hreplaces.needs x hx
  rw [hneeds] at hx
  simp only [survey] at hx
  split at hx
  · cases hx
  · exact hx

theorem obeys_of_mem_map {α : Type} {ts : List α} {f : α → Test}
    (h : ∀ t ∈ ts, (f t).Obeys P) : ∀ t ∈ ts.map f, t.Obeys P := by
  intro t ht
  obtain ⟨u, hu, rfl⟩ := List.mem_map.1 ht
  exact h u hu

theorem obeys_of_mem_findings {alternatives : Term → Test} {a : Access}
    (ha : ∀ t ∈ a.terms, t.Obeys P)
    (halt : ∀ t, t.Obeys P → (alternatives t).Obeys P) :
    ∀ t ∈ j.findings alternatives a, t.Obeys P := by
  unfold findings
  split
  · exact obeys_of_mem_map fun t ht => halt t (ha t ht)
  · split
    · intro t ht
      cases ht
    · exact obeys_of_mem_map fun t ht => Term.obeys_finding (ha t ht)
  · split
    · intro t ht
      rw [List.mem_singleton.1 ht]
      trivial
    · intro t ht
      cases ht

theorem mem_of_mem_arranged {a : Access} {isOuter : Bool} {ts : List Term} {t : Term}
    (h : t ∈ a.arranged isOuter ts) : t ∈ ts := by
  unfold Access.arranged at h
  simp only at h
  split at h
  · exact h
  · rcases List.mem_append.1 h with h | h
    · rcases List.mem_append.1 h with h | h
      · exact (List.mem_filter.1 h).1
      · exact (List.mem_filter.1 h).1
    · exact (List.mem_filter.1 h).1

theorem obeys_of_mem_testsAlong {alternatives : Term → Test}
    (halt : ∀ t, t.Obeys P → (alternatives t).Obeys P) {accesses : List Access}
    (haccesses : ∀ a ∈ accesses, ∀ t ∈ a.terms, t.Obeys P) (reached : List Source)
    {left : List Term} (hleft : ∀ t ∈ left, t.Obeys P) :
    ∀ t ∈ j.testsAlong alternatives reached left accesses, t.Obeys P := by
  induction accesses generalizing reached left with
  | nil =>
    intro t ht
    cases ht
  | cons a accesses ih =>
    intro t ht
    unfold testsAlong at ht
    rcases List.mem_append.1 ht with ht | ht
    · rcases List.mem_append.1 ht with ht | ht
      · exact obeys_of_mem_findings (haccesses a (by simp)) halt t ht
      · refine obeys_of_mem_map (fun u hu => ?_) t ht
        have hripe := (List.mem_filter.1 (mem_of_mem_arranged hu)).1
        exact Term.obeys_test (hleft u (List.mem_filter.1 hripe).1)
    · refine ih (fun b hb => haccesses b (List.mem_cons_of_mem a hb)) _ (fun u hu => ?_) t ht
      have hunripe := (List.mem_filter.1 hu).1
      exact hleft u (List.mem_filter.1 hunripe).1

theorem obeys_of_mem_testsOn (hj : j.Obeys P) {alternatives : Term → Test}
    (halt : ∀ t, t.Obeys P → (alternatives t).Obeys P) {r : Route}
    (hr : ∀ a ∈ r.accesses, ∀ t ∈ a.terms, t.Obeys P) :
    ∀ t ∈ j.testsOn alternatives r, t.Obeys P := by
  intro t ht
  rcases List.mem_append.1 ht with ht | ht
  · refine obeys_of_mem_map (fun u hu => ?_) t ht
    exact Term.obeys_test (hj u (List.mem_filter.1 hu).1)
  · refine obeys_of_mem_testsAlong halt hr [] (fun u hu => ?_) t ht
    exact hj u (List.mem_filter.1 hu).1

theorem obeys_alternative [Condition.IsInherited P] (hj : j.Obeys P) (t : Term) {c : Condition}
    (hc : P c) : (j.alternative t c).Obeys P := by
  refine fun u hu => Outline.obeys_of_mem_terms (fun claim hclaim => ?_) hu
  rcases List.mem_append.1 hclaim with hclaim | hclaim
  · exact Outline.obeys_of_mem_holds hc claim hclaim
  · obtain ⟨w, hw, hshared⟩ := List.mem_filterMap.1 hclaim
    exact Term.obeys_of_shared? (hj w (List.mem_filter.1 hw).1) hshared

theorem obeys_alternatives [Condition.IsInherited P] (n : Nat) (rows : Estimate)
    (hj : j.Obeys P) {t : Term} (ht : t.Obeys P) : (alternatives rows n j t).Obeys P := by
  induction n generalizing rows j t with
  | zero => exact Term.obeys_test ht
  | succ n ih =>
    rw [alternatives, Test.Obeys, Test.eachObey_iff]
    intro ts hts
    obtain ⟨b, hb, rfl⟩ := List.mem_map.1 hts
    have hinner := obeys_alternative hj t (Outline.obeys_of_mem_branches ht hb).1
    rw [Test.allObey_iff]
    simp only
    split
    · rename_i r hr
      refine obeys_of_mem_testsOn hinner (fun u hu => ih _ hinner hu) fun a ha u hu => ?_
      obtain ⟨_, _, hmade⟩ := isMadeOf_of_mem_accesses n [.object] a
        ((Route.isOver_of_best? hr).uses a ha)
      exact hinner u (hmade.mem u hu)
    · intro u hu
      cases hu

theorem obeys_of_mem_course [Condition.IsInherited P] (hj : j.Obeys P) (depth : Nat) :
    ∀ t ∈ (j.course depth).tests, t.Obeys P := by
  unfold course
  split
  · intro t ht
    cases ht
  · rename_i r minded hr
    refine obeys_of_mem_testsOn hj (fun t ht => obeys_alternatives depth _ hj ht)
      fun a ha u hu => ?_
    obtain ⟨_, _, hmade⟩ := isMadeOf_of_mem_accesses depth _ a
      ((Route.isOver_of_choose? hr).uses a ha)
    exact hj u (hmade.mem u hu)

end Conjunction

/-- What is inherited from a condition holds of the conditions in its course. -/
theorem Condition.obeys_of_mem_course [Condition.IsInherited P] {c : Condition} (hc : P c)
    (purpose : Purpose) : ∀ t ∈ (c.course purpose).tests, t.Obeys P := by
  unfold course
  refine Conjunction.obeys_of_mem_course (fun t ht => ?_) c.depth
  exact Outline.obeys_of_mem_terms (obeys_of_mem_outline hc) ht

end

end SampleSearch
