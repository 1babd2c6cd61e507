import Rollout.Proofs.Run.Looking

/-!
Batches of uploads. Whatever order its jobs end in, a batch attempts every upload once, and it
succeeds only if each of them did.
-/

namespace Rollout

namespace Schedule

theorem filterMap_range {α : Type} (jobs : List α) :
    (List.range jobs.length).filterMap (fun i => jobs[i]?) = jobs := by
  induction jobs with
  | nil => rfl
  | cons job jobs ih =>
    rw [List.length_cons, List.range_succ_eq_map, List.filterMap_cons]
    simp only [List.getElem?_cons_zero, List.filterMap_map]
    exact congrArg (job :: ·) ih

/-- Every job gets its turn once. -/
theorem arrange_perm {α : Type} (jobs : List α) (s : Schedule jobs.length) :
    (s.arrange jobs).Perm jobs := by
  have h := s.perm.filterMap fun i => jobs[i]?
  rw [filterMap_range] at h
  exact h

end Schedule

namespace Artifacts

variable {κ : Type} {P : Protocol κ} {bucket : String} {k : κ}

/-- A file is read, and if that succeeds stored. -/
theorem uploadFile_run (bucket : String) (u : PendingUpload) :
    (uploadFile bucket u).run = .ask (.onMachine (.read u.path)) fun
      | .ok body => .ask (.store (.put bucket u.key body)) fun
        | .ok _ => .done (.ok ())
        | .error e => .done (.error (.upload u.key e))
      | .error e => .done (.error (fileFailure u.key e)) := by
  refine congrArg (Program.ask (.onMachine (.read u.path))) (funext fun body => ?_)
  cases body with
  | error e => rfl
  | ok body =>
    exact congrArg (Program.ask (.store (.put bucket u.key body)))
      (funext fun r => by cases r <;> rfl)

/-- Rules that hold all along a batch: `J` says what holds when some uploads are done and some
are still to come. -/
structure Batch (P : Protocol κ) (bucket : String)
    (J : List PendingUpload → List PendingUpload → κ → Prop) : Prop where
  upload : ∀ done u rest k, J done (u :: rest) k → (uploadFile bucket u).run.Follows P (fun r k' =>
    match r with
    | .ok _ => J (u :: done) rest k'
    | .error _ => J done rest k') k
  tell : ∀ done rest k c, J done rest k → (Request.control c).Idle →
    P.allowed k (.control c) ∧ ∀ a k', P.after k (.control c) a k' → J done rest k'

variable {J : List PendingUpload → List PendingUpload → κ → Prop}

theorem Batch.follows_attemptAll (h : Batch P bucket J) (total : Nat) (us : List PendingUpload)
    (s : BatchState) {done : List PendingUpload} (hk : J done us k) :
    (attemptAll bucket total us s).Follows P (fun s' k' => ∃ done', J done' [] k' ∧
      (∀ u ∈ done, u ∈ done') ∧ (s'.failures = [] → s.failures = [] ∧ ∀ u ∈ us, u ∈ done')) k := by
  induction us generalizing s done k with
  | nil => exact ⟨done, hk, fun _ h => h, fun hs => ⟨hs, nofun⟩⟩
  | cons u us ih =>
    refine Program.Follows.bind (h.upload done u us k hk) fun r k' hr => ?_
    cases r with
    | ok _ =>
      obtain ⟨hallowed, hafter⟩ := h.tell (u :: done) us k'
        (.emit (.artifactUploaded (s.done + 1) total u.key)) hr id
      refine ⟨hallowed, fun a k'' hk'' => ?_⟩
      refine (ih _ (hafter a k'' hk'')).mono ?_
      rintro s' k₁ ⟨done', hJ, hdone, hall⟩
      refine ⟨done', hJ, fun v hv => hdone v (List.mem_cons_of_mem _ hv), fun hs => ?_⟩
      obtain ⟨hfailures, hus⟩ := hall hs
      refine ⟨hfailures, fun v hv => ?_⟩
      rcases List.mem_cons.1 hv with rfl | hv
      · exact hdone v List.mem_cons_self
      · exact hus v hv
    | error e =>
      refine (ih _ hr).mono ?_
      rintro s' k₁ ⟨done', hJ, hdone, hall⟩
      refine ⟨done', hJ, hdone, fun hs => ?_⟩
      have hfailures := (hall hs).1
      simp at hfailures

/-- A batch that succeeds has done all its uploads. -/
theorem Batch.follows_uploadAll (h : Batch P bucket J) {us : List PendingUpload} {workers : Nat}
    (hk : ∀ us', us'.Perm us → J [] us' k) :
    (uploadAll bucket workers us).Follows P
      (fun _ k' => ∃ done, J done [] k' ∧ ∀ u ∈ us, u ∈ done) k := by
  obtain ⟨hallowed, -⟩ := h.tell [] us k (.schedule us.length (min workers us.length))
    (hk us (.refl _)) trivial
  refine .bind (Run.follows_liftProgram ⟨hallowed, fun order k' hk' => ?_⟩)
    (Q := fun order k' => J [] (order.arrange us) k') fun order k' hk' => ?_
  · exact (h.tell [] (order.arrange us) k (.schedule us.length (min workers us.length))
      (hk _ (order.arrange_perm us)) trivial).2 order k' hk'
  refine .bind (Run.follows_liftProgram (h.follows_attemptAll us.length _ ⟨0, []⟩ hk')) ?_
  rintro s k'' ⟨done, hJ, -, hall⟩
  by_cases hs : s.failures = []
  · simp only [hs, List.isEmpty_nil, Bool.not_true]
    refine Run.follows_pure ⟨done, hJ, fun u hu => (hall hs).2 u ?_⟩
    exact (order.arrange_perm us).mem_iff.2 hu
  · simp only [List.isEmpty_eq_false_iff.2 hs]
    exact Run.follows_throw _

end Artifacts

end Rollout
