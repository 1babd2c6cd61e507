import Rollout.Proofs.TextMap
import Rollout.Redeploy

/-!
What a plan does. Every function of the stage is decided on once; its entry in the record to be
saved is either the one it had or the fresh version, and the artifact of every fresh version is
among the uploads.
-/

namespace Rollout.Redeploy

variable {p : Project} {previous : Record} {marker : Option String} {hashed : List Hashed}
  {h : Hashed} {d : Deployed} {u : ArtifactUpload} {entryPoint : String}

/-! ## Uploads -/

/-- The artifact that carries a function. -/
def artifactOf (p : Project) (f : FunctionSpec) : String := (sharedArtifact? p).getD f.artifact

theorem mem_uploads {fs : List FunctionSpec} :
    u ∈ uploads p fs ↔ ∃ f ∈ fs, u = ⟨artifactOf p f, freshVersion p f⟩ := by
  unfold uploads
  cases hshared : sharedArtifact? p with
  | none => simp [artifactOf, freshVersion, hshared, eq_comm]
  | some artifact =>
    cases fs with
    | nil => simp
    | cons f fs => simp [artifactOf, freshVersion, hshared]

theorem length_uploads_le (p : Project) (fs : List FunctionSpec) :
    (uploads p fs).length ≤ fs.length := by
  unfold uploads
  cases sharedArtifact? p with
  | none => simp
  | some artifact =>
    cases fs with
    | nil => simp
    | cons f fs => simp

/-- Every upload is that of the artifact of a function, to the version that this compilation
gives the artifact. -/
theorem eq_of_mem_uploads (hu : u ∈ (planHashed p previous marker hashed).uploads) :
    ∃ h ∈ hashed, u = ⟨artifactOf p h.1, .mint p.timestamp (artifactOf p h.1)⟩ := by
  obtain ⟨f, hf, rfl⟩ := mem_uploads.1 hu
  obtain ⟨x, hx, rfl⟩ := List.mem_map.1 hf
  obtain ⟨h, hh, rfl⟩ := List.mem_map.1 (List.mem_filter.1 hx).1
  exact ⟨h, hh, rfl⟩

theorem version_of_mem_uploads (hu : u ∈ (planHashed p previous marker hashed).uploads) :
    u.version = .mint p.timestamp u.artifact := by
  obtain ⟨h, -, rfl⟩ := eq_of_mem_uploads hu
  rfl

theorem length_planHashed_uploads_le :
    (planHashed p previous marker hashed).uploads.length ≤ hashed.length := by
  refine Nat.le_trans (length_uploads_le ..) ?_
  rw [deployed, List.length_map]
  refine Nat.le_trans (List.length_filter_le ..) (Nat.le_of_eq ?_)
  rw [decisions, List.length_map]

/-! ## Decisions -/

/-- A version is kept only from a trusted record, for the fingerprint it was recorded with. -/
theorem decide_eq_reuse {incremental : Bool} :
    decide p previous incremental h = .reuse d ↔
      incremental = true ∧ previous.get? h.1.entryPoint = some d ∧
        d.isCurrent (hash? h) = true := by
  unfold decide carried?
  cases incremental with
  | false => simp
  | true =>
    simp only [if_true, true_and]
    generalize hcarried : (previous.get? h.1.entryPoint).filter _ = carried
    cases carried with
    | none =>
      refine ⟨nofun, fun ⟨hget, hcurrent⟩ => ?_⟩
      simp [hget, hcurrent] at hcarried
    | some d' =>
      obtain ⟨hget, hcurrent⟩ := Option.filter_eq_some_iff.1 hcarried
      rw [Decision.reuse.injEq]
      refine ⟨fun hd => hd ▸ ⟨hget, hcurrent⟩, fun ⟨hget', _⟩ => ?_⟩
      rw [hget] at hget'
      exact Option.some.inj hget'

theorem isCurrent_iff {hash : Option ContentHash} :
    d.isCurrent hash = true ↔ ∃ value, d.hash = some value ∧ hash = some value := by
  unfold Deployed.isCurrent
  cases d.hash with
  | none => simp
  | some recorded =>
    cases hash with
    | none => simp
    | some current => simp [eq_comm]

/-! ## The record -/

theorem ordered_foldl_set (ds : List (Hashed × Decision)) {r : Record}
    (hr : r.functions.Ordered) :
    (ds.foldl (fun r d => r.set d.1.1.entryPoint d.2.deployed) r).functions.Ordered := by
  induction ds generalizing r with
  | nil => exact hr
  | cons d ds ih => exact ih (hr.insert _ _)

theorem mem_foldl_set (ds : List (Hashed × Decision)) {r : Record} {e : String × Deployed}
    (he : e ∈ (ds.foldl (fun r d => r.set d.1.1.entryPoint d.2.deployed) r).functions) :
    e ∈ r.functions ∨ ∃ x ∈ ds, e = (x.1.1.entryPoint, x.2.deployed) := by
  induction ds generalizing r with
  | nil => exact .inl he
  | cons d ds ih =>
    rcases ih he with he | ⟨x, hx, rfl⟩
    · rcases TextMap.mem_insert he with rfl | he
      · exact .inr ⟨d, List.mem_cons_self, rfl⟩
      · exact .inl he
    · exact .inr ⟨x, List.mem_cons_of_mem _ hx, rfl⟩

theorem foldl_set_eq (ds : List (Hashed × Decision)) (r : Record) :
    (ds.foldl (fun r d => r.set d.1.1.entryPoint d.2.deployed) r).format = r.format ∧
      (ds.foldl (fun r d => r.set d.1.1.entryPoint d.2.deployed) r).timestamp = r.timestamp := by
  induction ds generalizing r with
  | nil => exact ⟨rfl, rfl⟩
  | cons d ds ih => exact ih _

/-- The record of a plan can be written, and is about this compilation. -/
theorem record_spec :
    (planHashed p previous marker hashed).record.format = Record.currentFormat ∧
      (planHashed p previous marker hashed).record.timestamp = some p.timestamp ∧
      (planHashed p previous marker hashed).record.functions.Ordered := by
  obtain ⟨hformat, htimestamp⟩ := foldl_set_eq
    (decisions p previous (mode p previous marker).isIncremental hashed)
    (.ofCompilation p.timestamp)
  exact ⟨hformat, htimestamp, ordered_foldl_set _ TextMap.Ordered.nil⟩

/-- An entry of the new record is the old one of its function, kept if changes only are redeployed,
or the fresh version, whose artifact is uploaded. -/
theorem mem_record {e : String × Deployed}
    (he : e ∈ (planHashed p previous marker hashed).record.functions) :
    ∃ h ∈ hashed, e.1 = h.1.entryPoint ∧
      (((mode p previous marker).isIncremental = true ∧ previous.get? e.1 = some e.2) ∨
        (e.2 = ⟨freshVersion p h.1, hash? h⟩ ∧ (⟨artifactOf p h.1, freshVersion p h.1⟩ : ArtifactUpload) ∈
          (planHashed p previous marker hashed).uploads)) := by
  rcases mem_foldl_set _ he with he | ⟨x, hx, rfl⟩
  · cases he
  obtain ⟨h, hh, rfl⟩ := List.mem_map.1 hx
  refine ⟨h, hh, rfl, ?_⟩
  simp only
  cases hdecision : decide p previous (mode p previous marker).isIncremental h with
  | reuse d =>
    obtain ⟨hmode, hget, -⟩ := decide_eq_reuse.1 hdecision
    exact .inl ⟨hmode, hget⟩
  | deploy d =>
    refine .inr ⟨?_, mem_uploads.2 ⟨h.1, ?_, rfl⟩⟩
    · unfold decide at hdecision
      split at hdecision
      · cases hdecision
      · cases hdecision
        rfl
    · refine List.mem_map.2 ⟨(h, .deploy d), List.mem_filter.2 ⟨?_, rfl⟩, rfl⟩
      exact List.mem_map.2 ⟨h, hh, by rw [hdecision]⟩

end Rollout.Redeploy
