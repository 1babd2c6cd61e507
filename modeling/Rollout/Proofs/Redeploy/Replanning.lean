import Mathlib.Logic.Function.Iterate
import Rollout.Proofs.Redeploy.Decision

/-!
Planning again from what a plan commits. The record of a plan has, for every active function, the
entry that the function was decided to have, with the fingerprint it has now. So the second plan
keeps every function that has a fingerprint, gives every other one the entry that it has already,
and commits the record that it was made from.
-/

namespace Rollout.Redeploy

variable {p : Project} {stage : Stage} {previous : Record} {marker : Option String}
  {hasher : FunctionSpec → Except HashError ContentHash} {f : FunctionSpec}

/-- The plan for the same project and the same fingerprints after a plan was committed: its record
is the one to start from, and the marker has the timestamp of the project. -/
def replan (p : Project) (stage : Stage) (hasher : FunctionSpec → Except HashError ContentHash)
    (committed : RedeployPlan) : RedeployPlan :=
  plan p stage committed.record (some p.timestamp) hasher

/-! ## One function -/

/-- An entry is decided on with the fingerprint that the function has now, if it has one. -/
theorem hash_deployed {m : RedeployMode} :
    (decisionOf p previous hasher m f).deployed.hash = (hasher f).toOption := by
  by_cases hkeeps : Keeps previous hasher m f
  · have hentry := deployed_of_keeps (p := p) hkeeps
    obtain ⟨-, d, hash, hget, hrecorded, hcurrent⟩ := hkeeps
    rw [hget] at hentry
    rw [← Option.some.inj hentry, hrecorded, hcurrent]
    rfl
  · rw [deployed_of_not_keeps hkeeps]

/-- A function without a fingerprint gets the fresh version. -/
theorem version_deployed_of_error {m : RedeployMode} (h : (hasher f).isOk = false) :
    (decisionOf p previous hasher m f).deployed.version = freshVersion p f := by
  have hkeeps : ¬Keeps previous hasher m f := by
    rintro ⟨-, d, hash, -, -, hcurrent⟩
    rw [hcurrent] at h
    cases h
  rw [deployed_of_not_keeps hkeeps]

/-- The record of a plan vouches for the functions that have a fingerprint. -/
theorem unchanged_record_iff (hp : p.fault? = none) (hf : f ∈ p.active stage) :
    Unchanged (plan p stage previous marker hasher).record hasher f ↔ (hasher f).isOk = true := by
  unfold Unchanged
  rw [get?_record hp hf]
  constructor
  · rintro ⟨d, hash, -, -, hcurrent⟩
    rw [hcurrent]
    rfl
  · intro hok
    cases hcurrent : hasher f with
    | error e =>
      rw [hcurrent] at hok
      cases hok
    | ok hash => exact ⟨_, hash, rfl, by rw [hash_deployed, hcurrent]; rfl, rfl⟩

/-- Every function is decided to have the entry that the record has. -/
theorem deployed_replan (hp : p.fault? = none) (hf : f ∈ p.active stage) :
    (decisionOf p (plan p stage previous marker hasher).record hasher .incremental f).deployed =
      (decisionOf p previous hasher (mode p previous marker) f).deployed := by
  by_cases hkeeps : Keeps (plan p stage previous marker hasher).record hasher .incremental f
  · have hentry := deployed_of_keeps (p := p) hkeeps
    rw [get?_record hp hf] at hentry
    exact (Option.some.inj hentry).symm
  · have herror : (hasher f).isOk = false := Bool.eq_false_iff.2 fun hok =>
      hkeeps ⟨rfl, (unchanged_record_iff hp hf).2 hok⟩
    rw [deployed_of_not_keeps hkeeps]
    generalize hentry : (decisionOf p previous hasher (mode p previous marker) f).deployed = entry
    have hversion : entry.version = freshVersion p f := hentry ▸ version_deployed_of_error herror
    have hhash : entry.hash = (hasher f).toOption := hentry ▸ hash_deployed
    rw [← hversion, ← hhash]

/-! ## The plan -/

theorem mode_replan (hassemble : p.assemble = true) :
    mode p (plan p stage previous marker hasher).record (some p.timestamp) = .incremental :=
  mode_eq_incremental.2 ⟨hassemble, p.timestamp, record_spec.2.1, rfl⟩

/-- The record of a plan, from the entries that its functions are decided to have. -/
theorem record_plan :
    (plan p stage previous marker hasher).record =
      ((p.active stage).map fun f =>
        (f.entryPoint, (decisionOf p previous hasher (mode p previous marker) f).deployed)).foldl
          (fun r e => r.set e.1 e.2) (.ofCompilation p.timestamp) := by
  show record p.timestamp (decisions p previous _ _) = _
  rw [decisions_plan, record, List.foldl_map, List.foldl_map]

theorem record_replan (hp : p.fault? = none) (hassemble : p.assemble = true) :
    (replan p stage hasher (plan p stage previous marker hasher)).record =
      (plan p stage previous marker hasher).record := by
  rw [replan, record_plan, mode_replan hassemble]
  refine Eq.trans ?_ record_plan.symm
  refine congrArg (List.foldl _ _) (List.map_congr_left fun f hf => ?_)
  rw [deployed_replan hp hf]

theorem tokens_replan (hp : p.fault? = none) (hassemble : p.assemble = true) :
    (replan p stage hasher (plan p stage previous marker hasher)).tokens =
      (plan p stage previous marker hasher).tokens := by
  rw [replan, tokens_plan, mode_replan hassemble, tokens_plan]
  refine congrArg Substitutions.ofList (List.map_congr_left fun f hf => ?_)
  rw [deployed_replan hp hf]

/-- The second plan keeps the functions that have a fingerprint. -/
theorem keeps_replan_iff (hp : p.fault? = none) (hf : f ∈ p.active stage) :
    Keeps (plan p stage previous marker hasher).record hasher .incremental f ↔
      (hasher f).isOk = true :=
  (and_iff_right rfl).trans (unchanged_record_iff hp hf)

theorem toDeploy_replan (hp : p.fault? = none) (hassemble : p.assemble = true) :
    (replan p stage hasher (plan p stage previous marker hasher)).toDeploy =
      (p.active stage).filter fun f => !(hasher f).isOk := by
  rw [replan, toDeploy_plan, mode_replan hassemble]
  refine List.filter_congr fun f hf => ?_
  simp [keeps_replan_iff hp hf]

theorem reused_replan (hp : p.fault? = none) (hassemble : p.assemble = true) :
    (replan p stage hasher (plan p stage previous marker hasher)).reused =
      ((p.active stage).filter fun f => (hasher f).isOk).map FunctionSpec.entryPoint := by
  rw [replan, reused_plan, mode_replan hassemble]
  refine congrArg (List.map _) (List.filter_congr fun f hf => ?_)
  simp [keeps_replan_iff hp hf]

/-- What the second plan deploys, it gives the version that it has. -/
theorem reissued_replan (hp : p.fault? = none) (hassemble : p.assemble = true) :
    (replan p stage hasher (plan p stage previous marker hasher)).reissued =
      (replan p stage hasher (plan p stage previous marker hasher)).toDeploy.map
        FunctionSpec.entryPoint := by
  refine congrArg (List.map _) (List.filter_eq_self.2 fun f hf => ?_)
  rw [isReissued_eq hp hf]
  have hrecord : (plan p stage (plan p stage previous marker hasher).record (some p.timestamp)
      hasher).record = (plan p stage previous marker hasher).record := record_replan hp hassemble
  rw [hrecord]
  exact decide_eq_true rfl

/-! ## Any number of plans -/

/-- The second plan is where planning comes to rest: it is incremental, commits the record it was
made from with the same tokens, deploys the functions without a fingerprint, all of them under the
version they have, and reuses all others; and every later plan is the same. -/
theorem replan_fixed (hp : p.fault? = none) (hassemble : p.assemble = true) (stage : Stage)
    (previous : Record) (marker : Option String)
    (hasher : FunctionSpec → Except HashError ContentHash) :
    let first := plan p stage previous marker hasher
    let second := replan p stage hasher first
    second.mode = .incremental ∧ second.record = first.record ∧ second.tokens = first.tokens ∧
      second.toDeploy = ((p.active stage).filter fun f => !(hasher f).isOk) ∧
      second.reissued = second.toDeploy.map FunctionSpec.entryPoint ∧
      second.reused =
        ((p.active stage).filter fun f => (hasher f).isOk).map FunctionSpec.entryPoint ∧
      ∀ n, (replan p stage hasher)^[n] second = second := by
  refine ⟨mode_replan hassemble, record_replan hp hassemble, tokens_replan hp hassemble,
    toDeploy_replan hp hassemble, reissued_replan hp hassemble, reused_replan hp hassemble,
    Function.iterate_fixed ?_⟩
  rw [replan, record_replan hp hassemble]
  rfl

/-- Only the mail function, which has no fingerprint, is deployed again and again. -/
theorem replan_fixed_sample :
    Sample.project.fault? = none ∧ Sample.project.assemble = true ∧
      (replan Sample.project .dev Sample.hashes
        (plan Sample.project .dev Sample.recorded none Sample.hashes)).mode = .incremental ∧
      (replan Sample.project .dev Sample.hashes
        (plan Sample.project .dev Sample.recorded none Sample.hashes)).toDeploy.map
          FunctionSpec.entryPoint = ["mail"] := by
  have hp : Sample.project.fault? = none := by decide
  obtain ⟨hmode, -, -, htoDeploy, -⟩ :=
    replan_fixed hp rfl .dev Sample.recorded none Sample.hashes
  refine ⟨hp, rfl, hmode, ?_⟩
  rw [htoDeploy]
  decide

end Rollout.Redeploy
