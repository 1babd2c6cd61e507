import Mathlib.Data.List.Basic
import Rollout.Proofs.Outcome
import Rollout.Proofs.Redeploy

/-!
The redeploy decision as a whole. A function keeps its version exactly if the plan is incremental
and the record has the fingerprint that the function has now; which functions are reused and
deployed, the record to be saved, the warnings and the reissued functions all follow from that
one test. Reading the record back at an entry point relies on no two functions of a project
having the same one.
-/

namespace Rollout.Redeploy

variable {p : Project} {stage : Stage} {previous : Record} {marker : Option String}
  {hasher : FunctionSpec → Except HashError ContentHash} {m : RedeployMode} {f : FunctionSpec}

/-- Whether the record vouches for a function as it is now: it has a fingerprint on record, and
hashing the function succeeds with that fingerprint. -/
def Unchanged (previous : Record) (hasher : FunctionSpec → Except HashError ContentHash)
    (f : FunctionSpec) : Prop :=
  ∃ d hash, previous.get? f.entryPoint = some d ∧ d.hash = some hash ∧ hasher f = .ok hash

/-- Whether a function keeps its recorded version under a mode. -/
def Keeps (previous : Record) (hasher : FunctionSpec → Except HashError ContentHash)
    (m : RedeployMode) (f : FunctionSpec) : Prop :=
  m = .incremental ∧ Unchanged previous hasher f

/-- What becomes of a function under a mode. -/
def decisionOf (p : Project) (previous : Record)
    (hasher : FunctionSpec → Except HashError ContentHash) (m : RedeployMode) (f : FunctionSpec) :
    Decision :=
  decide p previous m.isIncremental (f, hasher f)

/-! ## The mode -/

theorem mode_eq_incremental :
    mode p previous marker = .incremental ↔
      p.assemble = true ∧ ∃ timestamp, previous.timestamp = some timestamp ∧
        marker = some timestamp := by
  unfold mode Record.isTrustedBy
  cases p.assemble with
  | false => simp
  | true =>
    cases previous.timestamp with
    | none => simp
    | some mine =>
      cases marker with
      | none => simp
      | some theirs => simp [eq_comm]

theorem isIncremental_iff : m.isIncremental = true ↔ m = .incremental := by
  cases m with
  | incremental => simp [RedeployMode.isIncremental]
  | full reason => simp [RedeployMode.isIncremental]

/-! ## One function -/

theorem hash?_eq (f : FunctionSpec) : hash? (f, hasher f) = (hasher f).toOption := by
  unfold hash?
  cases hasher f with
  | error e => rfl
  | ok hash => rfl

theorem isDeploy_eq_false {decision : Decision} :
    decision.isDeploy = false ↔ ∃ d, decision = .reuse d := by
  cases decision with
  | reuse d => simp [Decision.isDeploy]
  | deploy d => simp [Decision.isDeploy]

/-- A function is decided on by whether it keeps its version. -/
theorem keeps_iff :
    Keeps previous hasher m f ↔ (decisionOf p previous hasher m f).isDeploy = false := by
  rw [decisionOf, isDeploy_eq_false]
  constructor
  · rintro ⟨hmode, d, hash, hget, hrecorded, hcurrent⟩
    refine ⟨d, decide_eq_reuse.2 ⟨isIncremental_iff.2 hmode, hget, ?_⟩⟩
    exact isCurrent_iff.2 ⟨hash, hrecorded, by rw [hash?_eq, Outcome.toOption_eq_some, hcurrent]⟩
  · rintro ⟨d, hreuse⟩
    obtain ⟨hmode, hget, hcurrent⟩ := decide_eq_reuse.1 hreuse
    obtain ⟨hash, hrecorded, hhash⟩ := isCurrent_iff.1 hcurrent
    rw [hash?_eq, Outcome.toOption_eq_some] at hhash
    exact ⟨isIncremental_iff.1 hmode, d, hash, hget, hrecorded, hhash⟩

theorem unchanged_iff :
    Unchanged previous hasher f ↔
      (previous.get? f.entryPoint).any (·.isCurrent (hasher f).toOption) = true := by
  simp only [Option.any_eq_true, isCurrent_iff, Outcome.toOption_eq_some, Unchanged]
  constructor
  · rintro ⟨d, hash, hget, hrest⟩
    exact ⟨d, hget, hash, hrest⟩
  · rintro ⟨d, hget, hash, hrest⟩
    exact ⟨d, hash, hget, hrest⟩

instance : Decidable (Unchanged previous hasher f) := decidable_of_iff _ unchanged_iff.symm

instance : Decidable (Keeps previous hasher m f) := inferInstanceAs (Decidable (_ ∧ _))

/-- A function that keeps its version keeps its whole entry. -/
theorem deployed_of_keeps (h : Keeps previous hasher m f) :
    previous.get? f.entryPoint = some (decisionOf p previous hasher m f).deployed := by
  obtain ⟨d, hreuse⟩ := isDeploy_eq_false.1 (keeps_iff.1 h)
  rw [hreuse]
  exact (decide_eq_reuse.1 hreuse).2.1

/-- Any other function has the fresh version, with the fingerprint it has now if any. -/
theorem deployed_of_not_keeps (h : ¬Keeps previous hasher m f) :
    (decisionOf p previous hasher m f).deployed = ⟨freshVersion p f, (hasher f).toOption⟩ := by
  rw [keeps_iff (p := p), decisionOf] at h
  rw [decisionOf, ← hash?_eq]
  unfold decide at h ⊢
  cases hcarried : carried? previous m.isIncremental (f, hasher f) with
  | none => rfl
  | some d => simp [hcarried, Decision.isDeploy] at h

/-! ## A valid project -/

/-- What a project without a fault has: entry points that are all different, and an artifact to
share where functions have none of their own. -/
theorem valid_of_fault? (hp : p.fault? = none) :
    Project.repeatedEntryPoint? [] p.functions = none ∧
      (p.assemble = false → p.sharedArtifact ≠ none) := by
  unfold Project.fault? at hp
  split at hp
  · cases hp
  split at hp
  · cases hp
  split at hp
  · cases hp
  · rename_i hrepeated
    refine ⟨hrepeated, fun hassemble hshared => ?_⟩
    simp [hassemble, hshared] at hp

/-- The fresh version is that of the function's own artifact, or of the one that every function
shares. -/
theorem freshVersion_eq (hp : p.fault? = none) (f : FunctionSpec) :
    ∃ artifact, (if p.assemble then artifact = f.artifact else p.sharedArtifact = some artifact) ∧
      freshVersion p f = ⟨p.timestamp ++ "/" ++ artifact⟩ := by
  unfold freshVersion sharedArtifact?
  cases hassemble : p.assemble with
  | true => exact ⟨f.artifact, rfl, rfl⟩
  | false =>
    obtain ⟨artifact, hshared⟩ :=
      Option.ne_none_iff_exists'.1 ((valid_of_fault? hp).2 hassemble)
    refine ⟨artifact, hshared, ?_⟩
    rw [hshared]
    rfl

/-- Functions whose entry points do not repeat have different ones. -/
theorem apart_of_repeatedEntryPoint? {fs : List FunctionSpec} {seen : List String}
    (h : Project.repeatedEntryPoint? seen fs = none) :
    (∀ f ∈ fs, f.entryPoint ∉ seen) ∧ fs.Pairwise (·.entryPoint ≠ ·.entryPoint) := by
  induction fs generalizing seen with
  | nil => simp
  | cons f fs ih =>
    unfold Project.repeatedEntryPoint? at h
    split at h
    · cases h
    · rename_i hseen
      obtain ⟨hfs, hapart⟩ := ih h
      refine ⟨fun g hg => ?_, List.pairwise_cons.2 ⟨fun g hg heq => ?_, hapart⟩⟩
      · rcases List.mem_cons.1 hg with rfl | hg
        · simpa using hseen
        · exact fun hmem => hfs g hg (List.mem_cons_of_mem _ hmem)
      · exact hfs g hg (heq ▸ List.mem_cons_self)

/-- Among functions that are apart, the entry point tells the function. -/
theorem eq_of_entryPoint {fs : List FunctionSpec} {g : FunctionSpec}
    (h : fs.Pairwise (·.entryPoint ≠ ·.entryPoint)) (hf : f ∈ fs) (hg : g ∈ fs)
    (heq : f.entryPoint = g.entryPoint) : f = g := by
  induction fs with
  | nil => cases hf
  | cons e fs ih =>
    obtain ⟨he, hfs⟩ := List.pairwise_cons.1 h
    rcases List.mem_cons.1 hf with hf | hf
    · rcases List.mem_cons.1 hg with hg | hg
      · rw [hf, hg]
      · exact absurd (hf ▸ heq) (he g hg)
    · rcases List.mem_cons.1 hg with hg | hg
      · exact absurd (hg ▸ heq.symm) (he f hf)
      · exact ih hfs hf hg

theorem apart_active (hp : p.fault? = none) (stage : Stage) :
    (p.active stage).Pairwise (·.entryPoint ≠ ·.entryPoint) :=
  ((apart_of_repeatedEntryPoint? (valid_of_fault? hp).1).2).filter _

/-! ## The record -/

/-- An entry that is not set again later is read back. -/
theorem get?_foldl_set {ds : List (Hashed × Decision)} (r : Record) {entryPoint : String}
    (h : ∀ x ∈ ds, x.1.1.entryPoint ≠ entryPoint) :
    (ds.foldl (fun r d => r.set d.1.1.entryPoint d.2.deployed) r).get? entryPoint =
      r.get? entryPoint := by
  induction ds generalizing r with
  | nil => rfl
  | cons x ds ih =>
    rw [List.foldl_cons, ih _ fun y hy => h y (List.mem_cons_of_mem _ hy)]
    exact TextMap.get?_insert_of_ne (h x List.mem_cons_self) _ _

/-- Among functions that are apart, each has the entry that was decided for it. -/
theorem get?_foldl_set_of_mem {ds : List (Hashed × Decision)} (r : Record)
    (hds : ds.Pairwise (·.1.1.entryPoint ≠ ·.1.1.entryPoint)) {x : Hashed × Decision}
    (hx : x ∈ ds) :
    (ds.foldl (fun r d => r.set d.1.1.entryPoint d.2.deployed) r).get? x.1.1.entryPoint =
      some x.2.deployed := by
  induction ds generalizing r with
  | nil => cases hx
  | cons y ds ih =>
    obtain ⟨hy, hds⟩ := List.pairwise_cons.1 hds
    rw [List.foldl_cons]
    rcases List.mem_cons.1 hx with rfl | hx
    · rw [get?_foldl_set _ fun z hz => (hy z hz).symm]
      exact TextMap.get?_insert_self ..
    · exact ih _ hds hx

/-- The decisions of a plan, function by function. -/
theorem decisions_plan :
    decisions p previous (mode p previous marker).isIncremental
        ((p.active stage).map fun f => (f, hasher f)) =
      (p.active stage).map fun f => ((f, hasher f), decisionOf p previous hasher (mode p previous marker) f) := by
  rw [decisions, List.map_map]
  rfl

/-- The record to be saved has, for an active function, what was decided for it. -/
theorem get?_record (hp : p.fault? = none) (hf : f ∈ p.active stage) :
    (plan p stage previous marker hasher).record.get? f.entryPoint =
      some (decisionOf p previous hasher (mode p previous marker) f).deployed := by
  show (record p.timestamp (decisions p previous _ _)).get? f.entryPoint = _
  rw [decisions_plan]
  refine get?_foldl_set_of_mem _ ?_ (List.mem_map.2 ⟨f, hf, rfl⟩)
  exact List.pairwise_map.2 (apart_active hp stage)

/-- And it has no other entry. -/
theorem get?_record_eq_none {entryPoint : String}
    (h : ∀ f ∈ p.active stage, f.entryPoint ≠ entryPoint) :
    (plan p stage previous marker hasher).record.get? entryPoint = none := by
  show (record p.timestamp (decisions p previous _ _)).get? entryPoint = _
  rw [decisions_plan]
  refine (get?_foldl_set _ fun x hx => ?_).trans rfl
  obtain ⟨f, hf, rfl⟩ := List.mem_map.1 hx
  exact h f hf

/-! ## The lists of a plan -/

theorem toDeploy_plan :
    (plan p stage previous marker hasher).toDeploy =
      (p.active stage).filter fun f => ¬Keeps previous hasher (mode p previous marker) f := by
  show deployed (decisions p previous _ _) = _
  rw [decisions_plan, deployed, List.filter_map, List.map_map]
  refine (List.map_id _).trans (List.filter_congr fun f _ => ?_)
  simp [keeps_iff (p := p)]

theorem reused_plan :
    (plan p stage previous marker hasher).reused =
      ((p.active stage).filter fun f => Keeps previous hasher (mode p previous marker) f).map
        FunctionSpec.entryPoint := by
  show (kept (decisions p previous _ _)).map _ = _
  rw [decisions_plan, kept, List.filter_map, List.map_map, List.map_map]
  refine congrArg (List.map _) (List.filter_congr fun f _ => ?_)
  simp [keeps_iff (p := p)]

theorem tokens_plan :
    (plan p stage previous marker hasher).tokens =
      .ofList ((p.active stage).map fun f =>
        (f.versionToken,
          (decisionOf p previous hasher (mode p previous marker) f).deployed.version.key)) := by
  show tokens (decisions p previous _ _) = _
  rw [decisions_plan, tokens, List.map_map]
  rfl

/-- Every active function has its token bound to the version that is recorded for it. -/
theorem tokens_eq_recorded (hp : p.fault? = none) :
    (plan p stage previous marker hasher).tokens =
      .ofList ((p.active stage).filterMap fun f =>
        ((plan p stage previous marker hasher).record.get? f.entryPoint).map fun d =>
          (f.versionToken, d.version.key)) := by
  rw [tokens_plan]
  refine congrArg Substitutions.ofList (List.filterMap_eq_map_iff_forall_eq_some.2 ?_).symm
  intro f hf
  rw [get?_record hp hf]
  rfl

/-- A compilation with an artifact for each function uploads those of the functions it deploys. -/
theorem uploads_of_assemble (hassemble : p.assemble = true) (fs : List FunctionSpec) :
    uploads p fs = fs.map fun f => ⟨f.artifact, ⟨p.timestamp ++ "/" ++ f.artifact⟩⟩ := by
  rw [uploads, sharedArtifact?, hassemble]
  rfl

/-- One with a shared artifact uploads that, if it deploys anything. -/
theorem uploads_of_shared {artifact : String} (hassemble : p.assemble = false)
    (hshared : p.sharedArtifact = some artifact) (fs : List FunctionSpec) :
    uploads p fs =
      if fs = [] then [] else [⟨artifact, ⟨p.timestamp ++ "/" ++ artifact⟩⟩] := by
  rw [uploads, sharedArtifact?, hassemble, hshared]
  cases fs with
  | nil => rfl
  | cons f fs => rfl

/-- A function whose entry point is reused is one that keeps its version. -/
theorem keeps_of_mem_reused (hp : p.fault? = none) (hf : f ∈ p.active stage)
    (hreused : f.entryPoint ∈ (plan p stage previous marker hasher).reused) :
    Keeps previous hasher (mode p previous marker) f := by
  rw [reused_plan, List.mem_map] at hreused
  obtain ⟨g, hg, heq⟩ := hreused
  obtain ⟨hactive, hkeeps⟩ := List.mem_filter.1 hg
  rw [← eq_of_entryPoint (apart_active hp stage) hactive hf heq]
  exact of_decide_eq_true hkeeps

/-- The warnings name the functions that could not be hashed. -/
theorem entryPoint_hashWarnings (fs : List FunctionSpec) :
    ((fs.map fun f => (f, hasher f)).filterMap warning?).map HashWarning.entryPoint =
      (fs.filter fun f => !(hasher f).isOk).map FunctionSpec.entryPoint := by
  induction fs with
  | nil => rfl
  | cons f fs ih =>
    rw [List.map_cons, List.filterMap_cons, List.filter_cons]
    cases hf : hasher f with
    | ok hash => exact ih
    | error e => exact congrArg _ ih

/-- A fresh version is the recorded one exactly if the entry to be saved has the version of the
entry that was there. -/
theorem isReissued_eq (hp : p.fault? = none)
    (hf : f ∈ (plan p stage previous marker hasher).toDeploy) :
    isReissued p previous f =
      ((previous.get? f.entryPoint).map Deployed.version =
        ((plan p stage previous marker hasher).record.get? f.entryPoint).map
          Deployed.version : Bool) := by
  rw [toDeploy_plan, List.mem_filter] at hf
  obtain ⟨hactive, hkeeps⟩ := hf
  rw [get?_record hp hactive, deployed_of_not_keeps (of_decide_eq_true hkeeps), isReissued]
  cases previous.get? f.entryPoint with
  | none => simp
  | some d => simp

/-! ## The whole decision -/

/-- What a plan for a stage has to be, for the functions that are active in the stage. -/
structure Meets (p : Project) (stage : Stage) (previous : Record) (marker : Option String)
    (hasher : FunctionSpec → Except HashError ContentHash) (plan : RedeployPlan) : Prop where
  /-- Only a record that names the compilation of the marker is built upon. -/
  mode : plan.mode = .incremental ↔
    p.assemble = true ∧ ∃ timestamp, previous.timestamp = some timestamp ∧
      marker = some timestamp
  reused : plan.reused =
    ((p.active stage).filter fun f => Keeps previous hasher plan.mode f).map
      FunctionSpec.entryPoint
  toDeploy : plan.toDeploy =
    (p.active stage).filter fun f => ¬Keeps previous hasher plan.mode f
  timestamp : plan.record.timestamp = some p.timestamp
  /-- The record is about the active functions and no others. -/
  keys (entryPoint : String) : (plan.record.get? entryPoint).isSome ↔
    ∃ f ∈ p.active stage, f.entryPoint = entryPoint
  /-- A reused function keeps its entry as it is. -/
  reusedEntry : ∀ f ∈ p.active stage, Keeps previous hasher plan.mode f →
    plan.record.get? f.entryPoint = previous.get? f.entryPoint
  /-- A deployed function has a version of this compilation and the fingerprint it has now. -/
  deployedEntry : ∀ f ∈ plan.toDeploy, ∃ artifact,
    (if p.assemble then artifact = f.artifact else p.sharedArtifact = some artifact) ∧
      plan.record.get? f.entryPoint =
        some ⟨⟨p.timestamp ++ "/" ++ artifact⟩, (hasher f).toOption⟩
  hashWarnings : plan.hashWarnings.map HashWarning.entryPoint =
    ((p.active stage).filter fun f => !(hasher f).isOk).map FunctionSpec.entryPoint
  /-- Reissued are the deployed functions whose version stays what it was. -/
  reissued : plan.reissued =
    (plan.toDeploy.filter fun f =>
      (previous.get? f.entryPoint).map Deployed.version =
        (plan.record.get? f.entryPoint).map Deployed.version).map FunctionSpec.entryPoint
  /-- Uploaded are the artifacts of the deployed functions, -/
  uploads : p.assemble = true → plan.uploads =
    plan.toDeploy.map fun f => ⟨f.artifact, ⟨p.timestamp ++ "/" ++ f.artifact⟩⟩
  /-- or once the artifact that all functions share. -/
  uploadsShared : ∀ artifact, p.assemble = false → p.sharedArtifact = some artifact →
    plan.uploads =
      if plan.toDeploy = [] then [] else [⟨artifact, ⟨p.timestamp ++ "/" ++ artifact⟩⟩]
  /-- A token is bound to the version that the record has for its function. -/
  tokens : plan.tokens = .ofList ((p.active stage).filterMap fun f =>
    (plan.record.get? f.entryPoint).map fun d => (f.versionToken, d.version.key))

/-- The plan for a valid project is the specified one, whatever the record, the marker and the
hasher are. -/
theorem plan_meets (p : Project) (hp : p.fault? = none) (stage : Stage) (previous : Record)
    (marker : Option String) (hasher : FunctionSpec → Except HashError ContentHash) :
    Meets p stage previous marker hasher (plan p stage previous marker hasher) where
  mode := mode_eq_incremental
  reused := reused_plan
  toDeploy := toDeploy_plan
  timestamp := record_spec.2.1
  keys entryPoint := by
    by_cases hactive : ∃ f ∈ p.active stage, f.entryPoint = entryPoint
    · obtain ⟨f, hf, rfl⟩ := hactive
      simpa [get?_record hp hf] using ⟨f, hf, rfl⟩
    · rw [get?_record_eq_none fun f hf heq => hactive ⟨f, hf, heq⟩]
      simpa using hactive
  reusedEntry f hf hkeeps := by
    rw [get?_record hp hf, deployed_of_keeps hkeeps]
    rfl
  deployedEntry f hf := by
    rw [toDeploy_plan, List.mem_filter] at hf
    obtain ⟨artifact, hartifact, hversion⟩ := freshVersion_eq hp f
    refine ⟨artifact, hartifact, ?_⟩
    rw [get?_record hp hf.1, deployed_of_not_keeps (of_decide_eq_true hf.2), hversion]
  hashWarnings := entryPoint_hashWarnings _
  reissued := congrArg _ (List.filter_congr fun _ hf => isReissued_eq hp hf)
  uploads hassemble := uploads_of_assemble hassemble _
  uploadsShared _ hassemble hshared := uploads_of_shared hassemble hshared _
  tokens := tokens_eq_recorded hp

namespace Sample

/-- A function of the sample project. -/
def function (entryPoint : String) (stages : List String) : FunctionSpec :=
  ⟨entryPoint, entryPoint ++ ".zip", stages, entryPoint ++ "-version", []⟩

/-- Three functions for development, and one that only runs in production. -/
def project : Project :=
  ⟨"shop", "t2", [function "cart" ["dev"], function "pay" ["dev"], function "audit" ["prod"],
    function "mail" ["dev"]], [], [], [], true, none⟩

/-- The record of the compilation before, with the cart as it still is. -/
def recorded : Record :=
  ((Record.ofCompilation "t1").set "cart" ⟨.mint "t1" "cart.zip", some (.ofText "c")⟩).set "pay"
    ⟨.mint "t2" "pay.zip", some (.ofText "p")⟩

/-- The mail function has no compiled output. -/
def hashes (f : FunctionSpec) : Except HashError ContentHash :=
  if f.entryPoint = "mail" then .error (.notFound "mail")
  else if f.entryPoint = "cart" then .ok (.ofText "c")
  else .ok (.ofText "changed")

end Sample

theorem plan_meets_sample :
    Sample.project.fault? = none ∧
      Meets Sample.project .dev Sample.recorded (some "t1") Sample.hashes
        (plan Sample.project .dev Sample.recorded (some "t1") Sample.hashes) :=
  have hp : Sample.project.fault? = none := by decide
  ⟨hp, plan_meets _ hp _ _ _ _⟩

/-- The cart keeps its version; the payment function, whose recorded version is the fresh one,
and the mail function without a fingerprint are deployed. -/
example :
    (plan Sample.project .dev Sample.recorded (some "t1") Sample.hashes).reused = ["cart"] ∧
      (plan Sample.project .dev Sample.recorded (some "t1") Sample.hashes).reissued = ["pay"] := by
  decide

end Rollout.Redeploy
