import Rollout.Run.Artifacts

/-!
What a run keeps track of between compilations: the record of a stage, on the machine, and the
marker, in the deployment bucket. The record is saved before the marker is published, so a
marker never vouches for a record that was not saved.
-/

namespace Rollout.Tracking

/-- The record of a stage, and why it could not be used if so; then it counts as empty. -/
structure LoadedRecord where
  record : Record
  problem : Option RecordError

/-- Loads the record of a stage. -/
def load (stage : Stage) : Program LoadedRecord :=
  .ask (.record (.load stage)) fun
    | .ok r => .done ⟨r, none⟩
    | .error e => .done ⟨.empty, some e⟩

/-- The warning about a record that could not be used. -/
def warnings (loaded : LoadedRecord) : List String :=
  match loaded.problem with
  | some e => ["local deployment record ignored: " ++ e.message]
  | none => []

/-- The functions of a list with their fingerprints. -/
def fingerprints : List FunctionSpec → Program (List Hashed)
  | [] => .done []
  | f :: fs =>
    .ask (.onMachine (.fingerprint f)) fun hash =>
      (fingerprints fs).bind fun rest => .done ((f, hash) :: rest)

/-- What a deploy of a stage is going to do. -/
def decide (p : Project) (stage : Stage) (previous : Record) (marker : Option String) :
    Program RedeployPlan :=
  (fingerprints (p.active stage)).bind fun hashed =>
    .done (Redeploy.planHashed p previous marker hashed)

/-- Makes a record the one of its stage: saved first, then vouched for by the marker. -/
def commit (stage : Stage) (r : Record) (bucket : String) : Run Unit := do
  Run.record (.save stage r)
  match r.timestamp with
  | some timestamp => Artifacts.publishMarker bucket timestamp
  | none => return ()

/-- Forgets what was deployed in a stage. -/
def forget (stage : Stage) : Run Unit := Run.record (.delete stage)

/-- The warning about a function that changed while the compilation did not. -/
def reissuedWarning (entryPoint : String) : String :=
  entryPoint ++ " changed without a new compilation timestamp; its version key is reused"

end Rollout.Tracking
