import Rollout.Run.Deploy

/-!
A plan of one stage: what a deploy would do, found out without changing anything.
-/

namespace Rollout

/-- What a deploy would do. -/
structure PlanReport where
  stack : String
  stage : Stage
  stackExists : Bool
  bucket : Option String
  marker : Option String
  mode : RedeployMode
  toDeploy : List String
  reused : List String
  uploads : List String
  warnings : List String
deriving DecidableEq

namespace Plan

/-- The deployment bucket of a stack that may not exist, and warnings. -/
def findBucket (w : Waiting) (stack : String) (stackExists : Bool) :
    Run (Option String × List String) := do
  if stackExists then
    match ← Lifecycle.findExport w (bucketExport stack) with
    | .found bucket => return (some bucket, [])
    | .notFound _ => return (none, ["deployment bucket export not found"])
  else return (none, [])

/-- The marker of a bucket that may not be known. -/
def findMarker : Option String → Run (Option String)
  | some bucket => Artifacts.readMarker bucket
  | none => return none

/-- The warning about a function without a fingerprint. -/
def unhashedWarning (h : HashWarning) : String :=
  "could not hash " ++ h.entryPoint ++ ": " ++ h.message

end Plan

/-- Plans a deploy of a stage. -/
def plan (s : Settings) (patience : Nat) (stage : Stage) : Run PlanReport := do
  let w := s.waiting patience
  let project ← Deploy.loadProject
  let stack := stage.stackName project.name
  let status ← Lifecycle.status stack
  let stackExists := !status.isGone
  let (bucket, bucketWarnings) ← Plan.findBucket w stack stackExists
  let marker ← Plan.findMarker bucket
  let loaded ← Run.liftProgram (Tracking.load stage)
  let p ← Run.liftProgram (Tracking.decide project stage loaded.record marker)
  return {
    stack, stage, stackExists, bucket, marker
    mode := p.mode
    toDeploy := p.toDeploy.map FunctionSpec.entryPoint
    reused := p.reused
    uploads := p.uploads.map fun u => u.version.key
    warnings := bucketWarnings ++ Tracking.warnings loaded ++
      p.hashWarnings.map Plan.unhashedWarning ++ p.reissued.map Tracking.reissuedWarning }

end Rollout
