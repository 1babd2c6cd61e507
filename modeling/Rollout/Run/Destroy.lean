import Rollout.Run.Deploy

/-!
Destroying a stage: its deployment bucket goes first, then its stack, and in the end the record
is forgotten, so that a run that was cut off can be made again.
-/

namespace Rollout

/-- What destroying a stage did. -/
structure DestroyReport where
  stack : String
  stage : Stage
  stackExisted : Bool
  bucket : Option String
  removedObjects : Nat
  warnings : List String
deriving DecidableEq

namespace Destroy

/-- The warning about a stack whose deployment bucket is not known. -/
def bucketUnknown (attempts : Nat) : String :=
  "deployment bucket export not found after " ++ toString attempts ++
    " attempt(s); deleting the stack anyway"

/-- Takes down the deployment bucket of a stack, as far as it is known. -/
def removeBucket (w : Waiting) (stack : String) (r : DestroyReport) : Run DestroyReport := do
  match ← Lifecycle.findExport w (bucketExport stack) with
  | .found bucket =>
    let removed ← Artifacts.tearDown w.patience bucket
    Run.emit (.bucketEmptied bucket removed)
    return { r with removedObjects := removed, bucket := some bucket }
  | .notFound attempts => return { r with warnings := r.warnings ++ [bucketUnknown attempts] }

/-- Deletes a stack and waits until it is gone. -/
def removeStack (w : Waiting) (stack : String) : Run Unit := do
  Lifecycle.delete stack
  let _ ← Lifecycle.pollUntilTerminal w stack
  Run.emit (.stackDeleted stack)

/-- Takes down a stack with its bucket, if there is one. -/
def removeAll (w : Waiting) (stack : String) (r : DestroyReport) : Run DestroyReport := do
  let status ← Lifecycle.status stack
  if status.isGone then return r
  else
    let r ← removeBucket w stack { r with stackExisted := true }
    removeStack w stack
    return r

end Destroy

/-- Destroys a stage. -/
def destroy (s : Settings) (patience : Nat) (stage : Stage) : Run DestroyReport := do
  let w := s.waiting patience
  let project ← Deploy.loadProject
  let stack := stage.stackName project.name
  Run.emit (.started "destroy" stack stage.name)
  let r ← Destroy.removeAll w stack ⟨stack, stage, false, none, 0, []⟩
  Tracking.forget stage
  Run.emit (.completed "destroy" 0 0 r.warnings.length)
  return r

end Rollout
