import Rollout.Config
import Rollout.Failure
import Rollout.Policy

/-!
The settings of a run: the configuration with its directories placed in the project, its stage
checked and its times turned into policies.
-/

namespace Rollout

/-- The settings of a run. -/
structure Settings where
  projectRoot : Path
  defaultStage : Stage
  buildDir : Path
  descriptorDir : Path
  stateDir : Path
  uploadConcurrency : Nat
  poll : PollPolicy
  exports : RetryPolicy
deriving DecidableEq

/-- A stage by its name, which must be allowed. -/
def Stage.named (name : String) : Except Failure Stage :=
  match Stage.ofName? name with
  | some stage => .ok stage
  | none => .error (.invalidStage name)

/-- The settings of a project in a directory. -/
def Config.settings (c : Config) (root : Path) : Except Failure Settings := do
  return {
    projectRoot := root
    defaultStage := ← Stage.named c.deploy.stage
    buildDir := root.join c.deploy.buildDir
    descriptorDir := root.join c.deploy.descriptorDir
    stateDir := root.join c.deploy.stateDir
    uploadConcurrency := max c.deploy.uploadConcurrency 1
    poll := ⟨seconds c.polling.interval, seconds c.polling.timeout⟩
    exports := .ofAttempts c.exports.attempts (seconds c.exports.interval) }

/-- The directory of the cloud on disk. A cloud elsewhere needs another build of the program. -/
def Config.cloudRoot (c : Config) (root : Path) : Except Failure Path :=
  match c.provider.kind with
  | .onDisk => .ok (root.join c.provider.root)
  | .aws =>
    .error (.config (root.joinText configFileName)
      "provider 'aws' requires a build with the `aws` feature")

end Rollout
