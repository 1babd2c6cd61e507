import Rollout.Config
import Rollout.Number.Decimal
import Rollout.Text.Blank
import Rollout.Text.Lowercase
import Rollout.TextMap

/-!
Environment variables that stand above the configuration file. A variable whose text cannot be
read as what it sets is passed over.
-/

namespace Rollout

/-- Environment variables and their values. -/
abbrev Environment := TextMap String

namespace Config

/-- The kind of cloud named by a variable; blanks around it and its case do not matter. -/
def providerKindOf? (text : String) : Option ProviderKind :=
  ProviderKind.ofText? (Text.lowercase (Text.trim text))

/-- The value a variable sets, or the one that stands. -/
def setting {α : Type} (env : Environment) (name : String) (read : String → Option α)
    (standing : α) : α :=
  ((env.get? name).bind read).getD standing

/-- The variables that stand above the configuration file. -/
def variableNames : List String :=
  ["LIFTOFF_REGION", "LIFTOFF_STAGE", "LIFTOFF_BUILD_DIR", "LIFTOFF_DESCRIPTOR_DIR",
   "LIFTOFF_STATE_DIR", "LIFTOFF_UPLOAD_CONCURRENCY", "LIFTOFF_POLL_INTERVAL_SECS",
   "LIFTOFF_POLL_TIMEOUT_SECS", "LIFTOFF_EXPORT_ATTEMPTS", "LIFTOFF_EXPORT_INTERVAL_SECS",
   "LIFTOFF_PROVIDER", "LIFTOFF_LOCAL_ROOT", "LIFTOFF_ENDPOINT"]

/-- The section about the deploy under an environment. -/
def overrideDeploy (env : Environment) (d : DeploySection) : DeploySection :=
  { region := setting env "LIFTOFF_REGION" (fun s => some (some s)) d.region
    stage := setting env "LIFTOFF_STAGE" some d.stage
    buildDir := setting env "LIFTOFF_BUILD_DIR" (fun s => some (.ofString s)) d.buildDir
    descriptorDir :=
      setting env "LIFTOFF_DESCRIPTOR_DIR" (fun s => some (.ofString s)) d.descriptorDir
    stateDir := setting env "LIFTOFF_STATE_DIR" (fun s => some (.ofString s)) d.stateDir
    uploadConcurrency :=
      setting env "LIFTOFF_UPLOAD_CONCURRENCY" (Number.parseBelow? UInt64.size)
        d.uploadConcurrency }

/-- The configuration under an environment. -/
def override (env : Environment) (c : Config) : Config :=
  { deploy := overrideDeploy env c.deploy
    polling :=
      ⟨setting env "LIFTOFF_POLL_INTERVAL_SECS" (Number.parseBelow? UInt64.size) c.polling.interval,
       setting env "LIFTOFF_POLL_TIMEOUT_SECS" (Number.parseBelow? UInt64.size) c.polling.timeout⟩
    exports :=
      ⟨setting env "LIFTOFF_EXPORT_ATTEMPTS" (Number.parseBelow? UInt32.size) c.exports.attempts,
       setting env "LIFTOFF_EXPORT_INTERVAL_SECS" (Number.parseBelow? UInt64.size)
        c.exports.interval⟩
    provider :=
      ⟨setting env "LIFTOFF_PROVIDER" providerKindOf? c.provider.kind,
       setting env "LIFTOFF_LOCAL_ROOT" (fun s => some (.ofString s)) c.provider.root,
       setting env "LIFTOFF_ENDPOINT" (fun s => some (some s)) c.provider.endpoint⟩ }

end Config

end Rollout
