import Rollout.CommandLine.Arguments
import Rollout.Config.Load
import Rollout.Config.Settings
import Rollout.Files.Lock
import Rollout.Log.Filter
import Rollout.Report.Json

/-!
What a command needs before it can run: the directory of the project, its configuration under
the environment and the arguments, the stage, and how the report is to be written.
-/

namespace Rollout.CommandLine

/-- Why a command failed. -/
inductive Trouble where
  | noProjectDir (dir : String) (cause : FileError)
  | failed (f : Failure)
deriving DecidableEq, Repr

/-- The line about a command that failed: the failure, what is behind it, and whether it may
pass. -/
def Trouble.line : Trouble → String
  | .noProjectDir dir cause =>
    "error: project directory " ++ dir ++ " not found: " ++ cause.message
  | .failed f =>
    "error: " ++ Text.join ": " (f.message :: f.causes) ++
      if f.isRetryable then " (re-running may succeed)" else ""

/-- The configuration a command works with, from where it was read, and its warnings. -/
structure Configured where
  root : Path
  config : Config
  warnings : List ConfigWarning
deriving DecidableEq, Repr

/-- The configuration with the region asked for. -/
def withRegion (region : Option String) (c : Config) : Config :=
  match region with
  | some r => { c with deploy := { c.deploy with region := some r } }
  | none => c

/-- Finds the project and reads its configuration. Without a file of its own, the configuration of
the project is under the environment already when the environment is applied. -/
def configure (t : FileTree) (env : Environment) (a : Arguments) : Except Trouble Configured := do
  let root ← (t.canonical (.ofString a.projectDir)).mapError (.noProjectDir a.projectDir)
  let (config, warnings) ←
    (match a.config with
      | some file => Config.load t (root.joinText file)
      | none => Config.ofProject t env root).mapError Trouble.failed
  return ⟨root, withRegion a.region (config.override env), warnings⟩

/-- What a command runs with. -/
structure Context where
  config : Config
  settings : Settings
  stage : Stage
deriving DecidableEq

/-- The settings of a configuration, and the stage asked for or the one configured. -/
def Configured.context (c : Configured) (a : Arguments) : Except Trouble Context := do
  let settings ← (c.config.settings c.root).mapError Trouble.failed
  match a.stage with
  | some name => return ⟨c.config, settings, ← (Stage.named name).mapError Trouble.failed⟩
  | none => return ⟨c.config, settings, settings.defaultStage⟩

/-- Where the log lines about the configuration come from. -/
def configLogSource : String := "liftoff::commands::context"

/-- The variable that asks for a log filter. -/
def logVariable : String := "RUST_LOG"

/-- The variable that names the terminal. -/
def terminalVariable : String := "TERM"

/-- The warnings that the log shows. -/
def shownWarnings (env : Environment) (a : Arguments) (warnings : List ConfigWarning) :
    List ConfigWarning :=
  let filter := LogFilter.text a.verbose a.json (env.get? logVariable)
  if LogFilter.shows filter configLogSource LogFilter.warnRank then warnings else []

/-- How the report is written: with signs in ASCII for a terminal that says it is dumb. -/
def reportFormat (env : Environment) (a : Arguments) : Report.Format :=
  if a.json then .json else .text ⟨env.get? terminalVariable ≠ some "dumb", a.verbose⟩

/-- A report with a line break at its end. -/
def withNewline (text : String) : String :=
  if Text.endsWith "\n" text then text else text ++ "\n"

/-- What a command does, as a run. -/
def commandRun (a : Arguments) (c : Context) (patience : Nat) : Run Report.Outcome :=
  match a.command with
  | .deploy => return .deploy (← deploy c.settings patience ⟨c.stage, a.skipHooks⟩)
  | .destroy => return .destroy (← destroy c.settings patience c.stage)
  | .plan => return .plan (← plan c.settings patience c.stage)

/-- Whether a command changes anything, and so needs the lock of the project. -/
def CommandName.needsLock : CommandName → Bool
  | .plan => false
  | _ => true

/-- Takes the lock of a project. -/
def takeLock (s : Settings) (holder : String) : Disk Trouble Path :=
  (acquireLock s.stateDir holder).mapError fun
    | .files e => .failed (.files e)
    | .held p => .failed (.locked p)

/-- The name and the version of the program. -/
def versionLine : String := "liftoff 0.4.0\n"

/-- The exit code of arguments that do not ask for a run. -/
def UsageError.exitCode : UsageError → Nat
  | .displayHelp | .displayVersion => 0
  | _ => 2

end Rollout.CommandLine
