import Rollout.CommandLine.Context
import Rollout.Run.World

/-!
An invocation of the program, from its arguments to its exit code, in a world whose cloud is on
disk.
-/

namespace Rollout.CommandLine

/-- A part of what is written to standard output. -/
inductive OutputPart where
  | event (e : Event)
  | text (s : String)
deriving DecidableEq, Repr

/-- How an invocation ended. -/
structure Ended where
  exitCode : Nat
  output : List OutputPart
  error : Option String
  warnings : List ConfigWarning
deriving DecidableEq

namespace Ended

/-- The end of arguments that do not ask for a run. -/
def usage (e : UsageError) : Ended :=
  ⟨e.exitCode, if e = .displayVersion then [.text versionLine] else [], none, []⟩

/-- The end of a command that failed. -/
def failed (output : List OutputPart) (warnings : List ConfigWarning) (t : Trouble) : Ended :=
  ⟨1, output, some t.line, warnings⟩

end Ended

/-- The events a command writes to standard output: all of them, or in text mode none. -/
def streamed (a : Arguments) (events : List Event) : List OutputPart :=
  if a.json then events.map .event else []

/-- The end of a command whose run is over. -/
def concluded (env : Environment) (a : Arguments) (warnings : List ConfigWarning)
    (events : List Event) : Except Failure Report.Outcome → Ended
  | .error f => .failed (streamed a events) warnings (.failed f)
  | .ok o =>
    ⟨0, streamed a events ++ [.text (withNewline (o.render (reportFormat env a)))], none,
      warnings⟩

/-- The holder of a lock that an invocation takes. -/
def lockHolder : String := "invocation"

/-- Runs a command whose lock is taken, if it needs one. -/
def runCommand (env : Environment) (a : Arguments) (c : Context) (warnings : List ConfigWarning)
    (patience : Nat) (t : FileTree) : Option Ended × FileTree :=
  match c.config.cloudRoot c.settings.projectRoot with
  | .error f => (some (.failed [] warnings (.failed f)), t)
  | .ok cloudRoot =>
    let site := c.settings.site (.atRoot t cloudRoot)
    let (outcome, w) := (commandRun a c patience).run.run site.handler (.start t)
    (outcome.map (concluded env a warnings w.events), w.files)

/-- Runs a command under the lock of its project. -/
def runLocked (env : Environment) (a : Arguments) (c : Context) (warnings : List ConfigWarning)
    (patience : Nat) (t : FileTree) : Option Ended × FileTree :=
  if a.command.needsLock then
    match takeLock c.settings lockHolder t with
    | (.error trouble, t) => (some (.failed [] warnings trouble), t)
    | (.ok _, t) =>
      let (ended, t) := runCommand env a c warnings patience t
      (ended, releaseLock t lockHolder)
  else runCommand env a c warnings patience t

/-- Runs the program. There is no end if patience ran out. -/
def invoke (args : List String) (env : Environment) (patience : Nat) (t : FileTree) :
    Option Ended × FileTree :=
  match parse args with
  | .error e => (some (.usage e), t)
  | .ok a =>
    match configure t env a with
    | .error trouble => (some (.failed [] [] trouble), t)
    | .ok configured =>
      let warnings := shownWarnings env a configured.warnings
      match configured.context a with
      | .error trouble => (some (.failed [] warnings trouble), t)
      | .ok c => runLocked env a c warnings patience t

end Rollout.CommandLine
