import Rollout.Cloud.Service
import Rollout.Files.Update
import Rollout.Text.Blank
import Rollout.TextMap

/-!
Hooks of the cloud on disk: every invocation is a line of a log, and some functions are known to
fail.
-/

namespace Rollout

/-- An invoker: where its log is, and which functions fail. -/
structure HookInvoker where
  log : Path
  failing : List String
deriving DecidableEq, Repr

namespace HookInvoker

/-- The log of invocations in the directory of a cloud. -/
def logName : String := "invocations.log"

/-- The list of failing functions in the directory of a cloud, one a line. -/
def failingName : String := "failing-hooks"

/-- The invoker of a cloud; `also` fail besides the listed functions. -/
def atRoot (t : FileTree) (root : Path) (also : List String) : HookInvoker :=
  let listed :=
    match t.readText (root.joinText failingName) with
    | .ok text => ((Text.lines text).map Text.trim).filter fun line => line ≠ ""
    | .error _ => []
  ⟨root.joinText logName, listed ++ also⟩

/-- What an invocation does to the disk. -/
def effects (h : HookInvoker) (name : String) : List Effect :=
  (match h.log.parent with
    | some dir => [.makeDirs dir]
    | none => []) ++ [.append h.log (name ++ "\n").toUTF8]

/-- Invokes a function. -/
def invoke (h : HookInvoker) (name : String) : Disk HookError Unit := do
  (Effect.performAll (h.effects name)).mapError fun e => .notInvoked name e.message
  if h.failing.contains name then throw (.failed name "function returned an error")

/-- The functions invoked so far. -/
def invocations (h : HookInvoker) (t : FileTree) : List String :=
  match t.readText h.log with
  | .ok text => Text.lines text
  | .error _ => []

end HookInvoker

end Rollout
