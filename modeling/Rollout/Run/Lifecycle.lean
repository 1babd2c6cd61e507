import Rollout.Policy
import Rollout.Run.Program

/-!
The life of a stack, as far as a run has a hand in it: requests to create, update and delete it,
waiting until its status is final, and looking up what it exports.
-/

namespace Rollout

/-- How a run waits. `patience` is how often it goes round a loop that has no bound of its own
before it is left unfinished. -/
structure Waiting where
  poll : PollPolicy
  exports : RetryPolicy
  patience : Nat
deriving DecidableEq, Repr

/-- What came of looking for an export. -/
inductive ExportLookup where
  | found (value : String)
  | notFound (attempts : Nat)
deriving DecidableEq, Repr

namespace Lifecycle

/-- Asks for a stack to be created. -/
def create (name body : String) : Run CreateOutcome :=
  Run.stack (.create name body) (.stackRejected "create" name)

/-- Asks for a stack to be updated to the template behind a URL. -/
def update (name url : String) : Run UpdateOutcome :=
  Run.stack (.update name url) (.stackRejected "update" name)

/-- Asks for a stack to be deleted. -/
def delete (name : String) : Run Unit :=
  Run.stack (.delete name) (.stackRejected "delete" name)

/-- The status of a stack. -/
def status (name : String) : Run StackStatus :=
  Run.stack (.status name) .provider

/-- Asks for the status of a stack until it is final, for so many rounds. -/
def pollFrom (poll : PollPolicy) (name : String) (started : Nat) : Nat → Run StackStatus
  | 0 => Run.unfinished
  | rounds + 1 => do
    Run.checkCancelled
    let s ← status name
    if s.isTerminal then
      if s.isFailure then throw (.stackFailed name s) else return s
    else
      let waited := (← Run.now) - started
      if poll.timeout ≤ waited then throw (.pollTimeout name waited)
      else
        Run.sleep poll.interval
        pollFrom poll name started rounds

/-- Waits until the status of a stack is final. A failure status is a failure of the run. -/
def pollUntilTerminal (w : Waiting) (name : String) : Run StackStatus := do
  pollFrom w.poll name (← Run.now) w.patience

/-- Reads pages of exports from a token on until one has an export of a given name. -/
def scanFrom (exportName : String) :
    Nat → Option String → Program (Except ProviderError (Option String))
  | 0, _ => .unfinished
  | pages + 1, token =>
    .ask (.stack (.listExports token)) fun
      | .error e => .done (.error e)
      | .ok page =>
        match page.exports.find? fun e => e.name = exportName with
        | some e => .done (.ok (some e.value))
        | none =>
          match page.next with
          | some token => scanFrom exportName pages (some token)
          | none => .done (.ok none)

/-- The value of an export, found by one pass over all pages; an error of the provider ends the
pass without a value. -/
def scanExports (w : Waiting) (exportName : String) : Program (Option String) :=
  (scanFrom exportName w.patience none).bind fun
    | .ok value => .done value
    | .error _ => .done none

/-- Looks for an export in so many more passes, with a pause between two of them. -/
def lookUpFrom (w : Waiting) (exportName : String) : Nat → Run ExportLookup
  | 0 => return .notFound w.exports.attempts
  | left + 1 => do
    Run.checkCancelled
    match ← Run.liftProgram (scanExports w exportName) with
    | some value => return .found value
    | none =>
      if 0 < left then Run.sleep w.exports.interval
      lookUpFrom w exportName left

/-- Looks for an export, which may take a while to appear. -/
def findExport (w : Waiting) (exportName : String) : Run ExportLookup :=
  lookUpFrom w exportName w.exports.attempts

end Lifecycle

end Rollout
