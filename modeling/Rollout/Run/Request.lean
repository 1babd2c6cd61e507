import Rollout.Event
import Rollout.Failure
import Rollout.Files.Source
import Rollout.Project.Files
import Rollout.Run.Schedule

/-!
The requests a run makes of the world around it, and the answer each of them has. A run knows
the cloud, the records and its own machine through these alone.
-/

namespace Rollout

/-- A call of the object store. -/
inductive StoreCall where
  | put (bucket key : String) (body : ByteArray)
  | get (bucket key : String)
  | url (bucket key : String)
  | listObjects (bucket : String) (token : Option String)
  | delete (bucket key : String)
  | listVersions (bucket : String) (cursor : Option VersionCursor)
  | deleteVersion (bucket key id : String)
  | deleteBucket (bucket : String)
deriving DecidableEq

/-- What a call of the object store results in. -/
@[reducible] def StoreCall.Result : StoreCall → Type
  | put .. => Unit
  | get .. => Option ByteArray
  | url .. => String
  | listObjects .. => KeyPage
  | delete .. => Unit
  | listVersions .. => VersionPage
  | deleteVersion .. => Unit
  | deleteBucket _ => Unit

/-- A call of the stack provider. -/
inductive StackCall where
  | create (name body : String)
  | update (name url : String)
  | delete (name : String)
  | status (name : String)
  | listExports (token : Option String)
deriving DecidableEq, Repr

/-- What a call of the stack provider results in. -/
@[reducible] def StackCall.Result : StackCall → Type
  | create .. => CreateOutcome
  | update .. => UpdateOutcome
  | delete _ => Unit
  | status _ => StackStatus
  | listExports _ => ExportPage

/-- A call of the records. -/
inductive RecordCall where
  | load (stage : Stage)
  | save (stage : Stage) (r : Record)
  | delete (stage : Stage)
deriving DecidableEq

/-- What a call of the records results in. -/
@[reducible] def RecordCall.Result : RecordCall → Type
  | load _ => Record
  | save .. => Unit
  | delete _ => Unit

/-- A look at the machine the run is on. -/
inductive LocalCall where
  | project
  | template (kind : TemplateKind) (stage : Stage)
  | fingerprint (f : FunctionSpec)
  | read (p : Path)
  | source (p : Path)
deriving DecidableEq

/-- What a look at the machine shows. -/
@[reducible] def LocalCall.Answer : LocalCall → Type
  | project => Except Failure Project
  | template .. => Except Failure String
  | fingerprint _ => Except HashError ContentHash
  | read _ => Except FileError ByteArray
  | source _ => Except FileError UploadSource

/-- What a run asks about its own course. -/
inductive ControlCall where
  /-- Whether the run was asked to stop. -/
  | isCancelled
  /-- The time that has passed, in milliseconds. -/
  | now
  | sleep (duration : Nat)
  | emit (e : Event)
  /-- How jobs run by so many workers come to their end. -/
  | schedule (jobs workers : Nat)
deriving DecidableEq, Repr

/-- The answer to a question of a run about its course. -/
@[reducible] def ControlCall.Answer : ControlCall → Type
  | isCancelled => Bool
  | now => Nat
  | sleep _ => Unit
  | emit _ => Unit
  | schedule jobs _ => Schedule jobs

/-- A request of a run. -/
inductive Request where
  | store (c : StoreCall)
  | stack (c : StackCall)
  | hook (name : String)
  | record (c : RecordCall)
  | onMachine (c : LocalCall)
  | control (c : ControlCall)

/-- The answer to a request. -/
@[reducible] def Request.Answer : Request → Type
  | store c => Except StoreError c.Result
  | stack c => Except ProviderError c.Result
  | hook _ => HookOutcome
  | record c => Except RecordError c.Result
  | onMachine c => c.Answer
  | control c => c.Answer

end Rollout
