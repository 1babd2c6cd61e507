import Rollout.Run.World

/-!
Faults for rehearsals: rules that raise the cancellation flag or give an answer of their own
when a service is called for the n-th time, with everything else left to the world.
-/

namespace Rollout

/-- An answer a fault gives in place of the service. -/
inductive Reply where
  | storeError (e : StoreError)
  | providerError (e : ProviderError)
  | status (s : StackStatus)
  | exports (page : ExportPage)
  | hookError (e : HookError)
  | crash
deriving DecidableEq, Repr

/-- A fault: the calls it counts, which of these it strikes, and what it does then. -/
structure Fault where
  method : String
  /-- If given, only calls about this key are counted. -/
  key : Option String
  /-- The first call that is struck, counted from one. -/
  nth : Nat
  /-- How many calls in a row are struck. -/
  count : Nat
  cancel : Bool
  reply : Option Reply
deriving DecidableEq, Repr

/-- The name of a call of the object store, and the key it is about. -/
def StoreCall.signature : StoreCall → String × Option String
  | .put _ key _ => ("put_object", some key)
  | .get _ key => ("get_object", some key)
  | .url _ key => ("object_url", some key)
  | .listObjects .. => ("list_objects", none)
  | .delete _ key => ("delete_object", some key)
  | .listVersions .. => ("list_object_versions", none)
  | .deleteVersion _ key _ => ("delete_object_version", some key)
  | .deleteBucket _ => ("delete_bucket", none)

/-- The name of a call of the stack provider. -/
def StackCall.method : StackCall → String
  | .create .. => "create_stack"
  | .update .. => "update_stack"
  | .delete _ => "delete_stack"
  | .status _ => "stack_status"
  | .listExports _ => "list_exports"

/-- The name of a request that faults can strike, and the key it is about. -/
def Request.signature? : Request → Option (String × Option String)
  | .store c => some c.signature
  | .stack c => some (c.method, none)
  | .hook name => some ("invoke", some name)
  | _ => none

/-- Whether a fault counts a call. -/
def Fault.counts (f : Fault) (method : String) (key : Option String) : Bool :=
  f.method = method && (f.key.isNone || f.key = key)

/-- Whether a fault strikes the call that is its so-manyeth. -/
def Fault.strikes (f : Fault) (call : Nat) : Bool :=
  f.nth ≤ call && call < f.nth + f.count

/-- The answer of the object store that a reply stands for. -/
def Reply.forStore? (c : StoreCall) : Reply → Option (Except StoreError c.Result)
  | .storeError e => some (.error e)
  | _ => none

/-- The answer of the stack provider that a reply stands for. -/
def Reply.forStack? : (c : StackCall) → Reply → Option (Except ProviderError c.Result)
  | _, .providerError e => some (.error e)
  | .status _, .status s => some (.ok s)
  | .listExports _, .exports page => some (.ok page)
  | _, _ => none

/-- The outcome of an invocation that a reply stands for. -/
def Reply.forHook? : Reply → Option HookOutcome
  | .hookError e => some (.answered (.error e))
  | .crash => some .crashed
  | _ => none

/-- The answer that a reply stands for, if it can answer the request. -/
def Reply.answer? : (r : Request) → Reply → Option r.Answer
  | .store c, reply => reply.forStore? c
  | .stack c, reply => reply.forStack? c
  | .hook _, reply => reply.forHook?
  | _, _ => none

/-- Faults, each with the number of calls it has counted. -/
abbrev FaultState := List (Fault × Nat)

/-- The faults of a rehearsal at its start. -/
def FaultState.start (faults : List Fault) : FaultState := faults.map fun f => (f, 0)

/-- The faults after one more call, and those that strike it. -/
def FaultState.count (s : FaultState) (r : Request) : FaultState × List Fault :=
  match r.signature? with
  | none => (s, [])
  | some (method, key) =>
    let s := s.map fun (f, n) => if f.counts method key then (f, n + 1) else (f, n)
    (s, (s.filter fun (f, n) => f.counts method key && f.strikes n).map (·.1))

/-- A world in which faults strike, over the world of a site. -/
def Site.answerWithFaults (site : Site) (r : Request) (s : FaultState × World) :
    r.Answer × (FaultState × World) :=
  let (faults, struck) := s.1.count r
  let w := if struck.any Fault.cancel then { s.2 with cancelled := true } else s.2
  match struck.findSome? fun f => f.reply.bind (Reply.answer? r) with
  | some a => (a, faults, w)
  | none =>
    let (a, w) := site.answer r w
    (a, faults, w)

/-- The handler of a world in which faults strike. -/
def Site.faultyHandler (site : Site) : Handler (FaultState × World) := ⟨site.answerWithFaults⟩

end Rollout
