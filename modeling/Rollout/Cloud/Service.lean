import Rollout.Files.Tree
import Rollout.Stack.Status

/-!
What the three services of a cloud answer: the object store, the stack provider and the
function runner. An answer is a result or an error of the service it came from.
-/

namespace Rollout

/-- An error of the object store. -/
inductive StoreError where
  | noSuchBucket (bucket : String)
  | bucketNotEmpty (bucket : String)
  | service (text : String)
  | files (e : FileError)
deriving DecidableEq, Repr

/-- The text of a store error. -/
def StoreError.message : StoreError → String
  | .noSuchBucket bucket => "bucket '" ++ bucket ++ "' does not exist"
  | .bucketNotEmpty bucket => "bucket '" ++ bucket ++ "' is not empty"
  | .service text => "service error: " ++ text
  | .files e => "I/O error: " ++ e.message

/-- An error of the stack provider. -/
inductive ProviderError where
  /-- The provider refused the request. -/
  | rejected (text : String)
  /-- The provider was not reached, or answered what cannot be read. -/
  | unavailable (text : String)
deriving DecidableEq, Repr

/-- The text of a provider error. -/
def ProviderError.message : ProviderError → String
  | .rejected text => "request rejected: " ++ text
  | .unavailable text => "provider unavailable: " ++ text

/-- A hook that did not succeed. -/
inductive HookError where
  | notInvoked (name text : String)
  | failed (name text : String)
deriving DecidableEq, Repr

/-- The text of a hook error. -/
def HookError.message : HookError → String
  | .notInvoked name text => "hook '" ++ name ++ "' could not be invoked: " ++ text
  | .failed name text => "hook '" ++ name ++ "' failed: " ++ text

/-- The hook an error is about. -/
def HookError.hook : HookError → String
  | .notInvoked name _ => name
  | .failed name _ => name

/-- How an invocation ended: with an answer, or with the invoker itself breaking down. -/
inductive HookOutcome where
  | answered (r : Except HookError Unit)
  | crashed

/-- A page of the keys that have a current object. -/
structure KeyPage where
  keys : List String
  next : Option String
deriving DecidableEq, Repr

/-- A stored version of a key. -/
structure ObjectVersion where
  key : String
  id : String
deriving DecidableEq, Repr

/-- A position in a listing of versions; no id stands before every version of the key. -/
structure VersionCursor where
  key : String
  id : Option String
deriving DecidableEq, Repr

/-- A page of versions, delete markers among them. -/
structure VersionPage where
  versions : List ObjectVersion
  next : Option VersionCursor
deriving DecidableEq, Repr

/-- The outcome of a request to create a stack. -/
inductive CreateOutcome where
  | created
  | alreadyExists
deriving DecidableEq, Repr

/-- The outcome of a request to update a stack. -/
inductive UpdateOutcome where
  | updating
  | noChanges
deriving DecidableEq, Repr

/-- A value published by a stack. -/
structure StackExport where
  name : String
  value : String
deriving DecidableEq, Repr

/-- A page of the exports of all stacks. -/
structure ExportPage where
  exports : List StackExport
  next : Option String
deriving DecidableEq, Repr

end Rollout
