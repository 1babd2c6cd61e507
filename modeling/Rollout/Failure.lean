import Rollout.Cloud.Service
import Rollout.Redeploy

/-!
Why a run failed. Each failure is a cause with what is known about it; its text is put together
in one place.
-/

namespace Rollout

/-- An error of the deployment records. -/
inductive RecordError where
  | files (path : Path) (text : String)
  | unreadable (path : Path) (text : String)
  | format (path : Path) (found expected : Nat)
deriving DecidableEq, Repr

/-- The text of a record error. -/
def RecordError.message : RecordError → String
  | .files path text => "I/O error on " ++ path.text ++ ": " ++ text
  | .unreadable path text => "unreadable deployment record " ++ path.text ++ ": " ++ text
  | .format path found expected =>
    "deployment record " ++ path.text ++ " has format version " ++ toString found ++
      ", expected " ++ toString expected

/-- An upload of a batch that failed. -/
structure UploadFailure where
  key : String
  message : String
deriving DecidableEq, Repr

/-- Why a run failed. -/
inductive Failure where
  | descriptorMissing (path : Path)
  | descriptorInvalid (path : Path) (text : String)
  | templateMissing (path : Path)
  | stackRejected (operation stack : String) (cause : ProviderError)
  | stackFailed (stack : String) (status : StackStatus)
  | pollTimeout (stack : String) (waited : Nat)
  | cancelled
  | bucketNotFound (exportName : String)
  | upload (key : String) (cause : StoreError)
  | uploadsFailed (failures : List UploadFailure)
  | download (bucket key : String) (cause : StoreError)
  | bucketTeardown (bucket : String) (cause : StoreError)
  | provider (cause : ProviderError)
  | record (cause : RecordError)
  | locked (path : Path)
  | config (file : Path) (text : String)
  | invalidStage (name : String)
  | hash (cause : HashError)
  | hook (cause : HookError)
  | files (cause : FileError)
deriving DecidableEq, Repr

namespace Failure

/-- The text of a failure. Waits are told in whole seconds. -/
def message : Failure → String
  | descriptorMissing path =>
    "project descriptor not found at " ++ path.text ++ " - run the build step first"
  | descriptorInvalid path text => "invalid project descriptor " ++ path.text ++ ": " ++ text
  | templateMissing path => "stack template not found at " ++ path.text
  | stackRejected operation stack cause =>
    "unable to " ++ operation ++ " stack '" ++ stack ++ "': " ++ cause.message
  | stackFailed stack status => "stack '" ++ stack ++ "' ended in " ++ status.text
  | pollTimeout stack waited =>
    "stack '" ++ stack ++ "' did not reach a terminal status within " ++
      toString (waited / 1000) ++ "s"
  | cancelled => "operation cancelled"
  | bucketNotFound exportName => "unable to find deployment bucket export '" ++ exportName ++ "'"
  | upload key cause => "failed uploading '" ++ key ++ "': " ++ cause.message
  | uploadsFailed failures =>
    toString failures.length ++ " artifact upload(s) failed: " ++
      Text.join ", " (failures.map fun f => f.key ++ " (" ++ f.message ++ ")")
  | download bucket key cause =>
    "failed reading '" ++ key ++ "' from bucket '" ++ bucket ++ "': " ++ cause.message
  | bucketTeardown bucket cause => "failed to empty bucket '" ++ bucket ++ "': " ++ cause.message
  | provider cause => "stack provider error: " ++ cause.message
  | record cause => "failed to save deployment record: " ++ cause.message
  | locked path => "another deployment is in progress (lock held on " ++ path.text ++ ")"
  | config file text => "invalid configuration in " ++ file.text ++ ": " ++ text
  | invalidStage name =>
    "invalid stage name '" ++ name ++ "': use letters, digits, '-' or '_'"
  | hash cause => cause.message
  | hook cause => cause.message
  | files cause => "IO error: " ++ cause.message

/-- Whether running again may succeed without any change. -/
def isRetryable : Failure → Bool
  | pollTimeout .. | cancelled | bucketNotFound _ | locked _ => true
  | _ => false

/-- The texts of a store error and of what is behind it. -/
def storeCauses (e : StoreError) : List String :=
  match e with
  | .files inner => [e.message, inner.message]
  | _ => [e.message]

/-- The texts of what is behind a failure, the nearest first. -/
def causes : Failure → List String
  | stackRejected _ _ cause => [cause.message]
  | upload _ cause => storeCauses cause
  | download _ _ cause => storeCauses cause
  | bucketTeardown _ cause => storeCauses cause
  | provider cause => [cause.message]
  | record cause => [cause.message]
  | hash (.read _ reason) => [reason]
  | files cause => [cause.message]
  | _ => []

end Failure

end Rollout
