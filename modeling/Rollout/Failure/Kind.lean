import Rollout.Failure

/-!
The kind of a failure in one word, for programs that tell failures apart.
-/

namespace Rollout

/-- The kind of a store error. -/
def StoreError.kind : StoreError → String
  | .noSuchBucket _ => "NoSuchBucket"
  | .bucketNotEmpty _ => "BucketNotEmpty"
  | .service _ => "Service"
  | .files _ => "Io"

/-- The kind of a provider error. -/
def ProviderError.kind : ProviderError → String
  | .rejected _ => "Rejected"
  | .unavailable _ => "Unavailable"

/-- The kind of a hook error. -/
def HookError.kind : HookError → String
  | .notInvoked .. => "Invoke"
  | .failed .. => "Failed"

/-- The kind of the reason for a missing fingerprint. -/
def HashError.kind : HashError → String
  | .notFound _ => "NotFound"
  | .read .. => "Read"

/-- The kind of a record error. -/
def RecordError.kind : RecordError → String
  | .files .. => "Io"
  | .unreadable .. => "Parse"
  | .format .. => "VersionMismatch"

namespace Failure

/-- The kind of a failure. -/
def kind : Failure → String
  | descriptorMissing _ => "DescriptorMissing"
  | descriptorInvalid .. => "DescriptorInvalid"
  | templateMissing _ => "TemplateMissing"
  | stackRejected .. => "StackRejected"
  | stackFailed .. => "StackFailed"
  | pollTimeout .. => "PollTimeout"
  | cancelled => "Cancelled"
  | bucketNotFound _ => "BucketNotFound"
  | upload .. => "Upload"
  | uploadsFailed _ => "UploadsFailed"
  | download .. => "Download"
  | bucketTeardown .. => "BucketTeardown"
  | provider _ => "Provider"
  | record _ => "Record"
  | locked _ => "Locked"
  | config .. => "Config"
  | invalidStage _ => "InvalidStage"
  | hash _ => "Hash"
  | hook _ => "Hook"
  | files _ => "Io"

/-- The kind of the error behind a failure, if a service gave one. -/
def causeKind? : Failure → Option String
  | stackRejected _ _ e | provider e => some e.kind
  | upload _ e | download _ _ e | bucketTeardown _ e => some e.kind
  | record e => some e.kind
  | hash e => some e.kind
  | hook e => some e.kind
  | _ => none

end Failure

end Rollout
