/-!
What a run reports while it goes on.
-/

namespace Rollout

/-- A step of a run, reported as it happens. -/
inductive Event where
  | started (command stack stage : String)
  | stackCreating (stack : String)
  | stackExists (stack : String)
  | stackReady (stack status : String)
  | bucketResolved (bucket : String)
  | planComputed (incremental : Bool) (toDeploy total : Nat)
  /-- `index` counts the uploads finished so far. -/
  | artifactUploaded (index total : Nat) (key : String)
  | templateUploaded (url : String)
  | stackUpdating (stack : String)
  | stackUnchanged (stack : String)
  | recordCommitted (timestamp : String)
  | exportResolved (name value : String)
  | exportUnavailable (name : String)
  | fileUploaded (bucket key : String)
  | hookSucceeded (name : String)
  | hookFailed (name error : String)
  | bucketEmptied (bucket : String) (removed : Nat)
  | stackDeleted (stack : String)
  | completed (command : String) (uploaded reused warnings : Nat)
deriving DecidableEq, Repr

end Rollout
