import Rollout.Event

/-!
Events as lines of a log, each with a level and a message for people.
-/

namespace Rollout

/-- How much a log line matters. -/
inductive LogLevel where
  | info
  | warn
deriving DecidableEq, Repr

/-- The name of a level. -/
def LogLevel.text : LogLevel → String
  | .info => "INFO"
  | .warn => "WARN"

/-- The rank of a level among those a filter knows. -/
def LogLevel.rank : LogLevel → Nat
  | .warn => 2
  | .info => 3

namespace Event

/-- The level of an event: what went missing or wrong is a warning. -/
def level : Event → LogLevel
  | exportUnavailable _ | hookFailed .. => .warn
  | _ => .info

/-- An event in words. -/
def message : Event → String
  | started command stack stage => command ++ " " ++ stack ++ " (stage " ++ stage ++ ")"
  | stackCreating stack => "creating stack " ++ stack
  | stackExists stack => "stack " ++ stack ++ " exists, updating"
  | stackReady stack status => "stack " ++ stack ++ " is " ++ status
  | bucketResolved bucket => "deployment bucket: " ++ bucket
  | planComputed incremental toDeploy total =>
    if incremental then
      "incremental deploy: " ++ toString toDeploy ++ " of " ++ toString total ++
        " functions changed"
    else "full deploy: " ++ toString toDeploy ++ " functions"
  | artifactUploaded index total key =>
    "[" ++ toString index ++ "/" ++ toString total ++ "] uploaded " ++ key
  | templateUploaded url => "template uploaded to " ++ url
  | stackUpdating stack => "updating stack " ++ stack
  | stackUnchanged stack => "stack " ++ stack ++ " already up to date"
  | recordCommitted timestamp => "recorded deployment of build " ++ timestamp
  | exportResolved name value => name ++ " = " ++ value
  | exportUnavailable name => "export " ++ name ++ " never appeared"
  | fileUploaded bucket key => "uploaded s3://" ++ bucket ++ "/" ++ key
  | hookSucceeded name => "hook " ++ name ++ " succeeded"
  | hookFailed name error => "hook " ++ name ++ " failed: " ++ error
  | bucketEmptied bucket removed =>
    "emptied bucket " ++ bucket ++ " (" ++ toString removed ++ " objects and versions)"
  | stackDeleted stack => "stack " ++ stack ++ " deleted"
  | completed command uploaded reused warnings =>
    command ++ " finished: " ++ toString uploaded ++ " uploaded, " ++ toString reused ++
      " reused, " ++ toString warnings ++ " warning(s)"

end Event

end Rollout
