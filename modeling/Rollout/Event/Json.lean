import Rollout.Event
import Rollout.Json.Printer

/-!
The event stream: one JSON object per line, in the order of the events. An object says which
event it is and gives its fields by name.
-/

namespace Rollout.Event

open Json (nat)

/-- The fields of an event, its kind first. -/
def fields : Event → List (String × Json)
  | started command stack stage =>
    [("event", .str "start"), ("command", .str command), ("stack", .str stack),
     ("stage", .str stage)]
  | stackCreating stack => [("event", .str "stack_creating"), ("stack", .str stack)]
  | stackExists stack => [("event", .str "stack_exists"), ("stack", .str stack)]
  | stackReady stack status =>
    [("event", .str "stack_ready"), ("stack", .str stack), ("status", .str status)]
  | bucketResolved bucket => [("event", .str "bucket_resolved"), ("bucket", .str bucket)]
  | planComputed incremental toDeploy total =>
    [("event", .str "plan"), ("mode", .str (if incremental then "incremental" else "full")),
     ("to_deploy", nat toDeploy), ("total", nat total)]
  | artifactUploaded index total key =>
    [("event", .str "artifact_uploaded"), ("index", nat index), ("total", nat total),
     ("key", .str key)]
  | templateUploaded url => [("event", .str "template_uploaded"), ("url", .str url)]
  | stackUpdating stack => [("event", .str "stack_updating"), ("stack", .str stack)]
  | stackUnchanged stack => [("event", .str "stack_unchanged"), ("stack", .str stack)]
  | recordCommitted timestamp =>
    [("event", .str "record_committed"), ("timestamp", .str timestamp)]
  | exportResolved name value =>
    [("event", .str "export_resolved"), ("name", .str name), ("value", .str value)]
  | exportUnavailable name => [("event", .str "export_unavailable"), ("name", .str name)]
  | fileUploaded bucket key =>
    [("event", .str "file_uploaded"), ("bucket", .str bucket), ("key", .str key)]
  | hookSucceeded name => [("event", .str "hook_succeeded"), ("name", .str name)]
  | hookFailed name error =>
    [("event", .str "hook_failed"), ("name", .str name), ("error", .str error)]
  | bucketEmptied bucket removed =>
    [("event", .str "bucket_emptied"), ("bucket", .str bucket), ("removed", nat removed)]
  | stackDeleted stack => [("event", .str "stack_deleted"), ("stack", .str stack)]
  | completed command uploaded reused warnings =>
    [("event", .str "complete"), ("command", .str command),
     ("status", .str (if warnings = 0 then "success" else "partial")),
     ("uploaded", nat uploaded), ("reused", nat reused), ("warnings", nat warnings)]

/-- An event as an object. -/
def toJson (e : Event) : Json := .object e.fields

/-- An event as an object that also says when it happened. -/
def stamped (time : String) (e : Event) : Json := .object (e.fields ++ [("ts", .str time)])

/-- An event as a line of the stream. -/
def line (time : String) (e : Event) : String := (e.stamped time).compact ++ "\n"

/-- The lines of events with their times. -/
def stream (events : List (String × Event)) : String :=
  String.join (events.map fun (time, e) => e.line time)

end Rollout.Event
