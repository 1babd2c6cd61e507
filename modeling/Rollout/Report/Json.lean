import Rollout.Json.Printer
import Rollout.Report.Text

/-!
Reports for programs: one JSON object, on one line.
-/

namespace Rollout.Report

open Rollout.Json (nat strs strOrNull)

/-- The report of a deploy. -/
def deployJson (r : DeployReport) : Json :=
  .object [
    ("event", .str "result"),
    ("command", .str "deploy"),
    ("stack", .str r.stack),
    ("stage", .str r.stage.name),
    ("created", .bool r.created),
    ("stack_updated", .bool r.stackUpdated),
    ("mode", .str r.mode.describe),
    ("incremental", .bool r.mode.isIncremental),
    ("deployed", strs r.deployed),
    ("reused", strs r.reused),
    ("uploaded", strs r.uploaded),
    ("template_url", .str r.templateUrl),
    ("outputs", .arr (r.outputs.map fun o =>
      .object [("name", .str o.name), ("value", .str o.value)])),
    ("files", strs (r.files.map fun f => f.bucket ++ "/" ++ f.key)),
    ("hooks_succeeded", strs r.hooksSucceeded),
    ("hook_failures", strs (r.hookFailures.map HookError.message)),
    ("warnings", strs r.warnings)]

/-- The report of a stage that was destroyed. -/
def destroyJson (r : DestroyReport) : Json :=
  .object [
    ("event", .str "result"),
    ("command", .str "destroy"),
    ("stack", .str r.stack),
    ("stage", .str r.stage.name),
    ("stack_existed", .bool r.stackExisted),
    ("bucket", strOrNull r.bucket),
    ("removed_objects", nat r.removedObjects),
    ("warnings", strs r.warnings)]

/-- The report of a plan. -/
def planJson (r : PlanReport) : Json :=
  .object [
    ("event", .str "result"),
    ("command", .str "plan"),
    ("stack", .str r.stack),
    ("stage", .str r.stage.name),
    ("stack_exists", .bool r.stackExists),
    ("marker", strOrNull r.marker),
    ("mode", .str r.mode.describe),
    ("incremental", .bool r.mode.isIncremental),
    ("to_deploy", strs r.toDeploy),
    ("reused", strs r.reused),
    ("uploads", strs r.uploads),
    ("warnings", strs r.warnings)]

/-- How a report is written. -/
inductive Format where
  | text (style : TextStyle)
  | json
deriving DecidableEq, Repr

/-- A report of one of the commands. -/
inductive Outcome where
  | deploy (r : DeployReport)
  | destroy (r : DestroyReport)
  | plan (r : PlanReport)
deriving DecidableEq

/-- A report as an object. -/
def Outcome.toJson : Outcome → Json
  | .deploy r => deployJson r
  | .destroy r => destroyJson r
  | .plan r => planJson r

/-- A report as text. -/
def Outcome.toText (style : TextStyle) : Outcome → String
  | .deploy r => deployText style r
  | .destroy r => destroyText style r
  | .plan r => planText style r

/-- A report as it is written. -/
def Outcome.render : Format → Outcome → String
  | .text style, o => o.toText style
  | .json, o => o.toJson.compact

end Rollout.Report
