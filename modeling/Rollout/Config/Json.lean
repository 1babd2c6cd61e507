import Rollout.Config.Settings
import Rollout.Config.Warning
import Rollout.Json.Printer

/-!
A configuration, the settings it gives and the warnings about it as JSON objects.
-/

namespace Rollout

open Json (nat object strOrNull)

/-- A configuration, section by section, under the names of its file. -/
def Config.toJson (c : Config) : Json :=
  object [
    ("deploy", object [
      ("region", strOrNull c.deploy.region),
      ("stage", .str c.deploy.stage),
      ("build_dir", .str c.deploy.buildDir.text),
      ("descriptor_dir", .str c.deploy.descriptorDir.text),
      ("state_dir", .str c.deploy.stateDir.text),
      ("upload_concurrency", nat c.deploy.uploadConcurrency)]),
    ("polling", object [
      ("interval_secs", nat c.polling.interval),
      ("timeout_secs", nat c.polling.timeout)]),
    ("exports", object [
      ("attempts", nat c.exports.attempts),
      ("interval_secs", nat c.exports.interval)]),
    ("provider", object [
      ("kind", .str c.provider.kind.text),
      ("root", .str c.provider.root.text),
      ("endpoint", strOrNull c.provider.endpoint)])]

/-- Settings, with all times in whole seconds. -/
def Settings.toJson (s : Settings) : Json :=
  object [
    ("project_root", .str s.projectRoot.text),
    ("default_stage", .str s.defaultStage.name),
    ("build_dir", .str s.buildDir.text),
    ("descriptor_dir", .str s.descriptorDir.text),
    ("state_dir", .str s.stateDir.text),
    ("upload_concurrency", nat s.uploadConcurrency),
    ("poll_interval_secs", nat (s.poll.interval / 1000)),
    ("poll_timeout_secs", nat (s.poll.timeout / 1000)),
    ("export_attempts", nat s.exports.attempts),
    ("export_interval_secs", nat (s.exports.interval / 1000))]

/-- A warning with its parts and its text. -/
def ConfigWarning.toJson (w : ConfigWarning) : Json :=
  object [
    ("key", .str w.key),
    ("line", (w.line.map nat).getD .null),
    ("suggestion", strOrNull w.suggestion),
    ("text", .str w.text)]

end Rollout
