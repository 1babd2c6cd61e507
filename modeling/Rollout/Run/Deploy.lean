import Rollout.Config.Settings
import Rollout.Run.Lifecycle
import Rollout.Run.Tracking

/-!
A deploy of one stage. Until the record is committed every failure ends the run, and leaves
record and marker as they were. What follows the commit may fall short: an export that does not
appear and a hook that fails become warnings of the report.
-/

namespace Rollout

/-- An export that was found, with what to say before its value. -/
structure ResolvedExport where
  name : String
  message : String
  value : String
deriving DecidableEq, Repr

/-- A file that was uploaded. -/
structure UploadedFile where
  bucket : String
  key : String
deriving DecidableEq, Repr

/-- What a deploy did. -/
structure DeployReport where
  stack : String
  stage : Stage
  created : Bool
  bucket : String
  mode : RedeployMode
  deployed : List String
  reused : List String
  uploaded : List String
  templateUrl : String
  stackUpdated : Bool
  outputs : List ResolvedExport
  files : List UploadedFile
  hooksSucceeded : List String
  hookFailures : List HookError
  warnings : List String
deriving DecidableEq

/-- Whether nothing fell short. -/
def DeployReport.isClean (r : DeployReport) : Bool :=
  r.hookFailures.isEmpty && r.warnings.isEmpty

/-- Whether anything was changed in the cloud. -/
def DeployReport.hasChanges (r : DeployReport) : Bool :=
  r.created || r.stackUpdated || !r.uploaded.isEmpty

/-- What a deploy is asked to do. -/
structure DeployOptions where
  stage : Stage
  skipHooks : Bool
deriving DecidableEq

/-- How a run of these settings waits. -/
def Settings.waiting (s : Settings) (patience : Nat) : Waiting := ⟨s.poll, s.exports, patience⟩

namespace Deploy

/-- The project, as the build left it. -/
def loadProject : Run Project :=
  Run.ofProgram id (Program.request (.onMachine .project))

/-- A template of a stage. -/
def readTemplate (kind : TemplateKind) (stage : Stage) : Run String :=
  Run.ofProgram id (Program.request (.onMachine (.template kind stage)))

/-- Waits for a stack, and reports its status. -/
def awaitStack (w : Waiting) (stack : String) : Run Unit := do
  let status ← Lifecycle.pollUntilTerminal w stack
  Run.emit (.stackReady stack status.text)

/-- Creates the stack of a stage unless it exists; whether it was created. -/
def ensureStack (w : Waiting) (stack : String) (stage : Stage) : Run Bool := do
  let body ← readTemplate .create stage
  match ← Lifecycle.create stack body with
  | .created =>
    Run.emit (.stackCreating stack)
    awaitStack w stack
    return true
  | .alreadyExists =>
    Run.emit (.stackExists stack)
    return false

/-- The deployment bucket of a stack. -/
def resolveBucket (w : Waiting) (stack : String) : Run String := do
  match ← Lifecycle.findExport w (bucketExport stack) with
  | .found bucket => return bucket
  | .notFound _ => throw (.bucketNotFound (bucketExport stack))

/-- The uploads of a plan, from the build directory. -/
def pendingUploads (buildDir : Path) (plan : RedeployPlan) : List PendingUpload :=
  plan.uploads.map fun u => ⟨buildDir.joinText u.artifact, u.version.key⟩

/-- Renders and stores the template of a stage; its URL. -/
def uploadTemplate (bucket : String) (stage : Stage) (values : Substitutions) : Run String := do
  let template ← readTemplate .update stage
  let url ← Artifacts.uploadTemplate bucket (values.render template).toUTF8
  Run.emit (.templateUploaded url)
  return url

/-- Updates a stack; whether that changed it. -/
def updateStack (w : Waiting) (stack url : String) : Run Bool := do
  match ← Lifecycle.update stack url with
  | .updating =>
    Run.emit (.stackUpdating stack)
    awaitStack w stack
    return true
  | .noChanges =>
    Run.emit (.stackUnchanged stack)
    return false

/-- What looking up exports came to: those found, their values bound to their tokens, and
warnings about the others. -/
structure Resolution where
  values : Substitutions
  outputs : List ResolvedExport
  warnings : List String

/-- The warning about an export that did not appear. -/
def missingExport (watch : ExportWatch) (attempts : Nat) : String :=
  "export " ++ watch.exportName ++ " not found after " ++ toString attempts ++
    " attempt(s); " ++ watch.token ++ " left unresolved"

/-- Looks up exports, one after the other. -/
def resolveExports (w : Waiting) : List ExportWatch → Resolution → Run Resolution
  | [], r => return r
  | watch :: rest, r => do
    match ← Lifecycle.findExport w watch.exportName with
    | .found value =>
      Run.emit (.exportResolved watch.exportName value)
      resolveExports w rest
        { r with
          values := r.values.insert watch.token value
          outputs := r.outputs ++ [⟨watch.exportName, watch.message, value⟩] }
    | .notFound attempts =>
      Run.emit (.exportUnavailable watch.exportName)
      resolveExports w rest { r with warnings := r.warnings ++ [missingExport watch attempts] }

/-- Reports the files uploaded to a bucket. -/
def reportFiles (bucket : String) : List String → Run (List UploadedFile)
  | [] => return []
  | key :: keys => do
    Run.emit (.fileUploaded bucket key)
    return ⟨bucket, key⟩ :: (← reportFiles bucket keys)

/-- Does the file uploads of a stage. -/
def uploadFiles (projectRoot : Path) (values : Substitutions) :
    List FileUpload → Run (List UploadedFile)
  | [] => return []
  | u :: us => do
    Run.checkCancelled
    let keys ← Artifacts.uploadPath u.bucket (projectRoot.join u.source) u.target
      (if u.substitute then some values else none)
    let files ← reportFiles u.bucket keys
    return files ++ (← uploadFiles projectRoot values us)

/-- An invocation as a success or an error. An invoker that broke down did not invoke. -/
def hookResult (name : String) : HookOutcome → Except HookError Unit
  | .answered r => r
  | .crashed => .error (.notInvoked name "hook invocation panicked")

/-- Invokes hooks in the order given. -/
def invokeEach : List String → Program (List (Except HookError Unit))
  | [] => .done []
  | name :: names =>
    .ask (.hook name) fun outcome =>
      (invokeEach names).bind fun rest => .done (hookResult name outcome :: rest)

/-- The hooks that succeeded, and the errors of those that did not. -/
structure HookReport where
  succeeded : List String
  failures : List HookError

/-- Reports the outcomes of hooks. -/
def reportHooks : List (String × Except HookError Unit) → Program HookReport
  | [] => .done ⟨[], []⟩
  | (name, .ok ()) :: rest =>
    (Program.request (.control (.emit (.hookSucceeded name)))).bind fun _ =>
      (reportHooks rest).bind fun r => .done { r with succeeded := name :: r.succeeded }
  | (name, .error e) :: rest =>
    (Program.request (.control (.emit (.hookFailed name e.message)))).bind fun _ =>
      (reportHooks rest).bind fun r => .done { r with failures := e :: r.failures }

/-- Runs hooks side by side, and reports on them in the order they are listed in. -/
def runHooks (names : List String) : Program HookReport :=
  .ask (.control (.schedule names.length names.length)) fun order =>
    (invokeEach (order.arrange names)).bind fun outcomes =>
      reportHooks (names.zip (order.restore outcomes))

/-- The warning about a function without a fingerprint. -/
def unhashedWarning (h : HashWarning) : String :=
  "could not hash " ++ h.entryPoint ++ ", redeploying it: " ++ h.message

/-- The warnings of a plan. -/
def planWarnings (plan : RedeployPlan) : List String :=
  plan.hashWarnings.map unhashedWarning ++ plan.reissued.map Tracking.reissuedWarning

/-- The stage with its stack and its deployment bucket, and what is going to be done to them. -/
structure Prepared where
  project : Project
  stack : String
  created : Bool
  bucket : String
  plan : RedeployPlan
  warnings : List String

/-- The first part of a deploy: everything up to the decision what to redeploy. -/
def prepare (w : Waiting) (stage : Stage) : Run Prepared := do
  let project ← loadProject
  let stack := stage.stackName project.name
  Run.emit (.started "deploy" stack stage.name)
  let loaded ← Run.liftProgram (Tracking.load stage)
  let created ← ensureStack w stack stage
  let bucket ← resolveBucket w stack
  Run.emit (.bucketResolved bucket)
  let marker ← Artifacts.readMarker bucket
  let plan ← Run.liftProgram (Tracking.decide project stage loaded.record marker)
  Run.emit (.planComputed plan.mode.isIncremental plan.toDeploy.length plan.total)
  return {
    project, stack, created, bucket, plan
    warnings := Tracking.warnings loaded ++ planWarnings plan }

/-- The URL of the stored template, and whether the stack changed. -/
structure Applied where
  templateUrl : String
  stackUpdated : Bool

/-- The second part of a deploy: uploads, the update of the stack, and the commit. -/
def apply (s : Settings) (w : Waiting) (stage : Stage) (p : Prepared) : Run Applied := do
  Run.checkCancelled
  Artifacts.uploadAll p.bucket s.uploadConcurrency (pendingUploads s.buildDir p.plan)
  Run.checkCancelled
  let url ← uploadTemplate p.bucket stage p.plan.tokens
  let updated ← updateStack w p.stack url
  Tracking.commit stage p.plan.record p.bucket
  Run.emit (.recordCommitted p.project.timestamp)
  return ⟨url, updated⟩

/-- The last part of a deploy: exports, files and hooks. -/
def finish (s : Settings) (w : Waiting) (options : DeployOptions) (p : Prepared) (a : Applied) :
    Run DeployReport := do
  let stage := options.stage
  let found ← resolveExports w (p.project.exportsFor stage) ⟨p.plan.tokens, [], []⟩
  let files ← uploadFiles s.projectRoot found.values (p.project.fileUploadsFor stage)
  let hooks ←
    if options.skipHooks then pure ⟨[], []⟩
    else Run.liftProgram (runHooks (p.project.hooksFor stage))
  let report : DeployReport :=
    { stack := p.stack
      stage
      created := p.created
      bucket := p.bucket
      mode := p.plan.mode
      deployed := p.plan.toDeploy.map FunctionSpec.entryPoint
      reused := p.plan.reused
      uploaded := p.plan.uploadKeys
      templateUrl := a.templateUrl
      stackUpdated := a.stackUpdated
      outputs := found.outputs
      files
      hooksSucceeded := hooks.succeeded
      hookFailures := hooks.failures
      warnings := p.warnings ++ found.warnings }
  Run.emit (.completed "deploy" report.uploaded.length report.reused.length
    (report.warnings.length + report.hookFailures.length))
  return report

end Deploy

/-- Deploys a stage. -/
def deploy (s : Settings) (patience : Nat) (options : DeployOptions) : Run DeployReport := do
  let w := s.waiting patience
  let prepared ← Deploy.prepare w options.stage
  let applied ← Deploy.apply s w options.stage prepared
  Deploy.finish s w options prepared applied

end Rollout
