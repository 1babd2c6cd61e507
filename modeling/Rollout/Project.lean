import Rollout.Stage
import Rollout.TextMap
import Rollout.Files.Path
import Rollout.Text.Blank

/-!
A project as its build describes it: the functions and where they run, and what is to be done
for each stage once its stack is up to date.
-/

namespace Rollout

/-- A function of the project. -/
structure FunctionSpec where
  entryPoint : String
  artifact : String
  /-- The stages the function runs in, in order and each once. -/
  stages : List String
  /-- The token in the stack template that stands for the version of the function. -/
  versionToken : String
  /-- Further compiled files, relative to the build directory. -/
  compiledFiles : List Path
deriving DecidableEq, Repr

/-- An export to look up after the stack update, and what to call its value. -/
structure ExportWatch where
  exportName : String
  token : String
  message : String
deriving DecidableEq, Repr

/-- A file or directory to upload after the stack update. -/
structure FileUpload where
  bucket : String
  source : Path
  target : String
  substitute : Bool
deriving DecidableEq, Repr

/-- What the build says about the project. -/
structure Project where
  name : String
  /-- What tells one compilation from every other. -/
  timestamp : String
  functions : List FunctionSpec
  exports : TextMap (List ExportWatch)
  fileUploads : TextMap (List FileUpload)
  afterDeploy : TextMap (List String)
  /-- Whether every function has an artifact of its own. -/
  assemble : Bool
  sharedArtifact : Option String
deriving DecidableEq, Repr

/-- What is wrong with a project. -/
inductive ProjectFault where
  | emptyName
  | emptyTimestamp
  | duplicateEntryPoint (entryPoint : String)
  | noSharedArtifact
deriving DecidableEq, Repr

/-- The text of a fault. -/
def ProjectFault.message : ProjectFault → String
  | .emptyName => "project_name is empty"
  | .emptyTimestamp => "compilation_timestamp is empty"
  | .duplicateEntryPoint entryPoint => "duplicate entry point '" ++ entryPoint ++ "'"
  | .noSharedArtifact => "assemble is false but no shared_artifact is set"

/-- Whether a function runs in a stage. -/
def FunctionSpec.isActiveIn (f : FunctionSpec) (stage : Stage) : Bool :=
  f.stages.contains stage.name

namespace Project

/-- The first entry point that some function before it has too. -/
def repeatedEntryPoint? (seen : List String) : List FunctionSpec → Option String
  | [] => none
  | f :: fs =>
    if seen.contains f.entryPoint then some f.entryPoint
    else repeatedEntryPoint? (f.entryPoint :: seen) fs

/-- The first fault of a project, if it has one. -/
def fault? (p : Project) : Option ProjectFault :=
  if Text.isBlankText p.name then some .emptyName
  else if Text.isBlankText p.timestamp then some .emptyTimestamp
  else
    match repeatedEntryPoint? [] p.functions with
    | some entryPoint => some (.duplicateEntryPoint entryPoint)
    | none =>
      if !p.assemble && p.sharedArtifact.isNone then some .noSharedArtifact else none

/-- The functions that run in a stage. -/
def active (p : Project) (stage : Stage) : List FunctionSpec :=
  p.functions.filter fun f => f.isActiveIn stage

/-- The exports to look up for a stage. -/
def exportsFor (p : Project) (stage : Stage) : List ExportWatch :=
  (TextMap.get? stage.name p.exports).getD []

/-- The files to upload for a stage. -/
def fileUploadsFor (p : Project) (stage : Stage) : List FileUpload :=
  (TextMap.get? stage.name p.fileUploads).getD []

/-- The hooks to invoke for a stage. -/
def hooksFor (p : Project) (stage : Stage) : List String :=
  (TextMap.get? stage.name p.afterDeploy).getD []

end Project

end Rollout
