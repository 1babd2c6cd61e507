import Rollout.Project.Format
import Rollout.Failure

/-!
The files that the build leaves for a deploy: the project descriptor, and for each stage the
template its stack is created from and the one it is updated to.
-/

namespace Rollout

/-- Where the build leaves the descriptor and the templates. -/
structure ProjectFiles where
  dir : Path
deriving DecidableEq, Repr

/-- The two templates of a stage. -/
inductive TemplateKind where
  | create
  | update
deriving DecidableEq, Repr

/-- The word for a template in its file name. -/
def TemplateKind.text : TemplateKind → String
  | .create => "create"
  | .update => "update"

namespace ProjectFiles

/-- The file of the descriptor. -/
def descriptorPath (d : ProjectFiles) : Path := d.dir.joinText "project.json"

/-- The file of a template. -/
def templatePath (d : ProjectFiles) (kind : TemplateKind) (stage : Stage) : Path :=
  d.dir.joinText ("stack-" ++ kind.text ++ "-" ++ stage.name ++ ".json")

/-- A file that must be there; `missing` is said if it is not. -/
def readRequired (t : FileTree) (p : Path) (missing : Failure) : Except Failure String :=
  if t.exists? p then (t.readText p).mapError .files else .error missing

/-- The project, read and without fault. -/
def load (d : ProjectFiles) (t : FileTree) : Except Failure Project := do
  let p := d.descriptorPath
  let text ← readRequired t p (.descriptorMissing p)
  match Project.parse? text with
  | none => throw (.descriptorInvalid p "not a project descriptor")
  | some project =>
    match project.fault? with
    | some fault => throw (.descriptorInvalid p fault.message)
    | none => return project

/-- A template of a stage. -/
def template (d : ProjectFiles) (t : FileTree) (kind : TemplateKind) (stage : Stage) :
    Except Failure String :=
  let p := d.templatePath kind stage
  readRequired t p (.templateMissing p)

end ProjectFiles

end Rollout
