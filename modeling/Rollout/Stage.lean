/-!
Stages and the names derived from them. A stage is a named environment of a project; it owns
one stack, which publishes the name of its deployment bucket as an export.
-/

namespace Rollout

/-- A character of a stage name: an ASCII letter or digit, a hyphen or an underscore. -/
def isStageChar (c : Char) : Bool :=
  c.isAlphanum || c = '-' || c = '_'

/-- Whether a text may name a stage: it is not empty and all its characters are allowed. -/
def isStageName (name : String) : Bool :=
  !name.toList.isEmpty && name.toList.all isStageChar

/-- A stage, by its name. -/
structure Stage where
  name : String
  valid : isStageName name = true
deriving DecidableEq

namespace Stage

/-- The stage with a given name, if the name is allowed. -/
def ofName? (name : String) : Option Stage :=
  if h : isStageName name = true then some ⟨name, h⟩ else none

/-- The stage used when none is named. -/
def dev : Stage := ⟨"dev", by decide⟩

instance : Inhabited Stage := ⟨dev⟩

/-- The name of the stack of a project's stage. -/
def stackName (project : String) (stage : Stage) : String :=
  project ++ "-" ++ stage.name

/-- No name of a stage has a slash in it. -/
theorem slash_not_mem (stage : Stage) : '/' ∉ stage.name.toList := by
  intro hmem
  have hvalid := stage.valid
  simp only [isStageName, Bool.and_eq_true, List.all_eq_true] at hvalid
  exact absurd (hvalid.2 _ hmem) (by decide)

end Stage

/-- The export under which a stack publishes its deployment bucket. -/
def bucketExport (stack : String) : String :=
  stack ++ "-DeploymentBucketName"

end Rollout
