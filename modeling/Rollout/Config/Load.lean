import Rollout.Config.Environment
import Rollout.Config.Format
import Rollout.Config.Warning
import Rollout.Failure

/-!
Loading the configuration of a project from its file, with warnings about unknown keys.
-/

namespace Rollout.Config

/-- The configuration in a file, and its warnings. -/
def load (t : FileTree) (file : Path) : Except Failure (Config × List ConfigWarning) := do
  let content ← (t.readText file).mapError .files
  match parse? content with
  | none => throw (.config file "not a configuration file")
  | some l => return (l.config, l.unknown.map (ConfigWarning.ofKey file content))

/-- The configuration in a file under an environment, and its warnings. -/
def loadUnder (t : FileTree) (env : Environment) (file : Path) :
    Except Failure (Config × List ConfigWarning) := do
  let (c, warnings) ← load t file
  return (c.override env, warnings)

/-- The configuration of the project in a directory; it need not have a file. -/
def ofProject (t : FileTree) (env : Environment) (root : Path) :
    Except Failure (Config × List ConfigWarning) :=
  let file := root.joinText configFileName
  if t.exists? file then loadUnder t env file else .ok (standard.override env, [])

end Rollout.Config
