import Rollout.Files.Update

/-!
The run lock: one file in the state directory, locked by whoever changes the stages of a
project. The lock belongs to the file, not to its name: a file put in its place is not locked.
-/

namespace Rollout

/-- The name of the lock file. -/
def lockFileName : String := "run.lock"

/-- Why the lock was not taken. -/
inductive LockError where
  | files (e : FileError)
  | held (path : Path)
deriving DecidableEq

/-- The lock file of a state directory. -/
def lockPath (stateDir : Path) : Path := stateDir.joinText lockFileName

/-- Takes the lock of a state directory for a holder. -/
def acquireLock (stateDir : Path) (holder : String) : Disk LockError Path := do
  Disk.mapError .files (Effect.makeDirs stateDir).perform
  let path := lockPath stateDir
  Disk.mapError .files (Disk.step fun t => t.write path id)
  let l ← Disk.mapError .files (Disk.reading fun t => t.locate path true)
  fun t =>
    if t.locks.any fun e => e.1 = l then (.error (.held path), t)
    else (.ok path, { t with locks := (l, holder) :: t.locks })

/-- The tree after a holder let go of its lock. -/
def releaseLock (t : FileTree) (holder : String) : FileTree :=
  { t with locks := t.locks.filter fun e => e.2 ≠ holder }

end Rollout
