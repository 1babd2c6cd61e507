import Rollout.Cloud.StackProvider
import Rollout.Cloud.Hook

/-!
A cloud on disk: the three services over one directory.
-/

namespace Rollout

/-- The services of a cloud. -/
structure DiskCloud where
  objects : ObjectStore
  provider : StackProvider
  hooks : HookInvoker
deriving DecidableEq, Repr

namespace DiskCloud

/-- How many keys or versions a page of a listing holds if nothing else is said. -/
def standardPageSize : Nat := 1000

/-- How many exports a page holds if nothing else is said. -/
def standardExportPageSize : Nat := 100

/-- The cloud in a directory, with given page sizes (one at least), and the functions that fail
besides those listed in the directory. -/
def atRootWith (t : FileTree) (root : Path) (pageSize exportPageSize : Nat)
    (failing : List String) : DiskCloud :=
  let objects : ObjectStore := ⟨root, max pageSize 1⟩
  { objects
    provider := ⟨root, objects, max (.ofNat exportPageSize) 1⟩
    hooks := .atRoot t root failing }

/-- The cloud in a directory. -/
def atRoot (t : FileTree) (root : Path) : DiskCloud :=
  atRootWith t root standardPageSize standardExportPageSize []

end DiskCloud

end Rollout
