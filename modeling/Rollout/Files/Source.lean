import Rollout.Files.Tree

/-!
What a path leads to when its content is to be uploaded.
-/

namespace Rollout

/-- What a path leads to: a file, a directory with the regular files below it in their order, or
nothing that can be uploaded. -/
inductive UploadSource where
  | file
  | directory (files : List (List String))
  | missing
deriving DecidableEq, Repr

/-- What a path leads to, links followed. -/
def FileTree.uploadSource (t : FileTree) (p : Path) : Except FileError UploadSource :=
  if t.isDir p then (t.filesBelow p).map .directory
  else if t.isFile p then .ok .file
  else .ok .missing

end Rollout
