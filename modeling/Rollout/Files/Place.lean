import Rollout.Files.Update

/-!
Setting up a tree of files: putting things where they are wanted, whatever is there, and taking
them away. What cannot be done is left out.
-/

namespace Rollout.FileTree

/-- The tree with the directories above a path. -/
def withParent (t : FileTree) (p : Path) : FileTree :=
  match p.parent with
  | some dir => (t.makeDirs dir).1
  | none => t

/-- A new tree, or the old one. -/
def orSame (t : FileTree) : Except FileError FileTree → FileTree
  | .ok t' => t'
  | .error _ => t

/-- The tree with a file and the directories above it. -/
def placeFile (t : FileTree) (p : Path) (content : ByteArray) : FileTree :=
  let t := t.withParent p
  t.orSame (t.write p fun _ => content)

/-- The tree with a link and the directories above it. -/
def placeLink (t : FileTree) (p : Path) (target : String) : FileTree :=
  let t := t.withParent p
  t.orSame ((t.locate p false).map fun l => t.put l (.link target))

/-- The tree with a directory and those above it. -/
def placeDir (t : FileTree) (p : Path) : FileTree := (t.makeDirs p).1

/-- The tree without a file, a link or a directory. -/
def clear (t : FileTree) (p : Path) : FileTree :=
  match t.remove p with
  | .ok t' => t'
  | .error _ => t.orSame (t.removeTree p)

end Rollout.FileTree
