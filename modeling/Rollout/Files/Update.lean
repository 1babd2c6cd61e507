import Rollout.Files.Tree

/-!
Changing a tree of files. The single steps either happen or leave the tree as it was. What an
operation does to the disk is a list of effects, performed in order up to the first that
fails; a prefix of the list is what a crash leaves behind.
-/

namespace Rollout

/-- A computation over the files of a machine. What it changed stays changed when it fails. -/
abbrev Disk (ε α : Type) : Type := ExceptT ε (StateM FileTree) α

/-- One change of the disk. -/
inductive Effect where
  /-- Makes a directory, and the directories above it. -/
  | makeDirs (p : Path)
  /-- Puts a file with the given bytes in place, at once, above it its directories. -/
  | replace (p : Path) (content : ByteArray)
  /-- Removes a file if it is there. -/
  | discard (p : Path)
  /-- Removes a file. -/
  | remove (p : Path)
  /-- Removes a directory with everything in it. -/
  | removeTree (p : Path)
  /-- Adds bytes at the end of a file, which need not exist yet. -/
  | append (p : Path) (content : ByteArray)
deriving DecidableEq

namespace FileTree

/-- The tree with a new directory. -/
def makeDir (t : FileTree) (p : Path) : Except FileError FileTree := do
  let l ← t.locate p false
  match t.entry? l with
  | some _ => throw .alreadyExists
  | none => return t.put l .dir

/-- The directories still to make for a path, the outermost first, and whether one more above
them was looked for in vain. -/
def makeDirsFrom (t : FileTree) : Nat → Path → FileTree × Except FileError Unit
  | 0, _ => (t, .error .notFound)
  | fuel + 1, p =>
    if p.isEmpty then (t, .ok ())
    else
      match t.makeDir p with
      | .ok made => (made, .ok ())
      | .error .notFound =>
        match p.parent with
        | none => (t, .error (.other "failed to create whole tree"))
        | some above =>
          match t.makeDirsFrom fuel above with
          | (made, .error e) => (made, .error e)
          | (made, .ok ()) =>
            match made.makeDir p with
            | .ok all => (all, .ok ())
            | .error e => (made, if made.isDir p then .ok () else .error e)
      | .error e => (t, if t.isDir p then .ok () else .error e)

/-- Makes a directory and the directories above it. -/
def makeDirs (t : FileTree) (p : Path) : FileTree × Except FileError Unit :=
  t.makeDirsFrom (p.parts.length + 1) p

/-- The tree with a finished file moved to a path, over what stood there. -/
def moveInto (t : FileTree) (p : Path) (content : ByteArray) : Except FileError FileTree := do
  let l ← t.locate p false
  if p.names.getLast? = some ".." || p.parts.getLast? = some "." then throw .busy
  if p.namesDirectory then throw .notDirectory
  match t.entry? l with
  | some .dir => throw .isDirectory
  | _ => return (t.drop l).put l (.file content)

/-- The directory a file is written in. -/
def directoryOf (p : Path) : Path :=
  match p.parent with
  | some above => if above.isEmpty then Path.ofString "." else above
  | none => Path.ofString "."

/-- Puts a file in place at once: readers see the old file or the new one. -/
def replace (t : FileTree) (p : Path) (content : ByteArray) : FileTree × Except FileError Unit :=
  match t.makeDirs (directoryOf p) with
  | (made, .error e) => (made, .error e)
  | (made, .ok ()) =>
    match made.moveInto p content with
    | .ok all => (all, .ok ())
    | .error e => (made, .error e)

/-- The tree without a file. -/
def remove (t : FileTree) (p : Path) : Except FileError FileTree := do
  let l ← t.locate p false
  match t.entry? l with
  | none => throw .notFound
  | some .dir => throw .isDirectory
  | some _ => return t.drop l

/-- The tree without a directory and its content, or without a link. -/
def removeTree (t : FileTree) (p : Path) : Except FileError FileTree := do
  let l ← t.locate p false
  match t.entry? l with
  | none => throw .notFound
  | some (.file _) => throw .notDirectory
  | some (.link _) => return t.drop l
  | some .dir => return t.dropAll l

/-- The tree with new content in a file, made if it is not there; `change` turns the old
content into the new. -/
def write (t : FileTree) (p : Path) (change : ByteArray → ByteArray) : Except FileError FileTree := do
  let l ← t.locate p true
  if p.namesDirectory then throw .isDirectory
  match t.entry? l with
  | some .dir => throw .isDirectory
  | some (.file old) => return t.put l (.file (change old))
  | some (.link _) => throw .tooManyLinks
  | none => return t.put l (.file (change ByteArray.empty))

end FileTree

namespace Disk

variable {ε α : Type}

/-- Reads the tree without changing it. -/
def reading (f : FileTree → Except ε α) : Disk ε α :=
  fun t => (f t, t)

/-- A single step: the new tree, or a failure that changes nothing. -/
def step (f : FileTree → Except FileError FileTree) : Disk FileError Unit := fun t =>
  match f t with
  | .ok t' => (.ok (), t')
  | .error e => (.error e, t)

/-- Steps that may fail on the way. -/
def steps (f : FileTree → FileTree × Except FileError Unit) : Disk FileError Unit := fun t =>
  match f t with
  | (t', r) => (r, t')

/-- A computation whose failures are told in other words. -/
def mapError {δ : Type} (f : ε → δ) (d : Disk ε α) : Disk δ α := fun t =>
  match d t with
  | (.ok a, t') => (.ok a, t')
  | (.error e, t') => (.error (f e), t')

end Disk

/-- Performs one effect. -/
def Effect.perform : Effect → Disk FileError Unit
  | .makeDirs p => Disk.steps fun t => t.makeDirs p
  | .replace p content => Disk.steps fun t => t.replace p content
  | .discard p => Disk.step fun t => if t.exists? p then t.remove p else .ok t
  | .remove p => Disk.step fun t => t.remove p
  | .removeTree p => Disk.step fun t => t.removeTree p
  | .append p content => Disk.step fun t => t.write p fun old => old ++ content

/-- Performs effects in order, up to the first that fails. -/
def Effect.performAll : List Effect → Disk FileError Unit
  | [] => pure ()
  | e :: es => do e.perform; performAll es

end Rollout
