import Rollout.Redeploy
import Rollout.Files.Tree

/-!
What a build leaves behind, and the fingerprint of a function in it. The entry point of a
function names a file, a directory, or a class by its dotted name; the files it stands for,
together with those listed for the function, make up its fingerprint, whatever else the build
directory holds.
-/

namespace Rollout

/-- The output of a build. -/
structure BuildOutput where
  dir : Path
deriving DecidableEq, Repr

namespace BuildOutput

/-- The files of a function, by the names the fingerprint knows them by. -/
abbrev Files := TextMap Path

/-- The name of a file in the fingerprint: its place in the build directory. -/
def nameOf (b : BuildOutput) (p : Path) : String := b.dir.relativeText p

/-- The files with one more. -/
def addFile (b : BuildOutput) (p : Path) (files : Files) : Files :=
  TextMap.insert (b.nameOf p) p files

/-- The files with all regular files below a directory. -/
def addTree (b : BuildOutput) (t : FileTree) (dir : Path) (files : Files) :
    Except HashError Files :=
  match t.filesBelow dir with
  | .error e => .error (.read dir e.message)
  | .ok below =>
    .ok (below.foldl (fun files names => b.addFile (dir.join ⟨names⟩) files) files)

/-- Whether a file in a package belongs to a class: up to its first dot it has the name of the
class or of a class inside it. -/
def isOfClass (className file : String) : Bool :=
  let stem := String.ofList (file.toList.takeWhile (· ≠ '.'))
  stem = className || Text.startsWith (className ++ "$") stem

/-- The directory and the name of a class given by its dotted name. -/
def classPlace (b : BuildOutput) (entryPoint : String) : Path × String :=
  let segments := Text.splitString '.' entryPoint
  (segments.dropLast.foldl Path.joinText b.dir, segments.getLastD "")

/-- The files with those of a class. -/
def addClass (b : BuildOutput) (t : FileTree) (entryPoint : String) (files : Files) : Files :=
  let (package, className) := b.classPlace entryPoint
  match t.list package with
  | .error _ => files
  | .ok names =>
    ((names.filter (isOfClass className)).map package.joinText).foldl
      (fun files p => if t.isFile p then b.addFile p files else files) files

/-- The files with those an entry point stands for. -/
def addEntryPoint (b : BuildOutput) (t : FileTree) (entryPoint : String) (files : Files) :
    Except HashError Files :=
  let direct := b.dir.joinText entryPoint
  if t.isFile direct then .ok (b.addFile direct files)
  else if t.isDir direct then b.addTree t direct files
  else .ok (b.addClass t entryPoint files)

/-- The files with a listed one, or with all below a listed directory. -/
def addListed (b : BuildOutput) (t : FileTree) (listed : Path) (files : Files) :
    Except HashError Files :=
  let p := b.dir.join listed
  if t.isDir p then b.addTree t p files
  else if t.isFile p then .ok (b.addFile p files)
  else .error (.read p "listed compiled file is missing")

/-- The files with several listed ones. -/
def addAllListed (b : BuildOutput) (t : FileTree) : List Path → Files → Except HashError Files
  | [], files => .ok files
  | listed :: rest, files =>
    match b.addListed t listed files with
    | .error e => .error e
    | .ok files => addAllListed b t rest files

/-- The files of a function. -/
def filesOf (b : BuildOutput) (t : FileTree) (f : FunctionSpec) : Except HashError Files :=
  match b.addEntryPoint t f.entryPoint [] with
  | .error e => .error e
  | .ok files => b.addAllListed t f.compiledFiles files

/-- The contents of files. -/
def readAll (t : FileTree) : Files → Except HashError (TextMap ByteArray)
  | [] => .ok []
  | (name, p) :: rest =>
    match t.read p with
    | .error e => .error (.read p e.message)
    | .ok content => (readAll t rest).map ((name, content) :: ·)

/-- The eight bytes of a number, the lowest first. -/
def lengthBytes (n : Nat) : List UInt8 :=
  (List.range 8).map fun i => UInt8.ofNat (n / Nat.pow 256 i)

/-- What the fingerprint of a function is computed from: for each file its name, a zero byte,
the length of its content and the content. -/
def digestInput (contents : TextMap ByteArray) : List UInt8 :=
  contents.flatMap fun (name, content) =>
    name.toByteArray.data.toList ++ 0 :: (lengthBytes content.size ++ content.data.toList)

/-- The fingerprint of a function. -/
def fingerprint (b : BuildOutput) (t : FileTree) (f : FunctionSpec) :
    Except HashError ContentHash := do
  let files ← b.filesOf t f
  if files.isEmpty then throw (.notFound f.entryPoint)
  return .ofBytes (digestInput (← readAll t files))

end BuildOutput

end Rollout
