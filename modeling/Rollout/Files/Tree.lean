import Rollout.Files.Path
import Rollout.Text.Order

/-!
A tree of files as a value: regular files, directories and symbolic links, each at the list of
names that leads to it from the root. Paths are resolved name by name, through links and `..`,
the way a POSIX system does; a failed operation says why.
-/

namespace Rollout

/-- Why an operation on files failed. -/
inductive FileError where
  | notFound
  | alreadyExists
  | notDirectory
  | isDirectory
  | busy
  | nameTooLong
  | tooManyLinks
  | nulByte
  | notText
  | other (text : String)
deriving DecidableEq, Repr

/-- The text of a failure. -/
def FileError.message : FileError → String
  | .notFound => "No such file or directory (os error 2)"
  | .busy => "Device or resource busy (os error 16)"
  | .alreadyExists => "File exists (os error 17)"
  | .notDirectory => "Not a directory (os error 20)"
  | .isDirectory => "Is a directory (os error 21)"
  | .nameTooLong => "File name too long (os error 36)"
  | .tooManyLinks => "Too many levels of symbolic links (os error 40)"
  | .nulByte => "file name contained an unexpected NUL byte"
  | .notText => "stream did not contain valid UTF-8"
  | .other text => text

/-- Bytes are equal if they are byte for byte. -/
instance (priority := high) sameBytes : DecidableEq ByteArray := fun a b =>
  if h : a.data = b.data then .isTrue (ByteArray.ext h)
  else .isFalse fun same => h (congrArg ByteArray.data same)

/-- What stands at a location. -/
inductive Entry where
  | file (content : ByteArray)
  | dir
  | link (target : String)
deriving DecidableEq

/-- A place in the tree: the names from the root down, links and `..` resolved. -/
abbrev Location := List String

/-- The files of a machine: what stands where, which files are locked by whom, and the
directory that relative paths start from. The root itself is a directory and has no entry. -/
structure FileTree where
  entries : List (Location × Entry)
  locks : List (Location × String)
  workDir : Location

namespace FileTree

/-- A tree with nothing in it. -/
def empty : FileTree := ⟨[], [], []⟩

instance : Inhabited FileTree := ⟨empty⟩

/-- The first entry of a location in a list. -/
def lookup (l : Location) : List (Location × Entry) → Option Entry
  | [] => none
  | (l', e) :: rest => if l' = l then some e else lookup l rest

/-- What stands at a location. -/
def entry? (t : FileTree) (l : Location) : Option Entry :=
  if l = [] then some .dir else lookup l t.entries

/-- Replaces the entry of a location, or adds one at the end. -/
def bind (l : Location) (e : Entry) : List (Location × Entry) → List (Location × Entry)
  | [] => [(l, e)]
  | (l', e') :: rest => if l' = l then (l, e) :: rest else (l', e') :: bind l e rest

/-- The tree with an entry at a location. -/
def put (t : FileTree) (l : Location) (e : Entry) : FileTree :=
  { t with entries := bind l e t.entries }

/-- The tree without the entry of a location and its lock. -/
def drop (t : FileTree) (l : Location) : FileTree :=
  { t with
    entries := t.entries.filter fun e => e.1 ≠ l
    locks := t.locks.filter fun e => e.1 ≠ l }

/-- Whether a location lies at or below another. -/
def within (top l : Location) : Bool := (Path.dropNames? top l).isSome

/-- The tree without a location and everything below it. -/
def dropAll (t : FileTree) (top : Location) : FileTree :=
  { t with
    entries := t.entries.filter fun e => !within top e.1
    locks := t.locks.filter fun e => !within top e.1 }

/-- Everything below a location, by the names that lead there from it. -/
def below (t : FileTree) (top : Location) : List (List String × Entry) :=
  t.entries.filterMap fun (l, e) =>
    match Path.dropNames? top l with
    | some [] => none
    | some names => some (names, e)
    | none => none

/-- The names directly below a location. -/
def children (t : FileTree) (top : Location) : List String :=
  (t.below top).filterMap fun (names, _) =>
    match names with
    | [name] => some name
    | _ => none

/-- The length of a name, in bytes, that a directory cannot hold any more. -/
def nameLimit : Nat := 256

/-- The length of a path, in bytes, that is refused. -/
def pathLimit : Nat := 4096

/-- How many links are followed on the way to one file. -/
def linkLimit : Nat := 40

/-- Follows names from a directory. All but the last must lead to something; the last may lead
nowhere yet. What becomes of a link is up to `onLink`, which is told where the link stands, its
target and the names to follow after it; the last name may be a link that stays only if `last`
does not forbid it. -/
def walk (t : FileTree) (last : Bool)
    (onLink : Location → String → List String → Except FileError Location) (here : Location) :
    List String → Except FileError Location
  | [] => .ok here
  | name :: rest =>
    match t.entry? here with
    | none => .error .notFound
    | some (.file _) => .error .notDirectory
    | some (.link _) => .error .notDirectory
    | some .dir =>
      if name = ".." then walk t last onLink here.dropLast rest
      else if nameLimit ≤ name.utf8ByteSize then .error .nameTooLong
      else
        let there := here ++ [name]
        match t.entry? there with
        | none => if rest.isEmpty then .ok there else .error .notFound
        | some (.link target) =>
          if rest.isEmpty && !last then .ok there else onLink here target rest
        | some _ => walk t last onLink there rest

/-- Follows names from a directory through at most so many links. A link is replaced by its
target, the last one only if `last` says so. -/
def follow (t : FileTree) (last : Bool) : Nat → Location → List String → Except FileError Location
  | 0 => t.walk last fun _ _ _ => .error .tooManyLinks
  | links + 1 => t.walk last fun here target rest =>
      let path := Path.ofString target
      follow t last links (if path.isAbsolute then [] else here) (path.names ++ rest)

/-- The location of a path. A path that names a directory must not lead to a file. -/
def locate (t : FileTree) (p : Path) (last : Bool) : Except FileError Location := do
  if p.isEmpty then throw .notFound
  if p.text.toList.any fun c => c.toNat = 0 then throw .nulByte
  if pathLimit ≤ p.text.utf8ByteSize then throw .nameTooLong
  let start := if p.isAbsolute then [] else t.workDir
  let l ← t.follow (last || p.namesDirectory) linkLimit start p.names
  if p.namesDirectory then
    match t.entry? l with
    | some (.file _) => throw .notDirectory
    | _ => return l
  else return l

/-- The location of a path and what stands there, links followed. -/
def find (t : FileTree) (p : Path) : Except FileError (Location × Entry) := do
  let l ← t.locate p true
  match t.entry? l with
  | some e => return (l, e)
  | none => throw .notFound

/-- Whether a path leads to anything. -/
def exists? (t : FileTree) (p : Path) : Bool :=
  match t.find p with
  | .ok _ => true
  | .error _ => false

/-- Whether a path leads to a regular file. -/
def isFile (t : FileTree) (p : Path) : Bool :=
  match t.find p with
  | .ok (_, .file _) => true
  | _ => false

/-- Whether a path leads to a directory. -/
def isDir (t : FileTree) (p : Path) : Bool :=
  match t.find p with
  | .ok (_, .dir) => true
  | _ => false

/-- The bytes of a file. -/
def read (t : FileTree) (p : Path) : Except FileError ByteArray := do
  match ← t.find p with
  | (_, .file content) => return content
  | (_, .dir) => throw .isDirectory
  | (_, .link _) => throw .tooManyLinks

/-- The text of a file. -/
def readText (t : FileTree) (p : Path) : Except FileError String := do
  match String.fromUTF8? (← t.read p) with
  | some text => return text
  | none => throw .notText

/-- The names in a directory. -/
def list (t : FileTree) (p : Path) : Except FileError (List String) := do
  match ← t.find p with
  | (l, .dir) => return t.children l
  | _ => throw .notDirectory

/-- The path without links, dots and `..` that leads where `p` does. -/
def canonical (t : FileTree) (p : Path) : Except FileError Path := do
  let (l, _) ← t.find p
  return ⟨"" :: (if l = [] then [""] else l)⟩

/-- The regular files below a directory, links not followed: the names that lead to each from
the directory, in their order. -/
def filesBelow (t : FileTree) (p : Path) : Except FileError (List (List String)) := do
  match ← t.find p with
  | (l, .dir) =>
    let files := (t.below l).filterMap fun (names, e) =>
      match e with
      | .file _ => some names
      | _ => none
    return Text.sortWith Text.precedesTexts files
  | _ => throw .notDirectory

end FileTree

end Rollout
