import Rollout.Text.Split

/-!
Paths as they are written. A path keeps its text exactly, cut at the slashes, so that what is
shown to a reader is what was configured; its names, without empty parts and single dots, say
where it leads.
-/

namespace Rollout

/-- A path: the parts of its text between slashes. -/
structure Path where
  parts : List String
deriving DecidableEq, Repr

namespace Path

instance : Inhabited Path := ⟨⟨[""]⟩⟩

/-- The path with a given text. -/
def ofString (text : String) : Path := ⟨Text.splitString '/' text⟩

/-- The text of a path. -/
def text (p : Path) : String := Text.join "/" p.parts

/-- Whether a path starts at the root. -/
def isAbsolute (p : Path) : Bool :=
  match p.parts with
  | "" :: _ :: _ => true
  | _ => false

/-- Whether a path has no text. -/
def isEmpty (p : Path) : Bool :=
  p.parts.all (· = "") && p.parts.length ≤ 1

/-- Whether a path ends in a slash, or in a part that only names the directory before it. -/
def namesDirectory (p : Path) : Bool :=
  match p.parts.getLast? with
  | some "" => 1 < p.parts.length
  | some "." => true
  | _ => false

/-- `rel` below `base`; an absolute path stands alone. -/
def join (base rel : Path) : Path :=
  if rel.isAbsolute || base.isEmpty then rel
  else if base.parts.getLast? = some "" then ⟨base.parts.dropLast ++ rel.parts⟩
  else ⟨base.parts ++ rel.parts⟩

/-- The path below `base` with a given text. -/
def joinText (base : Path) (rel : String) : Path := base.join (ofString rel)

/-- The names a path goes through, `..` among them. -/
def names (p : Path) : List String :=
  p.parts.filter fun part => part ≠ "" && part ≠ "."

/-- The components a path is shown by: the root, a leading dot, and the names. -/
def components (p : Path) : List String :=
  if p.isAbsolute then "/" :: p.names
  else if p.parts.head? = some "." then "." :: p.names
  else p.names

/-- What is left of `names` after `start`. -/
def dropNames? : List String → List String → Option (List String)
  | [], names => some names
  | _ :: _, [] => none
  | s :: start, name :: names => if s = name then dropNames? start names else none

/-- The components of a path below `base`, or all of its components if it is elsewhere, with
slashes between them. -/
def relativeText (base p : Path) : String :=
  match dropNames? base.components p.components with
  | some rest => Text.join "/" rest
  | none => Text.join "/" p.components

/-- The parts without what follows the last name: no slash and no dot at the end. -/
def trimParts (parts : List String) : List String :=
  (parts.reverse.dropWhile fun part => part = "" || part = ".").reverse

/-- The path without its last name, if it has one. -/
def parent (p : Path) : Option Path :=
  match trimParts p.parts with
  | [] => if p.parts.head? = some "." && !p.isAbsolute then some ⟨[""]⟩ else none
  | parts =>
    let rest := trimParts parts.dropLast
    if p.isAbsolute && rest.isEmpty then some ⟨["", ""]⟩
    else if rest.isEmpty then
      some (if p.parts.head? = some "." && 1 < parts.length then ⟨["."]⟩ else ⟨[""]⟩)
    else some ⟨rest⟩

end Path

end Rollout
