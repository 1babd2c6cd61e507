import Rollout.Toml.Parser

/-!
TOML documents. Lines are read in order into the table that the last header opened; that table
takes its place in the document when the next header comes, or the end. A table that longer
headers implied moves there with its content when its own header comes.
-/

namespace Rollout.Toml

/-- A document being read: the finished tables, and the open one with its name and whether it
is one of an array. -/
structure Reading where
  root : Members
  current : Members
  name : Option (List String × String)
  ofArray : Bool

namespace Reading

/-- Before the first line: the root table is open. -/
def start : Reading := ⟨[], [], none, false⟩

/-- Puts the open table in its place. -/
def close (r : Reading) : Option Members :=
  match r.name with
  | none => some r.current
  | some (path, key) =>
    descend false (fun _ inner =>
      if r.ofArray then
        match find? key inner with
        | some (.tables items) => some (assign key (.tables (items ++ [r.current])) inner)
        | some _ => none
        | none => some (assign key (.tables [r.current]) inner)
      else some (assign key (.table false false r.current) inner)) path false r.root

/-- Opens the table of a header. A table may be opened once; one that was only implied is
opened with what it holds. -/
def openTable (path : List String) (key : String) (r : Reading) : Option Reading := do
  let root ← r.close
  let content (inner : Members) : Option Members :=
    match find? key inner with
    | none => some []
    | some (.table true false members) => some members
    | some _ => none
  let root ← descend false (fun _ inner => (content inner).map fun _ => inner) path false root
  let current ← contentAt content path root
  let root ← descend false (fun _ inner => some (without key inner)) path false root
  return ⟨root, current, some (path, key), false⟩
where
  /-- What `content` finds in the table a path leads to. -/
  contentAt (content : Members → Option Members) : List String → Members → Option Members
    | [], members => content members
    | name :: names, members =>
      match find? name members with
      | some (.table _ _ inner) => contentAt content names inner
      | some (.tables items) =>
        match items.getLast? with
        | some last => contentAt content names last
        | none => none
      | _ => none

/-- Opens one more table of an array. -/
def openArrayTable (path : List String) (key : String) (r : Reading) : Option Reading := do
  let root ← r.close
  let root ← descend false (fun _ inner =>
    match find? key inner with
    | none => some (assign key (.tables []) inner)
    | some (.tables _) => some inner
    | some _ => none) path false root
  return ⟨root, [], some (path, key), true⟩

end Reading

/-- A header with its brackets, and what follows its line. -/
def readHeader (cs : List Char) (r : Reading) : Option (Reading × List Char) :=
  match cs with
  | '[' :: '[' :: rest =>
    (readKey rest).bind fun (path, key, rest) =>
      match rest with
      | ']' :: ']' :: rest =>
        (endLine? rest).bind fun rest =>
          (r.openArrayTable path key).map fun r => (r, rest)
      | _ => none
  | '[' :: rest =>
    (readKey rest).bind fun (path, key, rest) =>
      match rest with
      | ']' :: rest =>
        (endLine? rest).bind fun rest => (r.openTable path key).map fun r => (r, rest)
      | _ => none
  | _ => none

/-- A key with its value, and what follows its line. -/
def readPair (cs : List Char) (r : Reading) : Option (Reading × List Char) :=
  (readKey cs).bind fun (path, key, rest) =>
    match rest with
    | '=' :: rest =>
      let rest := skipBlanks rest
      (readValue (2 * rest.length + 2) depthLimit rest).bind fun (v, rest) =>
        (endLine? rest).bind fun rest =>
          (addValue path key v r.current).map fun current => ({ r with current }, rest)
    | _ => none

/-- The lines of a document, read to the end. -/
def readLines : Nat → Reading → List Char → Option Members
  | 0, _, _ => none
  | fuel + 1, r, cs =>
    match skipBlanks cs with
    | [] => r.close
    | '#' :: rest => (endLine? ('#' :: rest)).bind (readLines fuel r)
    | '[' :: rest => (readHeader ('[' :: rest) r).bind fun (r, rest) => readLines fuel r rest
    | c :: rest =>
      match afterBreak? (c :: rest) with
      | some rest => readLines fuel r rest
      | none => (readPair (c :: rest) r).bind fun (r, rest) => readLines fuel r rest

/-- The text of a document without a byte order mark. -/
def dropMark : List Char → List Char
  | [] => []
  | c :: cs => if c.toNat = 0xFEFF then cs else c :: cs

/-- The members of the root table of a document. -/
def parse? (text : String) : Option (List (String × Toml)) :=
  let cs := dropMark text.toList
  (readLines (cs.length + 1) .start cs).map finishMembers

end Rollout.Toml
