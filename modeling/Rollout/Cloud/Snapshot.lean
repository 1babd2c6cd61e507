import Rollout.Cloud.OnDisk
import Rollout.Text.Utf8

/-!
A snapshot of a cloud on disk as a JSON document: what its stacks, its buckets and the log of its
hooks hold.
-/

namespace Rollout.Snapshot

/-- Bytes: their text, or their hexadecimal digits if they are no text. -/
def bytes (b : ByteArray) : Json :=
  match Text.decode b with
  | some text => .str text
  | none => .object [("hex", .str (Text.hexText b.data.toList))]

/-- A file that cannot be read as what it should be. -/
def corrupt : Json := .object [("corrupt", .bool true)]

/-- The content of a file; null if it cannot be read. -/
def file (t : FileTree) (p : Path) : Json :=
  match t.read p with
  | .ok b => bytes b
  | .error _ => .null

/-- A version in a bucket: its content, that it marks a deletion, or that its content is lost. -/
def version (t : FileTree) (dir : Path) (v : StoredVersion) : Json :=
  if v.deleteMarker then .object [("deleted", .bool true)]
  else
    match t.read (ObjectStore.blobPath dir v.id) with
    | .ok b => bytes b
    | .error _ => .object [("missing", .bool true)]

/-- The names in a directory; none if there is no directory. -/
def names (t : FileTree) (dir : Path) : List String :=
  match t.list dir with
  | .ok names => names
  | .error _ => []

/-- What a text file says, or that it is corrupt. -/
def readAs {α : Type} (parse? : String → Option α) (view : α → Json) (t : FileTree) (p : Path) :
    Json :=
  match t.readText p with
  | .ok text => ((parse? text).map view).getD corrupt
  | .error _ => corrupt

/-- A bucket: its counter, the versions of its keys, and how many contents are stored. -/
def bucket (t : FileTree) (dir : Path) : Json :=
  readAs BucketIndex.parse? (fun i =>
    .object [("versioned", .bool i.versioned), ("next_version", .nat i.nextVersion),
      ("objects", .object (i.objects.map fun (key, versions) =>
        (key, .arr (versions.map (version t dir))))),
      ("blobs", .nat (names t (dir.joinText "blobs")).length)])
    t (ObjectStore.indexPath dir)

/-- What a directory holds, by name. -/
def directory (view : Path → Json) (t : FileTree) (dir : Path) : Json :=
  .object ((names t dir).map fun name => (name, view (dir.joinText name)))

/-- A cloud and the records of a project. The invocations of hooks are told in their order as
texts. -/
def take (t : FileTree) (cloud records : Path) : Json :=
  let log := HookInvoker.invocations ⟨cloud.joinText HookInvoker.logName, []⟩ t
  .object [
    ("stacks", directory (readAs Json.parse? id t) t (cloud.joinText "stacks")),
    ("buckets", directory (bucket t) t (cloud.joinText "buckets")),
    ("records", directory (file t) t records),
    ("invocations", .strs (Text.sortWith Text.precedes log))]

end Rollout.Snapshot
