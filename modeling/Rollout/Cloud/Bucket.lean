import Rollout.Json.Fields
import Rollout.Cloud.Service
import Rollout.Json.Printer

/-!
The index of a bucket: the versions of every key, oldest first, and the counter their ids come
from. The newest version of a key is its current object, unless it is a delete marker.
-/

namespace Rollout

/-- A version of a key. A delete marker has no content. -/
structure StoredVersion where
  id : String
  deleteMarker : Bool
deriving DecidableEq, Repr

/-- What a bucket knows about its keys. No key has an empty list of versions unless it was
written so. -/
structure BucketIndex where
  versioned : Bool
  nextVersion : Nat
  objects : TextMap (List StoredVersion)
deriving DecidableEq, Repr

/-- A number with zeros in front of it, up to a width. -/
def zeroPadded (width n : Nat) : List Char :=
  let digits := Nat.toDigits 10 n
  List.replicate (width - digits.length) '0' ++ digits

/-- The id of the version with a given number. -/
def versionId (n : Nat) : String := String.ofList ('v' :: zeroPadded 12 n)

namespace BucketIndex

/-- The index of a new bucket. -/
def empty : BucketIndex := ⟨false, 0, []⟩

instance : Inhabited BucketIndex := ⟨empty⟩

/-- The versions of a key. -/
def versions (i : BucketIndex) (key : String) : List StoredVersion :=
  (TextMap.get? key i.objects).getD []

/-- The current object among the versions of a key. -/
def currentOf (versions : List StoredVersion) : Option StoredVersion :=
  versions.getLast?.filter fun v => !v.deleteMarker

/-- The current object of a key. -/
def current (i : BucketIndex) (key : String) : Option StoredVersion :=
  currentOf (i.versions key)

/-- The id of the next version. -/
def nextId (i : BucketIndex) : String := versionId (i.nextVersion + 1)

/-- The index after one more version of a key, the only one left unless versions are kept. -/
def push (i : BucketIndex) (key : String) (v : StoredVersion) : BucketIndex :=
  let old := if i.versioned then i.versions key else []
  { i with
    nextVersion := i.nextVersion + 1
    objects := TextMap.insert key (old ++ [v]) i.objects }

/-- The versions that one more version of a key displaces. -/
def displaced (i : BucketIndex) (key : String) : List StoredVersion :=
  if i.versioned then [] else i.versions key

/-- The index without a key. -/
def dropKey (i : BucketIndex) (key : String) : BucketIndex :=
  { i with objects := TextMap.erase key i.objects }

/-- The index without one version of a key; a key without versions goes too. -/
def dropVersion (i : BucketIndex) (key id : String) : BucketIndex :=
  match TextMap.get? key i.objects with
  | none => i
  | some versions =>
    match versions.filter fun v => v.id ≠ id with
    | [] => i.dropKey key
    | rest => { i with objects := TextMap.insert key rest i.objects }

/-- The keys that have a current object, in order. -/
def currentKeys (i : BucketIndex) : List String :=
  (i.objects.filter fun e => (currentOf e.2).isSome).map (·.1)

/-- Every version with its key, in key order and oldest first. -/
def allVersions (i : BucketIndex) : List ObjectVersion :=
  i.objects.flatMap fun (key, versions) => versions.map fun v => ⟨key, v.id⟩

end BucketIndex

open Json

/-- A version in an index document. -/
def StoredVersion.ofWritten? (w : Written) : Option StoredVersion :=
  match w.fields? ["id", "delete_marker"] with
  | some [id, marker] => do
    return ⟨← required Written.text? id, ← defaulted Written.bool? false marker⟩
  | _ => none

/-- The index a document holds. -/
def BucketIndex.ofWritten? (w : Written) : Option BucketIndex :=
  match w.fields? ["versioned", "next_version", "objects"] with
  | some [versioned, next, objects] => do
    return ⟨← defaulted Written.bool? false versioned,
      ← defaulted (Written.natBelow? UInt64.size) 0 next,
      ← defaulted (Written.map? (Written.list? StoredVersion.ofWritten?)) [] objects⟩
  | _ => none

/-- The index a text holds. -/
def BucketIndex.parse? (text : String) : Option BucketIndex :=
  (Written.parse? text).bind ofWritten?

/-- A version as a document. Its members stand as they are declared. -/
def StoredVersion.toJson (v : StoredVersion) : Json :=
  .obj [("id", .str v.id), ("delete_marker", .bool v.deleteMarker)]

/-- An index as a document. -/
def BucketIndex.toJson (i : BucketIndex) : Json :=
  .obj [("versioned", .bool i.versioned), ("next_version", .nat i.nextVersion),
    ("objects", .obj (i.objects.map fun (key, versions) =>
      (key, .arr (versions.map StoredVersion.toJson))))]

end Rollout
