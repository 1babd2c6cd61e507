import Rollout.Cloud.Bucket
import Rollout.Files.Update

/-!
An object store on disk. A bucket is a directory with an index document and a file of content
for each version. Every operation looks at the disk first and then is a list of effects: a new
version's content is written before the index that mentions it, and content is removed after
the index that no longer does.
-/

namespace Rollout

/-- A store: where its buckets are, and how long a page of a listing is. -/
structure ObjectStore where
  root : Path
  pageSize : Nat
deriving DecidableEq, Repr

/-- What the URL of an object starts with. -/
def urlScheme : String := "local://"

namespace ObjectStore

/-- Whether a text may name a bucket: it must name a directory entry of its own. -/
def isBucketName (bucket : String) : Bool :=
  bucket ≠ "" && bucket ≠ "." && bucket ≠ ".." &&
    !(bucket.toList.any fun c => c = '/' || c = '\\')

/-- The directory of a bucket. -/
def bucketDir (s : ObjectStore) (bucket : String) : Except StoreError Path :=
  if isBucketName bucket then .ok ((s.root.joinText "buckets").joinText bucket)
  else .error (.service ("invalid bucket name '" ++ bucket ++ "'"))

/-- The index document in the directory of a bucket. -/
def indexPath (dir : Path) : Path := dir.joinText "index.json"

/-- The content of a version in the directory of a bucket. -/
def blobPath (dir : Path) (id : String) : Path := (dir.joinText "blobs").joinText id

/-- The bytes of an index document. -/
def indexBytes (i : BucketIndex) : ByteArray := i.toJson.pretty.toUTF8

/-- Writing the index of a bucket. -/
def writeIndex (dir : Path) (i : BucketIndex) : Effect := .replace (indexPath dir) (indexBytes i)

/-- The directory and the index of a bucket. -/
def readIndex (s : ObjectStore) (t : FileTree) (bucket : String) :
    Except StoreError (Path × BucketIndex) := do
  let dir ← s.bucketDir bucket
  if !t.exists? (indexPath dir) then throw (.noSuchBucket bucket)
  let text ← (t.readText (indexPath dir)).mapError .files
  match BucketIndex.parse? text with
  | some i => return (dir, i)
  | none => throw (.service ("corrupt bucket index " ++ bucket ++ ": not an index document"))

/-- What creating a bucket does: nothing if its directory is there. -/
def createEffects (s : ObjectStore) (t : FileTree) (bucket : String) :
    Except StoreError (List Effect) := do
  let dir ← s.bucketDir bucket
  if t.exists? dir then return []
  return [.makeDirs (dir.joinText "blobs"), writeIndex dir .empty]

/-- What keeping old versions from now on does. -/
def versioningEffects (s : ObjectStore) (t : FileTree) (bucket : String) :
    Except StoreError (List Effect) := do
  let (dir, i) ← s.readIndex t bucket
  return [writeIndex dir { i with versioned := true }]

/-- What storing an object does. -/
def putEffects (s : ObjectStore) (t : FileTree) (bucket key : String) (body : ByteArray) :
    Except StoreError (List Effect) := do
  let (dir, i) ← s.readIndex t bucket
  return .replace (blobPath dir i.nextId) body ::
    writeIndex dir (i.push key ⟨i.nextId, false⟩) ::
    (i.displaced key).map fun v => .discard (blobPath dir v.id)

/-- What deleting an object does: a delete marker where versions are kept. -/
def deleteEffects (s : ObjectStore) (t : FileTree) (bucket key : String) :
    Except StoreError (List Effect) := do
  let (dir, i) ← s.readIndex t bucket
  if i.versioned then return [writeIndex dir (i.push key ⟨i.nextId, true⟩)]
  return writeIndex dir (i.dropKey key) ::
    (i.versions key).map fun v => .discard (blobPath dir v.id)

/-- What deleting one version does. -/
def deleteVersionEffects (s : ObjectStore) (t : FileTree) (bucket key id : String) :
    Except StoreError (List Effect) := do
  let (dir, i) ← s.readIndex t bucket
  return [writeIndex dir (i.dropVersion key id), .discard (blobPath dir id)]

/-- What deleting a bucket does; it must hold no version. -/
def deleteBucketEffects (s : ObjectStore) (t : FileTree) (bucket : String) :
    Except StoreError (List Effect) := do
  let (dir, i) ← s.readIndex t bucket
  if !i.objects.isEmpty then throw (.bucketNotEmpty bucket)
  return [.removeTree dir]

/-- Performs what an operation does. -/
def performing (effects : FileTree → Except StoreError (List Effect)) : Disk StoreError Unit :=
  fun t =>
    match effects t with
    | .error e => (.error e, t)
    | .ok es => (Effect.performAll es).mapError .files t

/-- Creates a bucket unless it exists. -/
def createBucket (s : ObjectStore) (bucket : String) : Disk StoreError Unit :=
  performing fun t => s.createEffects t bucket

/-- Keeps old versions in a bucket from now on. -/
def enableVersioning (s : ObjectStore) (bucket : String) : Disk StoreError Unit :=
  performing fun t => s.versioningEffects t bucket

/-- Stores an object. -/
def put (s : ObjectStore) (bucket key : String) (body : ByteArray) : Disk StoreError Unit :=
  performing fun t => s.putEffects t bucket key body

/-- Deletes the current object of a key. -/
def delete (s : ObjectStore) (bucket key : String) : Disk StoreError Unit :=
  performing fun t => s.deleteEffects t bucket key

/-- Deletes one version of a key. -/
def deleteVersion (s : ObjectStore) (bucket key id : String) : Disk StoreError Unit :=
  performing fun t => s.deleteVersionEffects t bucket key id

/-- Deletes an empty bucket. -/
def deleteBucket (s : ObjectStore) (bucket : String) : Disk StoreError Unit :=
  performing fun t => s.deleteBucketEffects t bucket

/-- Whether a bucket is there. -/
def bucketExists (s : ObjectStore) (t : FileTree) (bucket : String) : Bool :=
  match s.bucketDir bucket with
  | .ok dir => t.exists? dir
  | .error _ => false

/-- Whether a bucket holds no version of any key. -/
def isEmpty (s : ObjectStore) (t : FileTree) (bucket : String) : Except StoreError Bool := do
  let (_, i) ← s.readIndex t bucket
  return i.objects.isEmpty

/-- The content of the current object of a key, if it has one. -/
def get (s : ObjectStore) (t : FileTree) (bucket key : String) :
    Except StoreError (Option ByteArray) := do
  let (dir, i) ← s.readIndex t bucket
  match i.current key with
  | some v => return some (← (t.read (blobPath dir v.id)).mapError .files)
  | none => return none

/-- The URL of an object. -/
def objectUrl (bucket key : String) : String := urlScheme ++ bucket ++ "/" ++ key

/-- The object a URL leads to. -/
def readUrl (s : ObjectStore) (t : FileTree) (url : String) :
    Except StoreError (Option ByteArray) :=
  match Text.after? urlScheme.toList url.toList with
  | none => .error (.service ("not a local object url: " ++ url))
  | some rest =>
    match Text.splitFirst '/' rest with
    | none => .error (.service ("malformed object url: " ++ url))
    | some (bucket, key) => s.get t (String.ofList bucket) (String.ofList key)

/-- The first `size` of a list, and whether there are more. -/
def page {α : Type} (size : Nat) (l : List α) : List α × Bool :=
  (l.take size, size < l.length)

/-- The current keys after a token, a page at a time. -/
def listObjects (s : ObjectStore) (t : FileTree) (bucket : String) (token : Option String) :
    Except StoreError KeyPage := do
  let (_, i) ← s.readIndex t bucket
  let rest := i.currentKeys.filter fun key =>
    match token with
    | some after => Text.precedes after key
    | none => true
  let (keys, more) := page s.pageSize rest
  return ⟨keys, if more then keys.getLast? else none⟩

/-- Whether a version comes after a position of the listing. -/
def isAfter (cursor : VersionCursor) (v : ObjectVersion) : Bool :=
  Text.precedes cursor.key v.key ||
    (cursor.key = v.key && Text.precedes (cursor.id.getD "") v.id)

/-- All versions after a position, a page at a time. -/
def listVersions (s : ObjectStore) (t : FileTree) (bucket : String)
    (cursor : Option VersionCursor) : Except StoreError VersionPage := do
  let (_, i) ← s.readIndex t bucket
  let rest := i.allVersions.filter fun v =>
    match cursor with
    | some c => isAfter c v
    | none => true
  let (versions, more) := page s.pageSize rest
  return ⟨versions, if more then versions.getLast?.map fun v => ⟨v.key, some v.id⟩ else none⟩

end ObjectStore

end Rollout
