import Rollout.Policy
import Rollout.Run.Program
import Rollout.Substitution
import Rollout.Text.Blank
import Rollout.Text.Order
import Rollout.Text.Utf8

/-!
What a run does with buckets: it uploads artifacts and other files, keeps the rendered template
and the marker of the live compilation in the deployment bucket, and in the end takes a bucket
down with everything in it.
-/

namespace Rollout

/-- The key of the marker: the timestamp of the compilation committed last. -/
def markerKey : String := "most-recent-deployment"

/-- The key of the rendered template. -/
def templateKey : String := "update-template"

/-- A local file to upload. -/
structure PendingUpload where
  path : Path
  key : String
deriving DecidableEq, Repr

namespace Artifacts

/-- An upload that failed on a local file. -/
def fileFailure (key : String) (e : FileError) : Failure := .upload key (.files e)

/-- Stores bytes under a key. -/
def uploadBytes (bucket key : String) (body : ByteArray) : Run Unit :=
  Run.store (.put bucket key body) (.upload key)

/-- The bytes of a local file to go under a key. -/
def readFile (path : Path) (key : String) : Run ByteArray :=
  Run.ofProgram (fileFailure key) (Program.request (.onMachine (.read path)))

/-- Uploads a local file. -/
def uploadFile (bucket : String) (u : PendingUpload) : Run Unit := do
  uploadBytes bucket u.key (← readFile u.path u.key)

/-- Where a batch of uploads stands: how many are done, and which failed. -/
structure BatchState where
  done : Nat
  failures : List UploadFailure
deriving DecidableEq, Repr

/-- Attempts every upload of a batch of `total`, and reports each one that is done. -/
def attemptAll (bucket : String) (total : Nat) : List PendingUpload → BatchState → Program BatchState
  | [], s => .done s
  | u :: us, s =>
    (uploadFile bucket u).run.bind fun
      | .ok () =>
        (Program.request (.control (.emit (.artifactUploaded (s.done + 1) total u.key)))).bind
          fun _ => attemptAll bucket total us { s with done := s.done + 1 }
      | .error e => attemptAll bucket total us { s with failures := s.failures ++ [⟨u.key, e.message⟩] }

/-- Uploads a batch with so many workers. Every upload is attempted; those that failed are told
together, in the order of their keys. -/
def uploadAll (bucket : String) (workers : Nat) (us : List PendingUpload) : Run Unit := do
  let order ← Run.schedule us.length (min workers us.length)
  let s ← Run.liftProgram (attemptAll bucket us.length (order.arrange us) ⟨0, []⟩)
  if !s.failures.isEmpty then
    throw (.uploadsFailed (Text.sortWith (fun a b => Text.precedes a.key b.key) s.failures))

/-- The text of an object without blanks around it, if the object is there. -/
def readText (bucket key : String) : Run (Option String) := do
  let body ← Run.store (.get bucket key) (.download bucket key)
  return body.map fun bytes => Text.trim (Text.decodeLossy bytes)

/-- The timestamp of the compilation committed last, if there is one. -/
def readMarker (bucket : String) : Run (Option String) := do
  return (← readText bucket markerKey).filter fun marker => marker ≠ ""

/-- Makes a compilation the one committed last. -/
def publishMarker (bucket timestamp : String) : Run Unit :=
  uploadBytes bucket markerKey timestamp.toUTF8

/-- Stores a rendered template; its URL. -/
def uploadTemplate (bucket : String) (body : ByteArray) : Run String := do
  uploadBytes bucket templateKey body
  Run.store (.url bucket templateKey) (.upload templateKey)

/-- A target without the slashes at its end. -/
def trimTarget (target : String) : String :=
  String.ofList (target.toList.reverse.dropWhile (· = '/')).reverse

/-- The key of a file below a target. -/
def keyBelow (target relative : String) : String :=
  if target = "" then relative else target ++ "/" ++ relative

/-- The files of a source, with the keys they go under. -/
def pendingUploads (source : Path) (target : String) :
    UploadSource → Except FileError (List PendingUpload)
  | .directory files =>
    .ok (files.map fun names =>
      ⟨source.join ⟨names⟩, keyBelow target (Text.join "/" names)⟩)
  | .file => .ok [⟨source, target⟩]
  | .missing => .error (.other (source.text ++ " does not exist"))

/-- The bytes to store for a local file: its own, or with values put in for its tokens. -/
def contentFor (u : PendingUpload) (values : Option Substitutions) : Run ByteArray := do
  let body ← readFile u.path u.key
  match values with
  | none => return body
  | some values =>
    match Text.decode body with
    | some text => return (values.render text).toUTF8
    | none => throw (fileFailure u.key .notText)

/-- Uploads files one after the other; their keys. -/
def uploadEach (bucket : String) (values : Option Substitutions) :
    List PendingUpload → Run (List String)
  | [] => return []
  | u :: us => do
    uploadBytes bucket u.key (← contentFor u values)
    return u.key :: (← uploadEach bucket values us)

/-- Uploads a file, or every file below a directory, under a target; the keys, in the order of
the files. -/
def uploadPath (bucket : String) (source : Path) (target : String)
    (values : Option Substitutions) : Run (List String) := do
  let target := trimTarget target
  let found ← Run.ofProgram (fileFailure target) (Program.request (.onMachine (.source source)))
  match pendingUploads source target found with
  | .error e => throw (fileFailure target e)
  | .ok us => uploadEach bucket values us

/-- A program whose errors are those of the object store. -/
abbrev Teardown (α : Type) : Type := ExceptT StoreError Program α

/-- A call of the object store. -/
def call (c : StoreCall) : Teardown c.Result := ExceptT.mk (Program.request (.store c))

/-- Deletes the current objects of keys. -/
def deleteKeys (bucket : String) : List String → Teardown Unit
  | [] => pure ()
  | key :: keys => do
    call (.delete bucket key)
    deleteKeys bucket keys

/-- Deletes versions. -/
def deleteVersions (bucket : String) : List ObjectVersion → Teardown Unit
  | [] => pure ()
  | v :: vs => do
    call (.deleteVersion bucket v.key v.id)
    deleteVersions bucket vs

/-- Deletes the current objects on the pages from a token on; how many. -/
def deleteObjectsFrom (bucket : String) : Nat → Option String → Teardown Nat
  | 0, _ => ExceptT.mk .unfinished
  | pages + 1, token => do
    let page ← call (.listObjects bucket token)
    deleteKeys bucket page.keys
    match page.next with
    | some next => return page.keys.length + (← deleteObjectsFrom bucket pages (some next))
    | none => return page.keys.length

/-- Deletes the versions on the pages from a position on; how many. -/
def deleteVersionsFrom (bucket : String) : Nat → Option VersionCursor → Teardown Nat
  | 0, _ => ExceptT.mk .unfinished
  | pages + 1, cursor => do
    let page ← call (.listVersions bucket cursor)
    deleteVersions bucket page.versions
    match page.next with
    | some next => return page.versions.length + (← deleteVersionsFrom bucket pages (some next))
    | none => return page.versions.length

/-- Empties a bucket and deletes it; how many objects and versions were in it. -/
def emptyAndDelete (patience : Nat) (bucket : String) : Teardown Nat := do
  let objects ← deleteObjectsFrom bucket patience none
  let versions ← deleteVersionsFrom bucket patience none
  call (.deleteBucket bucket)
  return objects + versions

/-- Takes a bucket down. One that is already gone counts as taken down. -/
def tearDown (patience : Nat) (bucket : String) : Run Nat :=
  ExceptT.mk ((emptyAndDelete patience bucket).run.bind fun
    | .ok removed => .done (.ok removed)
    | .error (.noSuchBucket _) => .done (.ok 0)
    | .error e => .done (.error (.bucketTeardown bucket e)))

end Artifacts

end Rollout
