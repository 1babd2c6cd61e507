import Rollout.Cloud.ObjectStore
import Rollout.Cloud.Template
import Rollout.Number.Decimal

/-!
A stack provider on disk. A stack is a document with its status, its template and the buckets
it owns; creating and updating a stack creates the buckets of its template.
-/

namespace Rollout

/-- A stack as it is stored. -/
structure StackDoc where
  status : String
  template : Json
  buckets : TextMap String

/-- A provider: where its stacks are, the store their buckets are in, and how long a page of
exports is. -/
structure StackProvider where
  root : Path
  objects : ObjectStore
  pageSize : UInt64
deriving DecidableEq, Repr

open Json

/-- The stack a document holds. The template lies one level deep in it. -/
def StackDoc.ofWritten? (w : Written) : Option StackDoc :=
  match w.fields? ["status", "template", "buckets"] with
  | some [status, template, buckets] => do
    return ⟨← required Written.text? status,
      ← required (Written.value? (nestingLimit - 1)) template,
      ← defaulted (Written.map? Written.text?) [] buckets⟩
  | _ => none

/-- The stack a text holds. -/
def StackDoc.parse? (text : String) : Option StackDoc :=
  (Written.parse? text).bind ofWritten?

/-- A stack as a document. Its members stand as they are declared. -/
def StackDoc.toJson (d : StackDoc) : Json :=
  .obj [("status", .str d.status), ("template", d.template),
    ("buckets", .obj (d.buckets.map fun (k, v) => (k, .str v)))]

/-- The exports of a stack. -/
def StackDoc.exports (d : StackDoc) : List StackExport := Template.exports d.buckets d.template

/-- A stack that was not created. -/
def StackDoc.rolledBack : StackDoc := ⟨StackStatus.rollbackComplete.text, .null, []⟩

namespace StackProvider

/-- The directory of the stacks. -/
def stacksDir (s : StackProvider) : Path := s.root.joinText "stacks"

/-- What the name of a stack's document ends in. -/
def documentEnding : String := ".json"

/-- The document of a stack. -/
def stackPath (s : StackProvider) (name : String) : Path :=
  s.stacksDir.joinText (name ++ documentEnding)

/-- The stack with a name, if there is one. -/
def load (s : StackProvider) (t : FileTree) (name : String) :
    Except ProviderError (Option StackDoc) :=
  if !t.exists? (s.stackPath name) then .ok none
  else
    match t.readText (s.stackPath name) with
    | .error e => .error (.unavailable e.message)
    | .ok text =>
      match StackDoc.parse? text with
      | some doc => .ok (some doc)
      | none => .error (.unavailable ("corrupt stack " ++ name ++ ": not a stack document"))

/-- Stores a stack. -/
def save (s : StackProvider) (name : String) (doc : StackDoc) : Disk ProviderError Unit :=
  (Effect.replace (s.stackPath name) doc.toJson.pretty.toUTF8).perform.mapError
    fun e => .unavailable e.message

/-- A store operation done for a stack. -/
def forStack (d : Disk StoreError Unit) : Disk ProviderError Unit :=
  d.mapError fun e => .unavailable e.message

/-- Creates declared buckets, and says which is which. -/
def provision (s : StackProvider) : List BucketSpec → Disk ProviderError (TextMap String)
  | [] => return []
  | spec :: specs => do
    forStack (s.objects.createBucket spec.physical)
    if spec.versioned then forStack (s.objects.enableVersioning spec.physical)
    return (spec.logical, spec.physical) :: (← provision s specs)

/-- Creates a stack from the text of a template. -/
def create (s : StackProvider) (name body : String) : Disk ProviderError CreateOutcome := do
  match ← Disk.reading fun t => s.load t name with
  | some _ => return .alreadyExists
  | none =>
    let template ← Disk.reading fun _ => Template.parse (some body)
    if Template.requestsFailure template then s.save name .rolledBack
    else
      let buckets ← s.provision (Template.buckets name template)
      s.save name ⟨StackStatus.createComplete.text, template, TextMap.ofList buckets⟩
    return .created

/-- The bytes behind the URL of a template. -/
def fetchTemplate (s : StackProvider) (t : FileTree) (url : String) :
    Except ProviderError ByteArray :=
  match s.objects.readUrl t url with
  | .error e => .error (.rejected e.message)
  | .ok none => .error (.rejected ("template not found at " ++ url))
  | .ok (some body) => .ok body

/-- Updates a stack to the template behind a URL. -/
def update (s : StackProvider) (name url : String) : Disk ProviderError UpdateOutcome := do
  match ← Disk.reading fun t => s.load t name with
  | none => throw (.rejected ("stack " ++ name ++ " does not exist"))
  | some doc =>
    let body ← Disk.reading fun t => s.fetchTemplate t url
    let template ← Disk.reading fun _ => Template.parse (String.fromUTF8? body)
    if template.same doc.template then return .noChanges
    if Template.requestsFailure template then
      s.save name { doc with status := StackStatus.updateRollbackComplete.text }
    else
      let buckets ← s.provision (Template.buckets name template)
      s.save name
        ⟨StackStatus.updateComplete.text, template, TextMap.union doc.buckets buckets⟩
    return .updating

/-- Whether some bucket of a list that exists holds a version of a key. -/
def anyFilled (s : StackProvider) (t : FileTree) : List String → Except ProviderError Bool
  | [] => .ok false
  | bucket :: buckets =>
    if !s.objects.bucketExists t bucket then anyFilled s t buckets
    else
      match s.objects.isEmpty t bucket with
      | .error e => .error (.unavailable e.message)
      | .ok true => anyFilled s t buckets
      | .ok false => .ok true

/-- Deletes those buckets of a list that exist. -/
def deleteBuckets (s : StackProvider) : List String → Disk ProviderError Unit
  | [] => pure ()
  | bucket :: buckets => do
    if s.objects.bucketExists (← get) bucket then forStack (s.objects.deleteBucket bucket)
    deleteBuckets s buckets

/-- Deletes a stack with its buckets; a stack with a filled bucket stays, marked so. -/
def delete (s : StackProvider) (name : String) : Disk ProviderError Unit := do
  match ← Disk.reading fun t => s.load t name with
  | none => return
  | some doc =>
    if ← Disk.reading fun t => s.anyFilled t (TextMap.values doc.buckets) then
      s.save name { doc with status := StackStatus.deleteFailed.text }
    else
      s.deleteBuckets (TextMap.values doc.buckets)
      (Effect.remove (s.stackPath name)).perform.mapError fun e => .unavailable e.message

/-- The status of a stack. -/
def status (s : StackProvider) (t : FileTree) (name : String) : Except ProviderError StackStatus :=
  match s.load t name with
  | .error e => .error e
  | .ok none => .ok .absent
  | .ok (some doc) => .ok (.ofText doc.status)

/-- The name of the stack in a document with a given file name. -/
def stackName? (file : String) : Option String :=
  match Text.after? documentEnding.toList.reverse file.toList.reverse with
  | some rest => some (String.ofList rest.reverse)
  | none => none

/-- The names of the stacks, in order. -/
def stackNames (s : StackProvider) (t : FileTree) : Except ProviderError (List String) :=
  if !t.exists? s.stacksDir then .ok []
  else
    match t.list s.stacksDir with
    | .error e => .error (.unavailable e.message)
    | .ok files => .ok (Text.sortWith Text.precedes (files.filterMap stackName?))

/-- The stacks of a list of names. -/
def loadAll (s : StackProvider) (t : FileTree) : List String → Except ProviderError (List StackDoc)
  | [] => .ok []
  | name :: names => do
    let doc ← s.load t name
    let docs ← loadAll s t names
    return doc.toList ++ docs

/-- The exports of all stacks, in the order of the stacks and of their outputs. -/
def allExports (s : StackProvider) (t : FileTree) : Except ProviderError (List StackExport) := do
  let docs ← s.loadAll t (← s.stackNames t)
  return docs.flatMap StackDoc.exports

/-- Where a page of exports starts. -/
def pageStart (token : Option String) : Except ProviderError Nat :=
  match token with
  | none => .ok 0
  | some text =>
    match Number.parseBelow? UInt64.size text with
    | some n => .ok n
    | none => .error (.rejected ("invalid next token " ++ text))

/-- Where a page that starts at a place ends. Places are words of 64 bits, and adding them up
wraps. -/
def pageEnd (s : StackProvider) (start length : Nat) : Nat :=
  min ((start + s.pageSize.toNat) % UInt64.size) length

/-- The page of a list from a place on. A page that would end before it starts is empty. -/
def pageFrom (s : StackProvider) (all : List StackExport) (start : Nat) : ExportPage :=
  let stop := s.pageEnd start all.length
  ⟨(all.take stop).drop start, if stop < all.length then some (toString stop) else none⟩

/-- The exports of all stacks, a page at a time. -/
def listExports (s : StackProvider) (t : FileTree) (token : Option String) :
    Except ProviderError ExportPage := do
  let all ← s.allExports t
  return s.pageFrom all (← pageStart token)

end StackProvider

end Rollout
