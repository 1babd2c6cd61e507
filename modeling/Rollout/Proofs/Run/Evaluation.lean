import Rollout.Proofs.Run.Site
import Rollout.Proofs.Text.Utf8

/-!
Evaluating what a run does on a disk. To read a document is to decode its bytes to a text and the
text to its characters; as each character is looked up by its place, an evaluation of that takes a
number of steps that is quadratic in the length of the document. The characters of a document that is
ASCII stand in its bytes one by one. Here the operations of the cloud are told how documents are read
and written: in the plain way they are the operations of the model, and in the quick way, which comes
to the same, a run can be evaluated.
-/

namespace Rollout

/-! ## Bytes of ASCII texts -/

namespace Text

/-- The characters of bytes that are all ASCII. -/
def asciiChars? (b : ByteArray) : Option (List Char) :=
  if b.data.toList.all fun x => x.toNat.ble 127 then
    some (b.data.toList.map fun x => Char.ofNat x.toNat)
  else none

/-- The bytes of characters. -/
def encode (cs : List Char) : ByteArray := ⟨(cs.flatMap String.utf8EncodeChar).toArray⟩

theorem encode_eq (cs : List Char) : encode cs = (String.ofList cs).toUTF8 :=
  ByteArray.ext List.data_toByteArray.symm

theorem utf8EncodeChar_of_ascii {x : UInt8} (hx : x.toNat ≤ 127) :
    String.utf8EncodeChar (Char.ofNat x.toNat) = [x] := by
  have hval : (Char.ofNat x.toNat).val.toNat = x.toNat := by
    rw [Char.ofNat, dif_pos (.inl (by omega))]
    rfl
  rw [String.utf8EncodeChar]
  simp only [hval]
  rw [if_pos hx, UInt8.ofNat_toNat]

theorem fromUTF8?_of_asciiChars? {b : ByteArray} {cs : List Char} (h : asciiChars? b = some cs) :
    String.fromUTF8? b = some (String.ofList cs) := by
  unfold asciiChars? at h
  split at h
  · rename_i hall
    cases h
    have hencode : ∀ l : List UInt8, (∀ x ∈ l, x.toNat ≤ 127) →
        (l.map fun x => Char.ofNat x.toNat).flatMap String.utf8EncodeChar = l := by
      intro l hl
      induction l with
      | nil => rfl
      | cons x l ih =>
        rw [List.map_cons, List.flatMap_cons, utf8EncodeChar_of_ascii (hl x (.head _)),
          ih fun y hy => hl y (.tail _ hy), List.singleton_append]
    have hbytes : (String.ofList (b.data.toList.map fun x => Char.ofNat x.toNat)).toUTF8 = b := by
      refine ByteArray.ext ?_
      change (List.flatMap String.utf8EncodeChar _).toByteArray.data = b.data
      rw [hencode _ fun x hx => Nat.le_of_ble_eq_true (List.all_eq_true.1 hall x hx),
        List.data_toByteArray, Array.toArray_toList]
    rw [← fromUTF8?_toUTF8, hbytes]
  · cases h

end Text

open Text

/-- What a parser makes of the text in a file. It is given the characters of a text that is ASCII. -/
def FileTree.parseFile {α : Type} (parse : String → Option α) (quick : List Char → Option α)
    (t : FileTree) (p : Path) : Except FileError (Option α) :=
  match t.read p with
  | .error e => .error e
  | .ok b =>
    match asciiChars? b with
    | some cs => .ok (quick cs)
    | none =>
      match String.fromUTF8? b with
      | some text => .ok (parse text)
      | none => .error .notText

theorem FileTree.parseFile_eq {α : Type} {parse : String → Option α}
    {quick : List Char → Option α} (h : ∀ cs, quick cs = parse (String.ofList cs)) (t : FileTree)
    (p : Path) : t.parseFile parse quick p = (t.readText p).map parse := by
  rw [parseFile, readText]
  cases t.read p with
  | error e => rfl
  | ok b =>
    change _ = Except.map parse
      (match String.fromUTF8? b with
        | some text => Except.ok text
        | none => Except.error FileError.notText)
    dsimp only
    cases hcs : asciiChars? b with
    | none => cases String.fromUTF8? b <;> rfl
    | some cs =>
      rw [fromUTF8?_of_asciiChars? hcs]
      exact congrArg Except.ok (h cs)

/-! ## Documents -/

/-- How the documents of a cloud are read, how they are written, and how a descriptor and a record
are read. -/
structure Documents where
  index : ObjectStore → FileTree → String → Except StoreError (Path × BucketIndex)
  stack : StackProvider → FileTree → String → Except ProviderError (Option StackDoc)
  template : ByteArray → Except ProviderError Json
  bytes : Json → ByteArray
  project : ProjectFiles → FileTree → Except Failure Project
  record : RecordStore → FileTree → Stage → Except RecordError Record

namespace Documents

/-- The document that characters hold, with nothing but blanks around it. -/
def written? (cs : List Char) : Option Json.Written :=
  match Json.readValue (2 * cs.length + 2) cs with
  | some (w, rest) => if (Json.skipSpace rest).isEmpty then some w else none
  | none => none

theorem written?_eq (cs : List Char) : written? cs = Json.Written.parse? (String.ofList cs) := by
  rw [Json.Written.parse?, String.toList_ofList]
  rfl

/-- The record that characters hold, of whatever format. -/
def record? (cs : List Char) : Option Record :=
  let cs := Toml.dropMark cs
  ((Toml.readLines (cs.length + 1) .start cs).map Toml.finishMembers).bind Record.ofMembers?

theorem record?_eq (cs : List Char) :
    record? cs = (Toml.parse? (String.ofList cs)).bind Record.ofMembers? := by
  rw [Toml.parse?, String.toList_ofList]
  rfl

/-- As the cloud reads them. -/
def plain : Documents :=
  ⟨ObjectStore.readIndex, StackProvider.load, fun body => Template.parse (String.fromUTF8? body),
    fun v => v.pretty.toUTF8, ProjectFiles.load, RecordStore.load⟩

open ObjectStore in
/-- From the bytes, where they are ASCII. -/
def quick : Documents where
  index s t bucket := do
    let dir ← s.bucketDir bucket
    if !t.exists? (indexPath dir) then throw (.noSuchBucket bucket)
    match t.parseFile BucketIndex.parse? (fun cs => (written? cs).bind BucketIndex.ofWritten?)
      (indexPath dir) with
    | .error e => throw (.files e)
    | .ok (some i) => return (dir, i)
    | .ok none => throw (.service ("corrupt bucket index " ++ bucket ++ ": not an index document"))
  stack s t name :=
    if !t.exists? (s.stackPath name) then .ok none
    else
      match t.parseFile StackDoc.parse? (fun cs => (written? cs).bind StackDoc.ofWritten?)
        (s.stackPath name) with
      | .error e => .error (.unavailable e.message)
      | .ok (some doc) => .ok (some doc)
      | .ok none => .error (.unavailable ("corrupt stack " ++ name ++ ": not a stack document"))
  template body :=
    match asciiChars? body with
    | none => Template.parse (String.fromUTF8? body)
    | some cs =>
      match (written? cs).bind (Json.Written.value? Json.nestingLimit) with
      | none => .error (.rejected "template is not valid JSON: not a JSON document")
      | some (.obj members) => .ok (.obj members)
      | some _ => .error (.rejected "template must be a JSON object")
  bytes v := encode (Json.prettyChars 0 v)
  project d t :=
    let p := d.descriptorPath
    if t.exists? p then
      match t.parseFile Project.parse? (fun cs => (written? cs).bind Project.ofWritten?) p with
      | .error e => .error (.files e)
      | .ok none => .error (.descriptorInvalid p "not a project descriptor")
      | .ok (some project) =>
        match project.fault? with
        | some fault => .error (.descriptorInvalid p fault.message)
        | none => .ok project
    else .error (.descriptorMissing p)
  record s t stage :=
    let p := s.path stage
    if !t.exists? p then .ok .empty
    else
      match t.parseFile (fun text => (Toml.parse? text).bind Record.ofMembers?) record? p with
      | .error e => .error (.files p e.message)
      | .ok none => .error (RecordStore.errorOf p .unreadable)
      | .ok (some r) =>
        if r.format = Record.currentFormat then .ok r
        else .error (RecordStore.errorOf p (.format r.format))

theorem quick_eq : quick = plain := by
  rw [quick, plain, Documents.mk.injEq]
  refine ⟨?_, ?_, ?_, ?_, ?_, ?_⟩
  · funext s t bucket
    rw [ObjectStore.readIndex]
    cases s.bucketDir bucket with
    | error e => rfl
    | ok dir =>
      simp only [bind, Except.bind]
      split
      · rfl
      · rw [FileTree.parseFile_eq fun cs => by rw [BucketIndex.parse?, written?_eq]]
        cases t.readText (ObjectStore.indexPath dir) with
        | error e => rfl
        | ok text =>
          simp only [Except.map, Except.mapError]
          cases BucketIndex.parse? text <;> rfl
  · funext s t name
    rw [StackProvider.load]
    split
    · rfl
    · rw [FileTree.parseFile_eq fun cs => by rw [StackDoc.parse?, written?_eq]]
      cases t.readText (s.stackPath name) with
      | error e => rfl
      | ok text =>
        simp only [Except.map]
        cases StackDoc.parse? text <;> rfl
  · funext body
    split
    · rfl
    · rename_i cs hcs
      have hparse : Json.parse? (String.ofList cs) =
          (written? cs).bind (Json.Written.value? Json.nestingLimit) := by
        rw [Json.parse?, written?_eq]
      rw [fromUTF8?_of_asciiChars? hcs, ← hparse]
      rfl
  · funext v
    exact encode_eq _
  · funext d t
    rw [ProjectFiles.load]
    dsimp only [bind, Except.bind]
    rw [ProjectFiles.readRequired]
    split
    · rw [FileTree.parseFile_eq fun cs => by rw [Project.parse?, written?_eq]]
      cases t.readText d.descriptorPath with
      | error e => rfl
      | ok text =>
        simp only [Except.map, Except.mapError]
        cases Project.parse? text <;> rfl
    · rfl
  · funext s t stage
    rw [RecordStore.load]
    dsimp only
    split
    · rfl
    · rw [FileTree.parseFile_eq record?_eq]
      cases t.readText (s.path stage) with
      | error e => rfl
      | ok text =>
        simp only [Except.map, Record.parse]
        cases (Toml.parse? text).bind Record.ofMembers? with
        | none => rfl
        | some r =>
          dsimp only
          split <;> rfl

/-! ## The operations of the cloud -/

variable (d : Documents)

/-- Stores an object. -/
def put (s : ObjectStore) (bucket key : String) (body : ByteArray) : Disk StoreError Unit :=
  ObjectStore.performing fun t => do
    let (dir, i) ← d.index s t bucket
    return .replace (ObjectStore.blobPath dir i.nextId) body ::
      .replace (ObjectStore.indexPath dir) (d.bytes (i.push key ⟨i.nextId, false⟩).toJson) ::
      (i.displaced key).map fun v => .discard (ObjectStore.blobPath dir v.id)

/-- The content of the current object of a key, if it has one. -/
def get (s : ObjectStore) (t : FileTree) (bucket key : String) :
    Except StoreError (Option ByteArray) := do
  let (dir, i) ← d.index s t bucket
  match i.current key with
  | some v => return some (← (t.read (ObjectStore.blobPath dir v.id)).mapError .files)
  | none => return none

/-- The bytes behind the URL of a template. -/
def fetchTemplate (s : StackProvider) (t : FileTree) (url : String) :
    Except ProviderError ByteArray :=
  let found : Except StoreError (Option ByteArray) :=
    match Text.after? urlScheme.toList url.toList with
    | none => .error (.service ("not a local object url: " ++ url))
    | some rest =>
      match Text.splitFirst '/' rest with
      | none => .error (.service ("malformed object url: " ++ url))
      | some (bucket, key) => d.get s.objects t (String.ofList bucket) (String.ofList key)
  match found with
  | .error e => .error (.rejected e.message)
  | .ok none => .error (.rejected ("template not found at " ++ url))
  | .ok (some body) => .ok body

/-- Stores a stack. -/
def save (s : StackProvider) (name : String) (doc : StackDoc) : Disk ProviderError Unit :=
  (Effect.replace (s.stackPath name) (d.bytes doc.toJson)).perform.mapError
    fun e => .unavailable e.message

/-- Creates a stack from the text of a template. -/
def create (s : StackProvider) (name body : String) : Disk ProviderError CreateOutcome := do
  match ← Disk.reading fun t => d.stack s t name with
  | some _ => return .alreadyExists
  | none =>
    let template ← Disk.reading fun _ => Template.parse (some body)
    if Template.requestsFailure template then d.save s name .rolledBack
    else
      let buckets ← s.provision (Template.buckets name template)
      d.save s name ⟨StackStatus.createComplete.text, template, TextMap.ofList buckets⟩
    return .created

/-- Updates a stack to the template behind a URL. -/
def update (s : StackProvider) (name url : String) : Disk ProviderError UpdateOutcome := do
  match ← Disk.reading fun t => d.stack s t name with
  | none => throw (.rejected ("stack " ++ name ++ " does not exist"))
  | some doc =>
    let body ← Disk.reading fun t => d.fetchTemplate s t url
    let template ← Disk.reading fun _ => d.template body
    if template.same doc.template then return .noChanges
    if Template.requestsFailure template then
      d.save s name { doc with status := StackStatus.updateRollbackComplete.text }
    else
      let buckets ← s.provision (Template.buckets name template)
      d.save s name
        ⟨StackStatus.updateComplete.text, template, TextMap.union doc.buckets buckets⟩
    return .updating

/-- The status of a stack. -/
def status (s : StackProvider) (t : FileTree) (name : String) : Except ProviderError StackStatus :=
  match d.stack s t name with
  | .error e => .error e
  | .ok none => .ok .absent
  | .ok (some doc) => .ok (.ofText doc.status)

/-- The stacks of a list of names. -/
def loadAll (s : StackProvider) (t : FileTree) : List String → Except ProviderError (List StackDoc)
  | [] => .ok []
  | name :: names => do
    let doc ← d.stack s t name
    let docs ← loadAll s t names
    return doc.toList ++ docs

/-- The exports of all stacks. -/
def allExports (s : StackProvider) (t : FileTree) : Except ProviderError (List StackExport) := do
  let docs ← d.loadAll s t (← s.stackNames t)
  return docs.flatMap StackDoc.exports

/-- The exports of all stacks, a page at a time. -/
def listExports (s : StackProvider) (t : FileTree) (token : Option String) :
    Except ProviderError ExportPage := do
  let all ← d.allExports s t
  return s.pageFrom all (← StackProvider.pageStart token)

/-- How the world answers a request made at a site. -/
def answer (site : Site) : (r : Request) → World → r.Answer × World
  | .store (.put bucket key body), w =>
    let (a, files) := d.put site.cloud.objects bucket key body w.files
    (a, { w with files })
  | .store (.get bucket key), w => (d.get site.cloud.objects w.files bucket key, w)
  | .stack (.create name body), w =>
    let (a, files) := d.create site.cloud.provider name body w.files
    (a, { w with files })
  | .stack (.update name url), w =>
    let (a, files) := d.update site.cloud.provider name url w.files
    (a, { w with files })
  | .stack (.status name), w => (d.status site.cloud.provider w.files name, w)
  | .stack (.listExports token), w => (d.listExports site.cloud.provider w.files token, w)
  | .onMachine .project, w => (d.project site.descriptors w.files, w)
  | .record (.load stage), w => (d.record site.records w.files stage, w)
  | r, w => site.answer r w

theorem loadAll_plain : plain.loadAll = StackProvider.loadAll := by
  funext s t names
  induction names with
  | nil => rfl
  | cons name names ih =>
    rw [loadAll, StackProvider.loadAll, ih]
    rfl

theorem bytes_plain (v : Json) : plain.bytes v = v.pretty.toUTF8 := rfl

theorem save_plain : plain.save = StackProvider.save := by
  funext s name doc
  rw [save, StackProvider.save, bytes_plain]

theorem create_plain : plain.create = StackProvider.create := by
  funext s name body
  rw [create, StackProvider.create, save_plain]
  rfl

theorem update_plain : plain.update = StackProvider.update := by
  funext s name url
  rw [update, StackProvider.update, save_plain]
  rfl

theorem answer_plain : plain.answer = Site.answer := by
  funext site r w
  cases r with
  | store c => cases c <;> rfl
  | stack c =>
    cases c with
    | create name body =>
      rw [answer, create_plain]
      rfl
    | update name url =>
      rw [answer, update_plain]
      rfl
    | listExports token =>
      simp only [answer, listExports, allExports, loadAll_plain]
      rfl
    | _ => rfl
  | onMachine c => cases c <;> rfl
  | record c => cases c <;> rfl
  | _ => rfl

theorem get_quick : ObjectStore.get = quick.get := by
  rw [quick_eq]
  rfl

theorem load_quick : StackProvider.load = quick.stack := by
  rw [quick_eq]
  rfl

theorem project_quick : ProjectFiles.load = quick.project := by
  rw [quick_eq]
  rfl

theorem parse?_compact_quick (v : Json) : Json.parse? v.compact =
    (written? (Json.compactChars v)).bind (Json.Written.value? Json.nestingLimit) := by
  rw [written?_eq]
  rfl

theorem index_compact_quick (v : Json) : BucketIndex.parse? v.compact =
    (written? (Json.compactChars v)).bind BucketIndex.ofWritten? := by
  rw [written?_eq]
  rfl

theorem answer_quick : Site.answer = quick.answer := by
  rw [quick_eq, answer_plain]

/-- A run that takes a given course. -/
def during (site : Site) (c : Course) : Handler (FileTree × Nat) where
  answer r s :=
    match r with
    | .control call => (c.answer s.2 call, s.1, s.2 + 1)
    | r =>
      let (a, w) := d.answer site r (.start s.1)
      (a, w.files, s.2 + 1)

theorem handler_quick (site : Site) : site.handler = ⟨quick.answer site⟩ := by
  rw [← answer_quick]
  rfl

theorem during_quick (site : Site) (c : Course) : (site.during c).handler = quick.during site c := by
  rw [during, ← answer_quick]
  rfl

end Documents

end Rollout
