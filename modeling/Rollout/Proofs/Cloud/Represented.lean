import Rollout.Proofs.Cloud.ObjectStore
import Rollout.Proofs.Cloud.VersionId
import Rollout.Proofs.Cloud.VersionedStore
import Rollout.Proofs.Files.Exact

/-!
A store on disk for a store as it is meant. The disk represents the buckets if each has its index
in place, and under the id of each of its revisions the content; what else lies among the
contents does not matter, so that content without an index entry is no harm. Every operation is a
list of effects with one among them that counts: the index. Up to it the disk represents the
buckets as they were, and from it on as they are to be.
-/

namespace Rollout

open FileTree Outcome

/-! ## Effects one after the other -/

/-- The effects can all be carried out; wherever they are cut off the tree satisfies `P`, and in
the end `Q`. -/
structure Effect.Lands (P Q : FileTree → Prop) (es : List Effect) (t : FileTree) : Prop where
  cut : ∀ n, ∃ t', performAll (es.take n) t = (.ok (), t') ∧ P t'
  done : ∃ t', performAll es t = (.ok (), t') ∧ Q t'

namespace Effect

variable {P Q : FileTree → Prop} {e : Effect} {es : List Effect} {t t₁ : FileTree}

theorem performAll_cons_of_ok (h : e.perform t = (.ok (), t₁)) :
    performAll (e :: es) t = performAll es t₁ := by
  rw [performAll, bind_apply, h]

theorem Lands.nil (hP : P t) (hQ : Q t) : Lands P Q [] t :=
  ⟨fun n => ⟨t, by rw [List.take_nil]; rfl, hP⟩, t, rfl, hQ⟩

theorem Lands.cons (hP : P t) (h : e.perform t = (.ok (), t₁)) (hrest : Lands P Q es t₁) :
    Lands P Q (e :: es) t where
  cut
    | 0 => ⟨t, rfl, hP⟩
    | n + 1 => by
      rw [List.take_succ_cons, performAll_cons_of_ok h]
      exact hrest.cut n
  done := by
    rw [performAll_cons_of_ok h]
    exact hrest.done

end Effect

namespace ObjectStore

variable {s : ObjectStore} {top : Location} {limit : Nat} {A : VersionedStore} {t t' : FileTree}
  {bucket bucket' key id : String} {B : VersionedBucket}

/-! ## Names -/

/-- The directory of a bucket. -/
def dirPath (s : ObjectStore) (bucket : String) : Path :=
  (s.root.joinText "buckets").joinText bucket

/-- Where all buckets are. -/
def bucketsPlace (s : ObjectStore) (work : Location) : Location := s.root.place work ++ ["buckets"]

/-- Whether a name can be that of a bucket with so many versions: it is a name by the rules of
the store, and the file system takes the paths of the contents. -/
structure Nameable (s : ObjectStore) (limit : Nat) (bucket : String) : Prop where
  name : isBucketName bucket = true
  usable : ∀ n < limit, Usable (blobPath (s.dirPath bucket) (versionId n))

theorem Nameable.mono {limit' : Nat} (h : s.Nameable limit bucket) (hle : limit' ≤ limit) :
    s.Nameable limit' bucket :=
  ⟨h.name, fun n hn => h.usable n (Nat.lt_of_lt_of_le hn hle)⟩

theorem bucketDir_of_name (h : isBucketName bucket = true) :
    s.bucketDir bucket = .ok (s.dirPath bucket) := if_pos h

theorem Nameable.bucketDir (h : s.Nameable limit bucket) :
    s.bucketDir bucket = .ok (s.dirPath bucket) := bucketDir_of_name h.name

theorem Nameable.blobs (h : s.Nameable limit bucket) (hlimit : 0 < limit) :
    Usable ((s.dirPath bucket).joinText "blobs") := by
  obtain ⟨start, hstart⟩ := isEntry_blobs.parts_joinText (s.dirPath bucket)
  exact (h.usable 0 hlimit).of_joinText hstart isEntry_blobs.isName (isEntry_versionId 0)

theorem exists_parts_dirPath (h : isBucketName bucket = true) :
    ∃ start, (s.dirPath bucket).parts = start ++ [bucket] :=
  (isEntry_of_isBucketName h).parts_joinText _

theorem Nameable.dir (h : s.Nameable limit bucket) (hlimit : 0 < limit) :
    Usable (s.dirPath bucket) := by
  obtain ⟨start, hstart⟩ := exists_parts_dirPath (s := s) h.name
  exact (h.blobs hlimit).of_joinText hstart (isEntry_of_isBucketName h.name).isName isEntry_blobs

/-- The path of the index is shorter than those of the contents. -/
theorem Nameable.index (h : s.Nameable limit bucket) (hlimit : 0 < limit) :
    Usable (indexPath (s.dirPath bucket)) := by
  obtain ⟨start, hstart⟩ := exists_parts_dirPath (s := s) h.name
  have hname := (isEntry_of_isBucketName h.name).isName
  obtain ⟨start', hstart'⟩ := isEntry_blobs.parts_joinText (s.dirPath bucket)
  have hblob := Path.text_joinText hstart' isEntry_blobs.isName (isEntry_versionId 0)
  have hindex := Path.text_joinText hstart hname isEntry_index
  have hlast := Path.parts_joinText_of_last hstart hname isEntry_index
  have hlong := (h.usable 0 hlimit).short
  rw [blobPath, hblob, Path.text_joinText hstart hname isEntry_blobs] at hlong
  have hid : (versionId 0).utf8ByteSize = 13 := by decide
  simp only [String.utf8ByteSize_append, hid] at hlong
  have hdir := h.dir hlimit
  have hnul := hdir.noNul
  refine ⟨Path.isEmpty_of_last hlast isEntry_index.isName, ?_, ?_, fun name hmem => ?_⟩
  · rw [indexPath, hindex]
    simp only [String.toList_append, List.any_append, Bool.or_eq_false_iff]
    exact ⟨⟨hnul, by decide⟩, by decide⟩
  · rw [indexPath, hindex]
    simp only [String.utf8ByteSize_append]
    have : "index.json".utf8ByteSize = 10 := by decide
    omega
  · rw [indexPath, Path.joinText, Path.names_join isEntry_index.isAbsolute_ofString,
      isEntry_index.names_ofString] at hmem
    rcases List.mem_append.1 hmem with hmem | hmem
    · exact hdir.shortNames name hmem
    · rw [List.mem_singleton.1 hmem]
      decide

/-- If the last content has a place, so have all before. -/
theorem Nameable.of_last (hname : isBucketName bucket = true)
    (h : Usable (blobPath (s.dirPath bucket) (versionId (limit - 1)))) :
    s.Nameable limit bucket := by
  refine ⟨hname, fun n hn => ?_⟩
  obtain ⟨start, hstart⟩ := isEntry_blobs.parts_joinText (s.dirPath bucket)
  refine h.sibling hstart isEntry_blobs.isName (isEntry_versionId _) (isEntry_versionId n) ?_ ?_
  · intro c hc
    rw [versionId, String.toList_ofList] at hc
    rcases List.mem_cons.1 hc with rfl | hc
    · decide
    · have := (isDecimal_of_mem_zeroPadded hc).1
      omega
  · exact utf8ByteSize_versionId_mono (by omega)

/-! ## Representing a store -/

/-- A bucket on disk: its index is in place, and so is the content of every revision. -/
structure Holds (s : ObjectStore) (limit : Nat) (t : FileTree) (bucket : String)
    (B : VersionedBucket) : Prop where
  nameable : s.Nameable limit bucket
  sound : B.Sound
  room : B.minted < limit
  index : t.entry? (s.indexPlace t.workDir bucket) = some (.file (indexBytes B.index))
  blobs : t.entry? (s.bucketPlace t.workDir bucket ++ ["blobs"]) = some .dir
  body : ∀ key, ∀ r ∈ B.revisions key, ∀ body, r.body = some body →
    t.entry? (s.blobPlace t.workDir bucket (versionId r.number)) = some (.file body)
  /-- No content is in the way of another. -/
  free : ∀ n, t.entry? (s.blobPlace t.workDir bucket (versionId n)) ≠ some .dir

/-- A store on disk: a bucket that there is is held, and of one that there is not nothing is
there. -/
structure Represents (s : ObjectStore) (top : Location) (limit : Nat) (A : VersionedStore)
    (t : FileTree) : Prop where
  tidy : t.Tidy top
  within : Within t.workDir top s.root
  clear : t.Clear (s.bucketsPlace t.workDir)
  /-- The run is in no bucket. -/
  outside : ¬s.bucketsPlace t.workDir <+: t.workDir
  held : ∀ bucket B, A bucket = some B → s.Holds limit t bucket B
  absent : ∀ bucket, isBucketName bucket = true → A bucket = none →
    t.entry? (s.bucketPlace t.workDir bucket) = none

theorem bucketPlace_eq (work : Location) :
    s.bucketPlace work bucket = s.bucketsPlace work ++ [bucket] := by
  rw [bucketPlace, bucketsPlace, List.append_assoc]
  rfl

theorem bucketPlace_prefix_index (work : Location) :
    s.bucketPlace work bucket <+: s.indexPlace work bucket := List.prefix_append _ _

theorem bucketPlace_prefix_blob (work : Location) (id : String) :
    s.bucketPlace work bucket <+: s.blobPlace work bucket id := List.prefix_append _ _

/-- No location is in two buckets. -/
theorem bucket_eq_of_place {work l : Location} (h : s.bucketPlace work bucket <+: l)
    (h' : s.bucketPlace work bucket' <+: l) : bucket = bucket' := by
  rw [bucketPlace_eq] at h h'
  obtain ⟨rest, rfl⟩ := h
  rw [List.append_assoc, List.prefix_append_right_inj] at h'
  exact (List.cons_prefix_cons.1 h').1.symm

/-- What holds a bucket lies in its directory. -/
theorem Holds.of_same (h : s.Holds limit t bucket B) (hwork : t'.workDir = t.workDir)
    (hsame : ∀ l, s.bucketPlace t.workDir bucket <+: l → t'.entry? l = t.entry? l) :
    s.Holds limit t' bucket B where
  nameable := h.nameable
  sound := h.sound
  room := h.room
  index := by
    rw [hwork, hsame _ (bucketPlace_prefix_index _)]
    exact h.index
  blobs := by
    rw [hwork, hsame _ (List.prefix_append _ _)]
    exact h.blobs
  body key r hr body hbody := by
    rw [hwork, hsame _ (bucketPlace_prefix_blob _ _)]
    exact h.body key r hr body hbody
  free n := by
    rw [hwork, hsame _ (bucketPlace_prefix_blob _ _)]
    exact h.free n

/-- What happens in the directory of a bucket concerns no other bucket. -/
theorem Represents.of_beside (h : s.Represents top limit A t) (ht' : t'.Tidy top)
    (hwork : t'.workDir = t.workDir)
    (hbeside : ∀ l, ¬s.bucketPlace t.workDir bucket <+: l → t'.entry? l = t.entry? l ∨
      (l <+: s.bucketsPlace t.workDir ∧ t'.entry? l = some .dir))
    {found : Option VersionedBucket} (hheld : ∀ B, found = some B → s.Holds limit t' bucket B)
    (habsent : found = none → t'.entry? (s.bucketPlace t.workDir bucket) = none) :
    s.Represents top limit (Function.update A bucket found) t' := by
  have hin (b : String) (l : Location) (hb : b ≠ bucket) (hl : s.bucketPlace t.workDir b <+: l) :
      t'.entry? l = t.entry? l := by
    rcases hbeside l (fun hl' => hb (bucket_eq_of_place hl hl')) with hsame | ⟨habove, -⟩
    · exact hsame
    · -- a location in a bucket is not on the way to the buckets
      have h1 := hl.length_le
      have h2 := habove.length_le
      simp only [bucketPlace_eq, List.length_append, List.length_singleton] at h1
      omega
  refine ⟨ht', hwork ▸ h.within, ?_, hwork ▸ h.outside, fun b B hB => ?_, fun b hname hnone => ?_⟩
  · intro l hl
    rw [hwork] at hl
    have hout : ¬s.bucketPlace t.workDir bucket <+: l := by
      intro hl'
      have := (hl'.trans hl).length_le
      simp only [bucketPlace_eq, List.length_append, List.length_singleton] at this
      omega
    rcases hbeside l hout with hsame | ⟨-, hdir⟩
    · rw [hsame]
      exact h.clear l hl
    · exact .inr hdir
  · by_cases hb : b = bucket
    · subst hb
      rw [Function.update_self] at hB
      exact hheld B hB
    · rw [Function.update_of_ne hb] at hB
      exact (h.held b B hB).of_same hwork fun l hl => hin b l hb hl
  · rw [hwork]
    by_cases hb : b = bucket
    · subst hb
      rw [Function.update_self] at hnone
      exact habsent hnone
    · rw [Function.update_of_ne hb] at hnone
      rw [hin b _ hb List.prefix_rfl]
      exact h.absent b hname hnone

/-! ## Looking -/

theorem Represents.readIndex (h : s.Represents top limit A t) (hlimit : limit ≤ UInt64.size)
    (hA : A bucket = some B) : s.readIndex t bucket = .ok (s.dirPath bucket, B.index) := by
  have hB := h.held bucket B hA
  have hpos : 0 < limit := Nat.lt_of_le_of_lt (Nat.zero_le _) hB.room
  exact (readIndex_of_indexBytes h.tidy h.within hB.nameable.bucketDir (hB.nameable.index hpos)
    (VersionedBucket.ordered_index hB.sound) hB.index).2
    ⟨rfl, rfl, Nat.lt_of_lt_of_le hB.room hlimit⟩

theorem Represents.exists?_dir (h : s.Represents top limit A t) (hname : isBucketName bucket = true)
    (hA : A bucket = none) : t.exists? (s.dirPath bucket) = false := by
  obtain ⟨hbelow, hplace⟩ := within_bucket h.within (bucketDir_of_name hname)
  rw [← Bool.not_eq_true, exists?_eq_true h.tidy.wf h.tidy.free hbelow.near hbelow.file, hplace,
    h.absent bucket hname hA]
  simp

theorem Represents.readIndex_of_absent (h : s.Represents top limit A t)
    (hname : isBucketName bucket = true) (hA : A bucket = none) :
    s.readIndex t bucket = .error (.noSuchBucket bucket) := by
  obtain ⟨hbelow, hplace⟩ := below_index h.within (bucketDir_of_name hname)
  have hnone : t.entry? (s.indexPlace t.workDir bucket) = none :=
    h.tidy.wf.none_of_prefix (h.absent bucket hname hA) (bucketPlace_prefix_index _)
  have hexists : t.exists? (indexPath (s.dirPath bucket)) = false := by
    rw [← Bool.not_eq_true, exists?_eq_true h.tidy.wf h.tidy.free hbelow.near hbelow.file, hplace,
      hnone]
    simp
  simp only [ObjectStore.readIndex, bucketDir_of_name hname, ok_bind, hexists, Bool.not_false,
    if_true]
  rfl

/-- Whatever is read off the index of a bucket. -/
theorem Represents.look (h : s.Represents top limit A t) (hlimit : limit ≤ UInt64.size)
    (hname : isBucketName bucket = true) {α : Type} (f : VersionedBucket → α)
    {g : Path × BucketIndex → Except StoreError α}
    (hg : ∀ B, A bucket = some B → g (s.dirPath bucket, B.index) = .ok (f B)) :
    (s.readIndex t bucket >>= g) = A.look bucket f := by
  rw [VersionedStore.look]
  cases hA : A bucket with
  | none =>
    rw [h.readIndex_of_absent hname hA]
    rfl
  | some B =>
    rw [h.readIndex hlimit hA]
    exact hg B hA

theorem Represents.get (h : s.Represents top limit A t) (hlimit : limit ≤ UInt64.size)
    (hname : isBucketName bucket = true) (key : String) :
    s.get t bucket key = A.look bucket (·.get key) := by
  refine h.look hlimit hname _ fun B hA => ?_
  have hB := h.held bucket B hA
  simp only [VersionedBucket.current_index, VersionedBucket.get, VersionedBucket.newest]
  cases hlast : (B.revisions key).getLast? with
  | none => rfl
  | some r =>
    have hr := List.mem_of_getLast? hlast
    obtain ⟨number, body⟩ := r
    cases body with
    | none => rfl
    | some body =>
      obtain ⟨hbelow, hplace⟩ :=
        below_blob h.within hB.nameable.bucketDir (isEntry_versionId number)
      have hread : t.read (blobPath (s.dirPath bucket) (versionId number)) = .ok body := by
        refine (read_eq_ok h.tidy.wf h.tidy.free hbelow.near hbelow.file).2 ⟨?_, ?_⟩
        · exact hB.nameable.usable number
            (Nat.lt_of_le_of_lt (hB.sound.numbered key _ hr) hB.room)
        · rw [hplace]
          exact hB.body key _ hr body rfl
      simp only [Option.filter_some, Option.isSome_some, if_true, Option.map_some,
        Revision.stored, hread]
      rfl

theorem Represents.isEmpty (h : s.Represents top limit A t) (hlimit : limit ≤ UInt64.size)
    (hname : isBucketName bucket = true) :
    s.isEmpty t bucket = A.look bucket (·.keys.isEmpty) :=
  h.look hlimit hname _ fun B _ => congrArg Except.ok B.isEmpty_index

theorem Represents.listObjects (h : s.Represents top limit A t) (hlimit : limit ≤ UInt64.size)
    (hname : isBucketName bucket = true) (token : Option String) :
    s.listObjects t bucket token = A.look bucket (VersionedStore.keyPage s.pageSize token) := by
  refine h.look hlimit hname _ fun B _ => ?_
  simp only [B.currentKeys_index, page, VersionedStore.keyPage, decide_eq_true_eq]
  cases token <;> rfl

theorem Represents.listVersions (h : s.Represents top limit A t) (hlimit : limit ≤ UInt64.size)
    (hname : isBucketName bucket = true) (cursor : Option VersionCursor) :
    s.listVersions t bucket cursor = A.look bucket (VersionedStore.versionPage s.pageSize cursor) := by
  refine h.look hlimit hname _ fun B _ => ?_
  simp only [B.allVersions_index, page, VersionedStore.versionPage, decide_eq_true_eq]
  cases cursor <;> rfl

/-! ## Effects on a bucket -/

/-- The tree while an operation turns one store into another. -/
def Between (s : ObjectStore) (top : Location) (limit : Nat) (A A' : VersionedStore)
    (t : FileTree) : Prop :=
  s.Represents top limit A t ∨ s.Represents top limit A' t

/-- Content that belongs to no revision can be there or not. -/
theorem Represents.of_sets_blob (h : s.Represents top limit A t) (hA : A bucket = some B) {n : Nat}
    (hfree : ∀ key, ∀ r ∈ B.revisions key, r.number ≠ n) {e : Option Entry}
    (he : e = none ∨ ∃ content, e = some (.file content)) (ht' : t'.Tidy top)
    (hsets : Sets (s.blobPlace t.workDir bucket (versionId n)) e t t') :
    s.Represents top limit A t' := by
  have hB := h.held bucket B hA
  have hother {l : Location} (hl : l ≠ s.blobPlace t.workDir bucket (versionId n)) :
      t'.entry? l = t.entry? l := by rw [hsets.entry, if_neg hl]
  have hself : s.Holds limit t' bucket B := by
    refine ⟨hB.nameable, hB.sound, hB.room, ?_, ?_, fun key r hr body hbody => ?_, fun m => ?_⟩
    · rw [hsets.work, hother indexPlace_ne_blobPlace]
      exact hB.index
    · rw [hsets.work, hother]
      · exact hB.blobs
      · intro heq
        have := congrArg List.length heq
        simp [blobPlace] at this
    · rw [hsets.work, hother fun heq => hfree key r hr (versionId_inj (blobPlace_inj heq).2)]
      exact hB.body key r hr body hbody
    · rw [hsets.work, hsets.entry]
      split
      · rcases he with rfl | ⟨content, rfl⟩ <;> simp
      · exact hB.free m
  have hupdate : s.Represents top limit (Function.update A bucket (some B)) t' :=
    h.of_beside ht' hsets.work
      (fun l hl => .inl (hother fun heq => hl (heq ▸ bucketPlace_prefix_blob _ _)))
      (fun B' hB' => Option.some.inj hB' ▸ hself) (absurd · (Option.some_ne_none B))
  rwa [← hA, Function.update_eq_self] at hupdate

/-- Once its index is written, and the contents it speaks of are there, a bucket is another. -/
theorem Represents.of_sets_index (h : s.Represents top limit A t) (hA : A bucket = some B)
    {B' : VersionedBucket} (hsound : B'.Sound) (hroom : B'.minted < limit)
    (hbody : ∀ key, ∀ r ∈ B'.revisions key, ∀ body, r.body = some body →
      t.entry? (s.blobPlace t.workDir bucket (versionId r.number)) = some (.file body))
    (ht' : t'.Tidy top)
    (hsets : Sets (s.indexPlace t.workDir bucket) (some (.file (indexBytes B'.index))) t t') :
    s.Represents top limit (Function.update A bucket (some B')) t' := by
  have hB := h.held bucket B hA
  have hother {l : Location} (hl : l ≠ s.indexPlace t.workDir bucket) :
      t'.entry? l = t.entry? l := by rw [hsets.entry, if_neg hl]
  have hself : s.Holds limit t' bucket B' := by
    refine ⟨hB.nameable, hsound, hroom, ?_, ?_, fun key r hr body hr' => ?_, fun m => ?_⟩
    · rw [hsets.work, hsets.entry, if_pos rfl]
    · rw [hsets.work, hother (by simp [indexPlace])]
      exact hB.blobs
    · rw [hsets.work, hother (Ne.symm indexPlace_ne_blobPlace)]
      exact hbody key r hr body hr'
    · rw [hsets.work, hother (Ne.symm indexPlace_ne_blobPlace)]
      exact hB.free m
  exact h.of_beside ht' hsets.work
    (fun l hl => .inl (hother fun heq => hl (heq ▸ bucketPlace_prefix_index _)))
    (fun B'' hB'' => Option.some.inj hB'' ▸ hself) (absurd · (Option.some_ne_none B'))

/-- Writing an index succeeds. -/
theorem Represents.writeIndex (h : s.Represents top limit A t) (hA : A bucket = some B)
    {B' : VersionedBucket} (hsound : B'.Sound) (hroom : B'.minted < limit)
    (hbody : ∀ key, ∀ r ∈ B'.revisions key, ∀ body, r.body = some body →
      t.entry? (s.blobPlace t.workDir bucket (versionId r.number)) = some (.file body)) :
    ∃ t', (writeIndex (s.dirPath bucket) B'.index).perform t = (.ok (), t') ∧
      s.Represents top limit (Function.update A bucket (some B')) t' := by
  have hB := h.held bucket B hA
  obtain ⟨hbelow, hplace⟩ := below_index h.within hB.nameable.bucketDir
  obtain ⟨t', hrun, ht', hsets⟩ := Effect.replace_exact h.tidy hbelow
    (hB.nameable.index (Nat.lt_of_le_of_lt (Nat.zero_le _) hB.room))
    (by
      rw [hplace]
      exact h.tidy.wf.above _ _ hB.index)
    (by
      rw [hplace, hB.index]
      simp)
    (indexBytes B'.index)
  rw [hplace] at hsets
  exact ⟨t', hrun, h.of_sets_index hA hsound hroom hbody ht' hsets⟩

/-- Writing content under a number that no revision has succeeds and changes nothing yet. -/
theorem Represents.writeBlob (h : s.Represents top limit A t) (hA : A bucket = some B) {n : Nat}
    (hn : n < limit) (hfree : ∀ key, ∀ r ∈ B.revisions key, r.number ≠ n) (body : ByteArray) :
    ∃ t', (Effect.replace (blobPath (s.dirPath bucket) (versionId n)) body).perform t =
        (.ok (), t') ∧
      s.Represents top limit A t' ∧
      t'.entry? (s.blobPlace t'.workDir bucket (versionId n)) = some (.file body) := by
  have hB := h.held bucket B hA
  obtain ⟨hbelow, hplace⟩ := below_blob h.within hB.nameable.bucketDir (isEntry_versionId n)
  obtain ⟨t', hrun, ht', hsets⟩ := Effect.replace_exact h.tidy hbelow (hB.nameable.usable n hn)
    (by
      rw [hplace, blobPlace]
      have := hB.blobs
      rwa [List.dropLast_append_of_ne_nil (by simp)])
    (by
      rw [hplace]
      exact hB.free n)
    body
  rw [hplace] at hsets
  refine ⟨t', hrun, h.of_sets_blob hA hfree (.inr ⟨body, rfl⟩) ht' hsets, ?_⟩
  rw [hsets.work, hsets.entry, if_pos rfl]

/-- Discarding contents that belong to no revision succeeds and changes nothing. -/
theorem Represents.discardBlobs (h : s.Represents top limit A t) (hA : A bucket = some B)
    {P : FileTree → Prop} (hP : ∀ t', s.Represents top limit A t' → P t') {vs : List StoredVersion}
    (hids : ∀ v ∈ vs, ∃ n < limit, v.id = versionId n ∧
      ∀ key, ∀ r ∈ B.revisions key, r.number ≠ n) :
    Effect.Lands P (s.Represents top limit A)
      (vs.map fun v => .discard (blobPath (s.dirPath bucket) v.id)) t := by
  induction vs generalizing t with
  | nil => exact .nil (hP t h) h
  | cons v vs ih =>
    obtain ⟨n, hn, hid, hfree⟩ := hids v List.mem_cons_self
    have hB := h.held bucket B hA
    obtain ⟨hbelow, hplace⟩ := below_blob h.within hB.nameable.bucketDir (isEntry_versionId n)
    obtain ⟨t', hrun, ht', hsets⟩ := Effect.discard_exact h.tidy hbelow (hB.nameable.usable n hn)
      (by
        rw [hplace]
        exact hB.free n)
    rw [hplace] at hsets
    have h' := h.of_sets_blob hA hfree (.inl rfl) ht' hsets
    refine .cons (hP t h) ?_ (ih h' fun w hw => hids w (List.mem_cons_of_mem _ hw))
    show (Effect.discard (blobPath (s.dirPath bucket) v.id)).perform t = _
    rw [hid]
    exact hrun

/-! ## Operations -/

/-- An operation whose effects land does what they lead to. -/
theorem performing_of_lands {P Q : FileTree → Prop}
    (effects : FileTree → Except StoreError (List Effect)) {es : List Effect}
    (hes : effects t = .ok es) (h : Effect.Lands P Q es t) :
    ∃ t', performing effects t = (.ok (), t') ∧ Q t' := by
  obtain ⟨t', hrun, hQ⟩ := h.done
  refine ⟨t', ?_, hQ⟩
  simp only [performing, hes, Disk.mapError, hrun]

theorem performing_of_error (effects : FileTree → Except StoreError (List Effect))
    {e : StoreError} (hes : effects t = .error e) : performing effects t = (.error e, t) := by
  simp only [performing, hes]

/-- The bucket after an operation on it. -/
abbrev Becomes (A : VersionedStore) (bucket : String) (B' : VersionedBucket) : VersionedStore :=
  Function.update A bucket (some B')

/-- Up to the index of a bucket nothing has changed, and with it everything has. -/
theorem Represents.lands_of_index (h : s.Represents top limit A t) (hA : A bucket = some B)
    {B' : VersionedBucket} (hsound : B'.Sound) (hroom : B'.minted < limit)
    (hbody : ∀ key, ∀ r ∈ B'.revisions key, ∀ body, r.body = some body →
      t.entry? (s.blobPlace t.workDir bucket (versionId r.number)) = some (.file body))
    {i : BucketIndex} (hi : i = B'.index) (vs : List StoredVersion)
    (hids : ∀ v ∈ vs, ∃ n < limit, v.id = versionId n ∧
      ∀ key, ∀ r ∈ B'.revisions key, r.number ≠ n) :
    Effect.Lands (s.Between top limit A (Becomes A bucket B'))
      (s.Represents top limit (Becomes A bucket B'))
      (ObjectStore.writeIndex (s.dirPath bucket) i ::
        vs.map fun v => .discard (blobPath (s.dirPath bucket) v.id)) t := by
  subst hi
  obtain ⟨t', hrun, h'⟩ := h.writeIndex hA hsound hroom hbody
  exact .cons (.inl h) hrun
    (h'.discardBlobs (Function.update_self ..) (fun _ => .inr) hids)

theorem Represents.put (h : s.Represents top limit A t) (hlimit : limit ≤ UInt64.size)
    (hA : A bucket = some B) (hroom : B.minted + 1 < limit) (key : String) (body : ByteArray) :
    ∃ es, s.putEffects t bucket key body = .ok es ∧
      Effect.Lands (s.Between top limit A (Becomes A bucket (B.put key body)))
        (s.Represents top limit (Becomes A bucket (B.put key body))) es t := by
  have hB := h.held bucket B hA
  have hnew (key : String) (r : Revision) (hr : r ∈ B.revisions key) : r.number ≠ B.minted + 1 := by
    have := hB.sound.numbered key r hr
    omega
  refine ⟨_, by rw [putEffects, h.readIndex hlimit hA, ok_bind]; rfl, ?_⟩
  obtain ⟨t₁, hrun, h₁, hblob⟩ := h.writeBlob hA hroom hnew body
  have hB₁ := h₁.held bucket B hA
  refine .cons (.inl h) hrun ((h₁.lands_of_index hA (hB.sound.put key body) hroom ?_
    (B.index_push key (some body)).symm _ ?_))
  · intro key' r hr content hcontent
    rw [VersionedBucket.put, VersionedBucket.revisions_push] at hr
    split at hr
    · rcases List.mem_append.1 hr with hr | hr
      · split at hr
        · exact hB₁.body key r hr content hcontent
        · cases hr
      · rw [List.mem_singleton.1 hr] at hcontent ⊢
        cases hcontent
        exact hblob
    · exact hB₁.body key' r hr content hcontent
  · intro v hv
    -- the revisions that are replaced have other numbers than those that stay
    rw [BucketIndex.displaced, VersionedBucket.versions_index] at hv
    split at hv
    · cases hv
    rename_i hversioned
    obtain ⟨r, hr, rfl⟩ := List.mem_map.1 hv
    refine ⟨r.number, Nat.lt_of_le_of_lt (hB.sound.numbered key r hr) hB.room, rfl,
      fun key' r' hr' heq => ?_⟩
    rw [VersionedBucket.put, VersionedBucket.revisions_push] at hr'
    split at hr'
    · rw [if_neg (by simpa [VersionedBucket.index] using hversioned), List.nil_append,
        List.mem_singleton] at hr'
      exact hnew key r hr (by rw [← heq, hr'])
    · rename_i hkey
      exact hkey (hB.sound.apart key key' r hr r' hr' heq.symm)

theorem Represents.delete (h : s.Represents top limit A t) (hlimit : limit ≤ UInt64.size)
    (hA : A bucket = some B) (hroom : B.versioned = true → B.minted + 1 < limit) (key : String) :
    ∃ es, s.deleteEffects t bucket key = .ok es ∧
      Effect.Lands (s.Between top limit A (Becomes A bucket (B.delete key)))
        (s.Represents top limit (Becomes A bucket (B.delete key))) es t := by
  have hB := h.held bucket B hA
  have hsound := hB.sound.delete key
  unfold VersionedBucket.delete at hsound ⊢
  rw [deleteEffects, h.readIndex hlimit hA, ok_bind]
  cases hversioned : B.versioned with
  | true =>
    simp only [hversioned, if_true] at hsound ⊢
    refine ⟨_, by rw [if_pos (show B.index.versioned = true from hversioned)]; rfl, ?_⟩
    refine h.lands_of_index hA hsound (hroom hversioned) ?_
      (B.index_push key none).symm [] (by simp)
    intro key' r hr content hcontent
    rw [VersionedBucket.revisions_push] at hr
    split at hr
    · rcases List.mem_append.1 hr with hr | hr
      · exact hB.body key r hr content hcontent
      · rw [List.mem_singleton.1 hr] at hcontent
        cases hcontent
    · exact hB.body key' r hr content hcontent
  | false =>
    simp only [hversioned, Bool.false_eq_true, if_false] at hsound ⊢
    refine ⟨_, by rw [if_neg (by simp [VersionedBucket.index, hversioned])]; rfl, ?_⟩
    refine h.lands_of_index hA hsound hB.room ?_ (B.index_dropKey key).symm _ ?_
    · intro key' r hr content hcontent
      rw [VersionedBucket.revisions_dropKey] at hr
      split at hr
      · cases hr
      · exact hB.body key' r hr content hcontent
    · intro v hv
      rw [VersionedBucket.versions_index] at hv
      obtain ⟨r, hr, rfl⟩ := List.mem_map.1 hv
      refine ⟨r.number, Nat.lt_of_le_of_lt (hB.sound.numbered key r hr) hB.room, rfl,
        fun key' r' hr' heq => ?_⟩
      rw [VersionedBucket.revisions_dropKey] at hr'
      split at hr'
      · cases hr'
      · rename_i hkey
        exact hkey (hB.sound.apart key key' r hr r' hr' heq.symm)

theorem Represents.deleteVersion (h : s.Represents top limit A t) (hlimit : limit ≤ UInt64.size)
    (hA : A bucket = some B) {r : Revision} (hr : r ∈ B.revisions key)
    (hid : versionId r.number = id) :
    ∃ es, s.deleteVersionEffects t bucket key id = .ok es ∧
      Effect.Lands (s.Between top limit A (Becomes A bucket (B.deleteRevision key id)))
        (s.Represents top limit (Becomes A bucket (B.deleteRevision key id))) es t := by
  have hB := h.held bucket B hA
  refine ⟨_, by rw [deleteVersionEffects, h.readIndex hlimit hA, ok_bind]; rfl, ?_⟩
  have hminted : (B.deleteRevision key id).minted = B.minted := by
    unfold VersionedBucket.deleteRevision
    split <;> rfl
  refine h.lands_of_index hA (hB.sound.deleteRevision key id) (hminted ▸ hB.room) ?_
    (B.index_deleteRevision key id).symm [⟨id, false⟩] ?_
  · intro key' r' hr' content hcontent
    rw [VersionedBucket.revisions_deleteRevision] at hr'
    split at hr'
    · exact hB.body key r' (List.mem_filter.1 hr').1 content hcontent
    · exact hB.body key' r' hr' content hcontent
  · intro v hv
    rw [List.mem_singleton.1 hv]
    refine ⟨r.number, Nat.lt_of_le_of_lt (hB.sound.numbered key r hr) hB.room, hid.symm,
      fun key' r' hr' heq => ?_⟩
    rw [VersionedBucket.revisions_deleteRevision] at hr'
    split at hr'
    · have := (List.mem_filter.1 hr').2
      rw [heq] at this
      simp [hid] at this
    · rename_i hkey
      exact hkey (hB.sound.apart key key' r hr r' hr' heq.symm)

theorem Represents.versioning (h : s.Represents top limit A t) (hlimit : limit ≤ UInt64.size)
    (hA : A bucket = some B) :
    ∃ es, s.versioningEffects t bucket = .ok es ∧
      Effect.Lands (s.Between top limit A (Becomes A bucket { B with versioned := true }))
        (s.Represents top limit (Becomes A bucket { B with versioned := true })) es t := by
  have hB := h.held bucket B hA
  refine ⟨_, by rw [versioningEffects, h.readIndex hlimit hA, ok_bind]; rfl, ?_⟩
  exact h.lands_of_index hA hB.sound.versioning hB.room
    (fun key r hr body hbody => hB.body key r hr body hbody) rfl [] (by simp)

theorem Represents.exists?_dir_of_held (h : s.Represents top limit A t) (hA : A bucket = some B) :
    t.exists? (s.dirPath bucket) = true := by
  have hB := h.held bucket B hA
  obtain ⟨hbelow, hplace⟩ := within_bucket h.within hB.nameable.bucketDir
  rw [exists?_eq_true h.tidy.wf h.tidy.free hbelow.near hbelow.file, hplace]
  exact ⟨hB.nameable.dir (Nat.lt_of_le_of_lt (Nat.zero_le _) hB.room), _,
    h.tidy.wf.entry?_of_prefix hB.index (bucketPlace_prefix_index _) (by simp [indexPlace])⟩

/-- The way to the contents of a bucket that is not there is clear. -/
theorem Represents.clear_blobs (h : s.Represents top limit A t)
    (hname : isBucketName bucket = true) (hA : A bucket = none) :
    t.Clear (s.bucketPlace t.workDir bucket ++ ["blobs"]) := by
  have hnone := h.absent bucket hname hA
  intro l hl
  rcases List.prefix_concat_iff.1 hl with rfl | hl
  · exact .inl (h.tidy.wf.none_of_prefix hnone (List.prefix_append _ _))
  · rw [bucketPlace_eq] at hl hnone
    rcases List.prefix_concat_iff.1 hl with rfl | hl
    · exact .inl hnone
    · exact h.clear l hl

/-- With its directories and an index, a bucket is there, and nothing is in it. -/
theorem Represents.of_created (h : s.Represents top limit A t) (hlimit : 0 < limit)
    (hname : s.Nameable limit bucket) (hA : A bucket = none) {t₁ t₂ : FileTree}
    (hopens : Opens (s.bucketPlace t.workDir bucket ++ ["blobs"]) t t₁) (ht₂ : t₂.Tidy top)
    (hsets : Sets (s.indexPlace t.workDir bucket) (some (.file (indexBytes BucketIndex.empty)))
      t₁ t₂) :
    s.Represents top limit (Becomes A bucket .empty) t₂ := by
  have hnone := h.absent bucket hname.name hA
  have hwork := hsets.work.trans hopens.work
  refine h.of_beside ht₂ hwork (fun l hl => ?_) (fun B hB => ?_)
    (absurd · (Option.some_ne_none _))
  · have hindex : l ≠ s.indexPlace t.workDir bucket := by
      rintro rfl
      exact hl (bucketPlace_prefix_index _)
    rw [hsets.entry, if_neg hindex, hopens.entry]
    by_cases habove : l <+: s.bucketPlace t.workDir bucket ++ ["blobs"]
    · rw [if_pos habove]
      refine .inr ⟨?_, rfl⟩
      rcases List.prefix_concat_iff.1 habove with rfl | habove
      · exact absurd (List.prefix_append _ _) hl
      · rw [bucketPlace_eq] at habove hl
        rcases List.prefix_concat_iff.1 habove with rfl | habove
        · exact absurd List.prefix_rfl hl
        · exact habove
    · rw [if_neg habove]
      exact .inl rfl
  · cases hB
    refine ⟨hname, .empty, hlimit, ?_, ?_, fun key r hr => (by cases hr), fun n => ?_⟩
    · rw [hwork, hsets.entry, if_pos rfl]
      rfl
    · rw [hwork, hsets.entry, if_neg (by simp [indexPlace]), hopens.entry, if_pos List.prefix_rfl]
    · rw [hwork, hsets.entry, if_neg (Ne.symm indexPlace_ne_blobPlace), hopens.entry, if_neg,
        h.tidy.wf.none_of_prefix hnone (bucketPlace_prefix_blob _ _)]
      · simp
      · intro hpre
        have := hpre.length_le
        simp [blobPlace] at this

/-- Creating a bucket makes its directories and gives it an index, unless it is there. -/
theorem Represents.create (h : s.Represents top limit A t) (hlimit : 0 < limit)
    (hname : s.Nameable limit bucket) :
    ∃ t', s.createBucket bucket t = (.ok (), t') ∧
      s.Represents top limit (A.createBucket bucket) t' := by
  rw [VersionedStore.createBucket]
  cases hA : A bucket with
  | some B =>
    have heffects : s.createEffects t bucket = .ok [] := by
      simp only [createEffects, hname.bucketDir, ok_bind, h.exists?_dir_of_held hA, if_true]
      rfl
    exact performing_of_lands (fun t => s.createEffects t bucket) heffects
      (.nil (P := fun _ => True) trivial h)
  | none =>
    have hnone := h.absent bucket hname.name hA
    have heffects : s.createEffects t bucket =
        .ok [.makeDirs ((s.dirPath bucket).joinText "blobs"),
          ObjectStore.writeIndex (s.dirPath bucket) .empty] := by
      simp only [createEffects, hname.bucketDir, ok_bind, h.exists?_dir hname.name hA,
        Bool.false_eq_true, if_false]
      rfl
    obtain ⟨hdirBelow, hdirPlace⟩ := within_bucket h.within hname.bucketDir
    have hplace : ((s.dirPath bucket).joinText "blobs").place t.workDir =
        s.bucketPlace t.workDir bucket ++ ["blobs"] := by
      rw [isEntry_blobs.place_joinText, hdirPlace]
    obtain ⟨t₁, hrun₁, ht₁, hopens⟩ := Effect.makeDirs_exact h.tidy
      (hdirBelow.toWithin.entry isEntry_blobs) (hname.blobs hlimit)
      (hplace ▸ h.clear_blobs hname.name hA)
    rw [hplace] at hopens
    obtain ⟨hbelow, hindexPlace⟩ := below_index h.within hname.bucketDir
    have hout : ¬s.indexPlace t.workDir bucket <+: s.bucketPlace t.workDir bucket ++ ["blobs"] := by
      rw [indexPlace, List.prefix_append_right_inj]
      decide
    obtain ⟨t₂, hrun₂, ht₂, hsets⟩ := Effect.replace_exact ht₁ (hbelow.of_work hopens.work)
      (hname.index hlimit)
      (by
        rw [hopens.work, hindexPlace, hopens.entry, indexPlace, List.dropLast_concat,
          if_pos (List.prefix_append _ _)])
      (by
        rw [hopens.work, hindexPlace, hopens.entry, if_neg hout,
          h.tidy.wf.none_of_prefix hnone (bucketPlace_prefix_index _)]
        simp)
      (indexBytes BucketIndex.empty)
    rw [hopens.work, hindexPlace] at hsets
    exact performing_of_lands (fun t => s.createEffects t bucket) heffects
      (.cons (P := fun _ => True) trivial hrun₁ (.cons trivial hrun₂
        (.nil trivial (h.of_created hlimit hname hA hopens ht₂ hsets))))

/-- A bucket without keys is removed with all that is left in its directory. -/
theorem Represents.deleteBucket (h : s.Represents top limit A t) (hlimit : limit ≤ UInt64.size)
    (hname : isBucketName bucket = true) :
    (s.deleteBucket bucket t).1 = (A.deleteBucket bucket).1 ∧
      s.Represents top limit (A.deleteBucket bucket).2 (s.deleteBucket bucket t).2 := by
  rw [VersionedStore.deleteBucket, ObjectStore.deleteBucket]
  cases hA : A bucket with
  | none =>
    rw [performing_of_error _ (e := .noSuchBucket bucket)]
    · exact ⟨rfl, h⟩
    · rw [deleteBucketEffects, h.readIndex_of_absent hname hA]
      rfl
  | some B =>
    have hB := h.held bucket B hA
    have hpos : 0 < limit := Nat.lt_of_le_of_lt (Nat.zero_le _) hB.room
    have heffects : s.deleteBucketEffects t bucket =
        if B.keys.isEmpty then .ok [.removeTree (s.dirPath bucket)]
        else .error (.bucketNotEmpty bucket) := by
      rw [deleteBucketEffects, h.readIndex hlimit hA, ok_bind]
      simp only [VersionedBucket.isEmpty_index]
      cases B.keys.isEmpty <;> rfl
    simp only
    split
    · rename_i hempty
      rw [if_pos hempty] at heffects
      obtain ⟨hbelow, hplace⟩ := within_bucket h.within hB.nameable.bucketDir
      have houtside : ¬s.bucketPlace t.workDir bucket <+: t.workDir := fun hin =>
        h.outside ((bucketPlace_eq (s := s) t.workDir ▸ List.prefix_append _ _ : _ <+: _).trans hin)
      obtain ⟨t', hrun, ht', hcuts⟩ := Effect.removeTree_exact h.tidy hbelow
        (hB.nameable.dir hpos)
        (by
          rw [hplace]
          exact h.tidy.wf.entry?_of_prefix hB.index (bucketPlace_prefix_index _)
            (by simp [indexPlace]))
        (hplace ▸ houtside)
      rw [hplace] at hcuts
      have h' : s.Represents top limit (Function.update A bucket none) t' := by
        refine h.of_beside ht' hcuts.work (fun l hl => .inl ?_) (fun B hB => (by cases hB))
          fun _ => ?_
        · rw [hcuts.entry, if_neg hl]
        · rw [hcuts.entry, if_pos List.prefix_rfl]
      obtain ⟨t'', hrun', hdone⟩ := performing_of_lands
        (fun t => s.deleteBucketEffects t bucket) heffects
        (.cons (P := fun _ => True) trivial hrun (.nil trivial h'))
      rw [hrun']
      exact ⟨rfl, hdone⟩
    · rename_i hempty
      rw [if_neg hempty] at heffects
      rw [performing_of_error (fun t => s.deleteBucketEffects t bucket) heffects]
      exact ⟨rfl, h⟩

end ObjectStore

end Rollout
