import Rollout.Cloud.ObjectStore
import Rollout.Proofs.Cloud.Bucket
import Rollout.Proofs.Files.Update
import Rollout.Proofs.Text.Utf8

/-!
The objects of a store on disk. Its operations keep every index sound, and each of them changes
the content of the one key it is about, in the one bucket it is about; creating a bucket and
keeping its versions change no content at all. All this holds as long as a bucket can be read
afterwards: a counter that outgrows 64 bits makes the index unreadable for good.
-/

namespace Rollout

open FileTree Outcome

namespace ObjectStore

variable {s : ObjectStore} {t t' : FileTree} {top : Location} {bucket bucket' key key' : String}
  {dir : Path} {i : BucketIndex} {body : ByteArray}

/-! ## Places -/

/-- The directory of a bucket. -/
def bucketPlace (s : ObjectStore) (work : Location) (bucket : String) : Location :=
  s.root.place work ++ ["buckets", bucket]

/-- The index of a bucket. -/
def indexPlace (s : ObjectStore) (work : Location) (bucket : String) : Location :=
  s.bucketPlace work bucket ++ ["index.json"]

/-- The content of a version. -/
def blobPlace (s : ObjectStore) (work : Location) (bucket id : String) : Location :=
  s.bucketPlace work bucket ++ ["blobs", id]

theorem isEntry_of_isBucketName (h : isBucketName bucket = true) : Path.IsEntry bucket := by
  simp only [isBucketName, Bool.and_eq_true, decide_eq_true_eq, Bool.not_eq_true',
    List.any_eq_false] at h
  obtain ⟨⟨⟨hempty, hdot⟩, hback⟩, hslash⟩ := h
  exact ⟨fun hmem => by simpa using hslash '/' hmem, ⟨hempty, hdot⟩, hback⟩

theorem isEntry_index : Path.IsEntry "index.json" := ⟨by decide, by decide, by decide⟩

theorem isEntry_buckets : Path.IsEntry "buckets" := ⟨by decide, by decide, by decide⟩

theorem isEntry_blobs : Path.IsEntry "blobs" := ⟨by decide, by decide, by decide⟩

theorem isEntry_versionId (n : Nat) : Path.IsEntry (versionId n) := by
  have hlist : (versionId n).toList = 'v' :: zeroPadded 12 n := by simp [versionId]
  have hne {text : String} (h : text.toList.head? ≠ some 'v') : versionId n ≠ text := by
    rintro rfl
    exact h (by rw [hlist]; rfl)
  refine ⟨?_, ⟨hne (by decide), hne (by decide)⟩, hne (by decide)⟩
  rw [hlist, List.mem_cons, not_or]
  refine ⟨by decide, fun hmem => ?_⟩
  obtain ⟨h1, -⟩ := isDecimal_of_mem_zeroPadded hmem
  exact absurd h1 (by decide)

theorem bucketDir_eq_ok : s.bucketDir bucket = .ok dir ↔
    isBucketName bucket = true ∧ dir = (s.root.joinText "buckets").joinText bucket := by
  unfold bucketDir
  split
  · rename_i hname
    rw [Except.ok.injEq, eq_comm]
    exact ⟨fun h => ⟨hname, h⟩, fun h => h.2⟩
  · rename_i hname
    exact ⟨nofun, fun h => absurd h.1 hname⟩

/-- A store in `top` has its buckets there. -/
theorem within_bucket {work : Location} (hs : Within work top s.root)
    (h : s.bucketDir bucket = .ok dir) :
    Below work top dir ∧ dir.place work = s.bucketPlace work bucket := by
  obtain ⟨hname, rfl⟩ := bucketDir_eq_ok.1 h
  have hentry := isEntry_of_isBucketName hname
  refine ⟨(hs.entry isEntry_buckets).toWithin.entry hentry, ?_⟩
  rw [hentry.place_joinText, isEntry_buckets.place_joinText, List.append_assoc]
  rfl

theorem below_index {work : Location} (hs : Within work top s.root)
    (h : s.bucketDir bucket = .ok dir) :
    Below work top (indexPath dir) ∧ (indexPath dir).place work = s.indexPlace work bucket := by
  obtain ⟨hdir, hplace⟩ := within_bucket hs h
  refine ⟨hdir.toWithin.entry isEntry_index, ?_⟩
  rw [indexPath, isEntry_index.place_joinText, hplace]
  rfl

theorem below_blob {work : Location} {id : String} (hs : Within work top s.root)
    (h : s.bucketDir bucket = .ok dir) (hid : Path.IsEntry id) :
    Below work top (blobPath dir id) ∧ (blobPath dir id).place work = s.blobPlace work bucket id := by
  obtain ⟨hdir, hplace⟩ := within_bucket hs h
  refine ⟨(hdir.toWithin.entry isEntry_blobs).toWithin.entry hid, ?_⟩
  rw [blobPath, hid.place_joinText, isEntry_blobs.place_joinText, hplace, List.append_assoc]
  rfl

theorem indexPlace_inj {work : Location} (h : s.indexPlace work bucket = s.indexPlace work bucket') :
    bucket = bucket' := by
  simpa [indexPlace, bucketPlace] using h

theorem blobPlace_inj {work : Location} {id id' : String}
    (h : s.blobPlace work bucket id = s.blobPlace work bucket' id') :
    bucket = bucket' ∧ id = id' := by
  simpa [blobPlace, bucketPlace] using h

theorem indexPlace_ne_blobPlace {work : Location} {id : String} :
    s.indexPlace work bucket ≠ s.blobPlace work bucket' id := by
  intro h
  have := congrArg List.length h
  simp [indexPlace, blobPlace, bucketPlace] at this

/-! ## Reading -/

/-- What the index of a bucket is read from. -/
theorem readIndex_eq_ok (ht : t.Tidy top) (hs : Within t.workDir top s.root) :
    s.readIndex t bucket = .ok (dir, i) ↔
      s.bucketDir bucket = .ok dir ∧ Usable (indexPath dir) ∧
        ∃ content text, t.entry? (s.indexPlace t.workDir bucket) = some (.file content) ∧
          String.fromUTF8? content = some text ∧ BucketIndex.parse? text = some i := by
  simp only [readIndex, bind_eq_ok, throw_bind, guard_eq_ok, mapError_eq_ok]
  constructor
  · rintro ⟨dir', hdir, hexists, text, htext, h⟩
    obtain ⟨hbelow, hplace⟩ := below_index hs hdir
    obtain ⟨hu, content, hentry, hdecoded⟩ := (readText_eq_ok ht hbelow).1 htext
    split at h
    · rename_i i' hi
      cases h
      exact ⟨hdir, hu, content, text, hplace ▸ hentry, hdecoded, hi⟩
    · cases h
  · rintro ⟨hdir, hu, content, text, hentry, htext, hi⟩
    obtain ⟨hbelow, hplace⟩ := below_index hs hdir
    rw [← hplace] at hentry
    have hexists : t.exists? (indexPath dir) = true :=
      (exists?_eq_true ht.wf ht.free hbelow.near hbelow.file).2 ⟨hu, _, hentry⟩
    refine ⟨dir, hdir, by simp [hexists], text,
      (readText_eq_ok ht hbelow).2 ⟨hu, content, hentry, htext⟩, ?_⟩
    rw [hi]
    rfl

/-- Whether the index of a bucket can be read. -/
def Readable (s : ObjectStore) (t : FileTree) (bucket : String) : Prop :=
  ∃ found, s.readIndex t bucket = .ok found

/-- The content of the current object of a key, where there is one that can be read. -/
def content (s : ObjectStore) (t : FileTree) (bucket key : String) : Option ByteArray :=
  (s.get t bucket key).toOption.join

/-- Every index that can be read is sound. -/
def Sound (s : ObjectStore) (t : FileTree) : Prop :=
  ∀ bucket dir i, s.readIndex t bucket = .ok (dir, i) → i.Sound

/-- The counters have room for so many more versions in every bucket. -/
def Room (s : ObjectStore) (t : FileTree) (n : Nat) : Prop :=
  n < UInt64.size ∧
    ∀ bucket dir i, s.readIndex t bucket = .ok (dir, i) → i.nextVersion + n < UInt64.size

theorem content_eq_some_of_get : s.content t bucket key = some body ↔
    s.get t bucket key = .ok (some body) := by
  unfold content
  cases s.get t bucket key with
  | error e => simp [Except.toOption]
  | ok found => simp [Except.toOption]

theorem content_eq_some : s.content t bucket key = some body ↔
    ∃ dir i v, s.readIndex t bucket = .ok (dir, i) ∧ i.current key = some v ∧
      t.read (blobPath dir v.id) = .ok body := by
  rw [content_eq_some_of_get]
  simp only [get, bind_eq_ok]
  constructor
  · rintro ⟨⟨dir, i⟩, hindex, h⟩
    cases hv : i.current key with
    | none =>
      simp only [hv] at h
      cases h
    | some v =>
      simp only [hv, bind_eq_ok, mapError_eq_ok, pure_eq_ok] at h
      obtain ⟨body', hread, hbody⟩ := h
      cases hbody
      exact ⟨dir, i, v, hindex, hv, hread⟩
  · rintro ⟨dir, i, v, hindex, hv, hread⟩
    refine ⟨(dir, i), hindex, ?_⟩
    simp only [hv, bind_eq_ok, mapError_eq_ok, pure_eq_ok]
    exact ⟨body, hread, rfl⟩

/-- The object behind a URL that was made for it. -/
theorem readUrl_objectUrl (h : isBucketName bucket = true) (key : String) :
    s.readUrl t (objectUrl bucket key) = s.get t bucket key := by
  have hurl : (objectUrl bucket key).toList =
      urlScheme.toList ++ (bucket.toList ++ '/' :: key.toList) := by
    simp [objectUrl]
  simp only [readUrl, hurl, Text.after?_append,
    Text.splitFirst_append (isEntry_of_isBucketName h).noSlash, String.ofList_toList]

theorem content_of_not_readable (h : ¬s.Readable t bucket) : s.content t bucket key = none := by
  cases hc : s.content t bucket key with
  | none => rfl
  | some body =>
    obtain ⟨dir, i, v, hindex, -, -⟩ := content_eq_some.1 hc
    exact absurd ⟨_, hindex⟩ h

theorem readable_of_content (h : s.content t bucket key = some body) : s.Readable t bucket := by
  obtain ⟨dir, i, v, hindex, -⟩ := content_eq_some.1 h
  exact ⟨_, hindex⟩

theorem isBucketName_of_readable (h : s.Readable t bucket) : isBucketName bucket = true := by
  obtain ⟨⟨dir, i⟩, hindex⟩ := h
  simp only [readIndex, bind_eq_ok] at hindex
  obtain ⟨dir', hdir, -⟩ := hindex
  exact (bucketDir_eq_ok.1 hdir).1

/-- A store that lies in a tidy tree and has sound indexes. -/
structure Steady (s : ObjectStore) (top : Location) (t : FileTree) : Prop where
  tidy : t.Tidy top
  within : Within t.workDir top s.root
  sound : s.Sound t

/-- The content of a key of a sound store is what stands at the place of its version. -/
theorem content_eq_some_of_sound (ht : t.Tidy top) (hs : Within t.workDir top s.root)
    (hsound : s.Sound t) : s.content t bucket key = some body ↔
      ∃ dir i v, s.readIndex t bucket = .ok (dir, i) ∧ i.current key = some v ∧
        Usable (blobPath dir v.id) ∧
          t.entry? (s.blobPlace t.workDir bucket v.id) = some (.file body) := by
  rw [content_eq_some]
  refine exists_congr fun dir => exists_congr fun i => exists_congr fun v => ?_
  refine and_congr_right fun hindex => and_congr_right fun hv => ?_
  obtain ⟨hdir, -, -⟩ := (readIndex_eq_ok ht hs).1 hindex
  obtain ⟨n, -, hid⟩ :=
    (hsound bucket dir i hindex).minted key v (BucketIndex.mem_versions_of_current hv)
  obtain ⟨hbelow, hplace⟩ := below_blob hs hdir (hid ▸ isEntry_versionId n)
  rw [read_eq_ok ht.wf ht.free hbelow.near hbelow.file, hplace]

/-! ## What stays -/

variable {S : Location → Prop}

theorem readIndex_of_touched (ht : t.Tidy top) (ht' : t'.Tidy top)
    (hs : Within t.workDir top s.root) (h : Touched top S t t')
    (hindex : ¬S (s.indexPlace t.workDir bucket)) :
    s.readIndex t' bucket = .ok (dir, i) ↔ s.readIndex t bucket = .ok (dir, i) := by
  rw [readIndex_eq_ok ht' (h.work.symm ▸ hs), readIndex_eq_ok ht hs, h.work]
  simp only [h.file_iff hindex]

theorem content_of_touched (ht : t.Tidy top) (ht' : t'.Tidy top)
    (hs : Within t.workDir top s.root) (hsound : s.Sound t) (h : Touched top S t t')
    (hindex : ¬S (s.indexPlace t.workDir bucket))
    (hblob : ∀ dir i v, s.readIndex t bucket = .ok (dir, i) → i.current key = some v →
      ¬S (s.blobPlace t.workDir bucket v.id)) :
    s.content t' bucket key = s.content t bucket key := by
  refine Option.ext fun body => ?_
  rw [content_eq_some, content_eq_some]
  refine exists_congr fun dir => exists_congr fun i => exists_congr fun v => ?_
  rw [readIndex_of_touched ht ht' hs h hindex]
  refine and_congr_right fun hread => and_congr_right fun hv => ?_
  obtain ⟨hdir, -, -⟩ := (readIndex_eq_ok ht hs).1 hread
  obtain ⟨n, -, hid⟩ :=
    (hsound bucket dir i hread).minted key v (BucketIndex.mem_versions_of_current hv)
  obtain ⟨hbelow, hplace⟩ := below_blob hs hdir (hid ▸ isEntry_versionId n)
  exact h.read_iff ht ht' hbelow (hplace ▸ hblob dir i v hread hv)

/-- The files of a bucket: its index, and the contents of the versions its counter can mint. -/
def InBucket (s : ObjectStore) (work : Location) (bucket : String) (l : Location) : Prop :=
  l = s.indexPlace work bucket ∨ ∃ n, l = s.blobPlace work bucket (versionId n)

/-- The files of all buckets. -/
def InStore (s : ObjectStore) (work : Location) (l : Location) : Prop :=
  ∃ bucket, s.InBucket work bucket l

theorem InStore.below {work l : Location} (hs : Within work top s.root) (h : s.InStore work l) :
    top <+: l := by
  obtain ⟨bucket, rfl | ⟨n, rfl⟩⟩ := h
  · exact hs.below.trans ((List.prefix_append _ _).trans (List.prefix_append _ _))
  · exact hs.below.trans ((List.prefix_append _ _).trans (List.prefix_append _ _))

/-- Whether a bucket has an index document, readable or not. -/
def Opened (s : ObjectStore) (t : FileTree) (bucket : String) : Prop :=
  ∃ content, t.entry? (s.indexPlace t.workDir bucket) = some (.file content)

theorem Steady.opened_of_readable (h : s.Steady top t) (hr : s.Readable t bucket) :
    s.Opened t bucket := by
  obtain ⟨⟨dir, i⟩, hindex⟩ := hr
  obtain ⟨-, -, content, -, hentry, -, -⟩ := (readIndex_eq_ok h.tidy h.within).1 hindex
  exact ⟨content, hentry⟩

theorem Room.mono {m n : Nat} (h : s.Room t n) (hmn : m ≤ n) : s.Room t m :=
  ⟨by have := h.1; omega, fun b d i hi => by have := h.2 b d i hi; omega⟩

/-- What steps leave of a store that change the files of `S`, the contents of the keys of `K`,
and mint at most `n` versions. -/
structure Kept (s : ObjectStore) (top : Location) (S : Location → Prop)
    (K : String → String → Prop) (n : Nat) (t t' : FileTree) : Prop where
  steady : s.Steady top t'
  touched : Touched top S t t'
  content : ∀ b key, s.Readable t' b → ¬K b key → s.content t' b key = s.content t b key
  opened : ∀ b, s.Opened t b → s.Opened t' b
  /-- A bucket becomes readable only by being created. -/
  fresh : ∀ b, s.Readable t' b → s.Readable t b ∨ ¬s.Opened t b
  room : ∀ m, s.Room t (m + n) → s.Room t' m ∧ ∀ b, s.Readable t b → s.Readable t' b

namespace Kept

variable {S' : Location → Prop} {K K' : String → String → Prop} {m n : Nat} {t'' : FileTree}

theorem refl (h : s.Steady top t) (S : Location → Prop) (K : String → String → Prop) (n : Nat) :
    s.Kept top S K n t t where
  steady := h
  touched := .refl ..
  content _ _ _ _ := rfl
  opened _ h := h
  fresh _ h := .inl h
  room _ h := ⟨h.mono (by omega), fun _ h => h⟩

theorem mono (h : s.Kept top S K m t t') (hS : ∀ l, S l → S' l) (hK : ∀ b k, K b k → K' b k)
    (hn : m ≤ n) : s.Kept top S' K' n t t' where
  steady := h.steady
  touched := h.touched.mono hS
  content b k hr hk := h.content b k hr fun hk' => hk (hK b k hk')
  opened := h.opened
  fresh := h.fresh
  room _ hroom := h.room _ (hroom.mono (by omega))

theorem trans (ht : s.Steady top t) (h : s.Kept top S K m t t') (h' : s.Kept top S K n t' t'') :
    s.Kept top S K (m + n) t t'' where
  steady := h'.steady
  touched := h.touched.trans h'.touched
  content b k hr hk := by
    rw [h'.content b k hr hk]
    rcases h'.fresh b hr with hr' | hclosed
    · exact h.content b k hr' hk
    · -- a bucket without an index in between had none before
      have hnot' : ¬s.Readable t' b := fun hr' => hclosed (h.steady.opened_of_readable hr')
      have hnot : ¬s.Readable t b := fun hr => hclosed (h.opened b (ht.opened_of_readable hr))
      rw [content_of_not_readable hnot', content_of_not_readable hnot]
  opened b hb := h'.opened b (h.opened b hb)
  fresh b hr := by
    rcases h'.fresh b hr with hr' | hclosed
    · exact h.fresh b hr'
    · exact .inr fun hopen => hclosed (h.opened b hopen)
  room k hroom := by
    obtain ⟨hroom', hreadable⟩ := h.room (k + n) (hroom.mono (by omega))
    obtain ⟨hroom'', hreadable'⟩ := h'.room k hroom'
    exact ⟨hroom'', fun b hb => hreadable' b (hreadable b hb)⟩

/-- Steps that change less, after others. -/
theorem extend (h : s.Kept top S K m t t') (ht : s.Steady top t) (h' : s.Kept top S' K' n t' t'')
    (hS : ∀ l, S' l → S l) (hK : ∀ b k, K' b k → K b k) {k : Nat} (hk : m + n ≤ k) :
    s.Kept top S K k t t'' :=
  (h.trans ht (h'.mono hS hK (Nat.le_refl _))).mono (fun _ => id) (fun _ _ => id) hk

/-- Where there was room for what was minted, the content of other keys is the same. -/
theorem content_eq (h : s.Kept top S K n t t') (hroom : s.Room t n) (hK : ¬K bucket key) :
    s.content t' bucket key = s.content t bucket key := by
  have hreadable := (h.room 0 (by rwa [Nat.zero_add])).2 bucket
  by_cases hr : s.Readable t' bucket
  · exact h.content bucket key hr hK
  · rw [content_of_not_readable hr, content_of_not_readable fun hr' => hr (hreadable hr')]

end Kept

/-! ## Writing an index -/

/-- Once its index is in place, a bucket has it, unless the counter is too great to be read. -/
theorem readIndex_of_indexBytes (ht : t.Tidy top) (hs : Within t.workDir top s.root)
    (hdir : s.bucketDir bucket = .ok dir) (hu : Usable (indexPath dir)) (ho : i.objects.Ordered)
    (hentry : t.entry? (s.indexPlace t.workDir bucket) = some (.file (indexBytes i)))
    {dir' : Path} {i' : BucketIndex} :
    s.readIndex t bucket = .ok (dir', i') ↔ dir' = dir ∧ i' = i ∧ i.nextVersion < UInt64.size := by
  rw [readIndex_eq_ok ht hs, hdir, hentry]
  constructor
  · rintro ⟨hdir', hu', content, text, hcontent, htext, hi⟩
    cases hdir'
    cases hcontent
    rw [indexBytes, Text.fromUTF8?_toUTF8] at htext
    cases htext
    obtain ⟨hi', hn⟩ := BucketIndex.eq_of_parse?_toJson ho hi
    exact ⟨rfl, hi', hn⟩
  · rintro ⟨rfl, rfl, hn⟩
    exact ⟨rfl, hu, _, i'.toJson.pretty, rfl, Text.fromUTF8?_toUTF8 _,
      BucketIndex.parse?_toJson ho hn⟩

/-- Changes beside every index and every current content change no content. -/
theorem Steady.kept_of_touched (h : s.Steady top t) (ht' : t'.Tidy top)
    (htouched : Touched top S t t') (hindex : ∀ b, ¬S (s.indexPlace t.workDir b))
    (hblob : ∀ b dir i key v, s.readIndex t b = .ok (dir, i) → i.current key = some v →
      ¬S (s.blobPlace t.workDir b v.id)) (K : String → String → Prop) (n : Nat) :
    s.Kept top S K n t t' := by
  have hsame (b : String) (dir : Path) (i : BucketIndex) :
      s.readIndex t' b = .ok (dir, i) ↔ s.readIndex t b = .ok (dir, i) :=
    readIndex_of_touched h.tidy ht' h.within htouched (hindex b)
  refine ⟨⟨ht', htouched.work ▸ h.within, fun b dir i hi => ?_⟩, htouched, fun b key _ _ => ?_,
    fun b => ?_, fun b => ?_, fun m hroom => ⟨⟨?_, fun b dir i hi => ?_⟩, fun b => ?_⟩⟩
  · exact h.sound b dir i ((hsame b dir i).1 hi)
  · exact content_of_touched h.tidy ht' h.within h.sound htouched (hindex b)
      fun dir i v => hblob b dir i key v
  · rintro ⟨content, hentry⟩
    refine ⟨content, ?_⟩
    rw [htouched.work]
    exact (htouched.file_iff (hindex b)).2 hentry
  · rintro ⟨⟨dir, i⟩, hi⟩
    exact .inl ⟨_, (hsame b dir i).1 hi⟩
  · have := hroom.1
    omega
  · have := hroom.2 b dir i ((hsame b dir i).1 hi)
    omega
  · rintro ⟨⟨dir, i⟩, hi⟩
    exact ⟨_, (hsame b dir i).2 hi⟩

/-- Changes beside all buckets change no content. -/
theorem Steady.kept_of_beside (h : s.Steady top t) (ht' : t'.Tidy top)
    (htouched : Touched top S t t') (hS : ∀ l, S l → ¬s.InStore t.workDir l) :
    s.Kept top S (fun _ _ => False) 0 t t' := by
  refine h.kept_of_touched ht' htouched (fun bucket hl => hS _ hl ⟨bucket, .inl rfl⟩) ?_ _ 0
  intro bucket dir i key v hi hv hl
  obtain ⟨n, -, hid⟩ :=
    (h.sound bucket dir i hi).minted key v (BucketIndex.mem_versions_of_current hv)
  exact hS _ hl ⟨bucket, .inr ⟨n, by rw [hid]⟩⟩

/-- Beside new directories, nothing changed. -/
theorem Steady.kept_of_dirs (h : s.Steady top t) (ht' : t'.Tidy top)
    (htouched : Touched top (fun _ => False) t t') (S : Location → Prop)
    (K : String → String → Prop) (n : Nat) : s.Kept top S K n t t' :=
  (h.kept_of_touched ht' htouched (fun _ => id) (fun _ _ _ _ _ _ _ => id) K n).mono
    (fun _ => False.elim) (fun _ _ => id) (Nat.le_refl _)

/-- A new index changes what is said of its bucket alone. -/
theorem Steady.kept_of_self (h : s.Steady top t) (ht' : t'.Tidy top)
    (htouched : Touched top (· = s.indexPlace t.workDir bucket) t t')
    (hdir : s.bucketDir bucket = .ok dir) (hu : Usable (indexPath dir)) (hsound : i.Sound)
    (hentry : t'.entry? (s.indexPlace t.workDir bucket) = some (.file (indexBytes i)))
    {K : String → String → Prop} {n : Nat}
    (hcontent : s.readIndex t' bucket = .ok (dir, i) → ∀ key, ¬K bucket key →
      s.content t' bucket key = s.content t bucket key)
    (hfresh : s.Readable t bucket ∨ ¬s.Opened t bucket)
    (hroom : ∀ m, s.Room t (m + n) → i.nextVersion + m < UInt64.size) :
    s.Kept top (· = s.indexPlace t.workDir bucket) K n t t' := by
  have hother (b : String) (hb : b ≠ bucket) (dir : Path) (i : BucketIndex) :
      s.readIndex t' b = .ok (dir, i) ↔ s.readIndex t b = .ok (dir, i) :=
    readIndex_of_touched h.tidy ht' h.within htouched fun hin => hb (indexPlace_inj hin)
  have hself {dir' : Path} {i' : BucketIndex} :
      s.readIndex t' bucket = .ok (dir', i') ↔
        dir' = dir ∧ i' = i ∧ i.nextVersion < UInt64.size :=
    readIndex_of_indexBytes ht' (htouched.work ▸ h.within) hdir hu hsound.ordered
      (by rw [htouched.work, hentry])
  refine ⟨⟨ht', htouched.work ▸ h.within, fun b dir₁ i₁ hi₁ => ?_⟩, htouched,
    fun b key hr hk => ?_, fun b => ?_, fun b => ?_,
    fun m hm => ⟨⟨?_, fun b dir₁ i₁ hi₁ => ?_⟩, fun b => ?_⟩⟩
  · by_cases hb : b = bucket
    · subst hb
      exact (hself.1 hi₁).2.1 ▸ hsound
    · exact h.sound b dir₁ i₁ ((hother b hb dir₁ i₁).1 hi₁)
  · by_cases hb : b = bucket
    · subst hb
      obtain ⟨⟨dir₁, i₁⟩, hi₁⟩ := hr
      obtain ⟨rfl, rfl, -⟩ := hself.1 hi₁
      exact hcontent hi₁ key hk
    · exact content_of_touched h.tidy ht' h.within h.sound htouched
        (fun hin => hb (indexPlace_inj hin)) fun _ _ _ _ _ hin => indexPlace_ne_blobPlace hin.symm
  · rintro ⟨content, hopen⟩
    unfold Opened
    rw [htouched.work]
    by_cases hb : b = bucket
    · exact ⟨_, hb ▸ hentry⟩
    · exact ⟨content, (htouched.file_iff fun hin => hb (indexPlace_inj hin)).2 hopen⟩
  · rintro ⟨⟨dir₁, i₁⟩, hi₁⟩
    by_cases hb : b = bucket
    · exact hb ▸ hfresh
    · exact .inl ⟨_, (hother b hb dir₁ i₁).1 hi₁⟩
  · have := hm.1
    omega
  · by_cases hb : b = bucket
    · subst hb
      exact (hself.1 hi₁).2.1 ▸ hroom m hm
    · have := hm.2 b dir₁ i₁ ((hother b hb dir₁ i₁).1 hi₁)
      omega
  · rintro ⟨⟨dir₁, i₁⟩, hi₁⟩
    by_cases hb : b = bucket
    · subst hb
      have := hroom m hm
      exact ⟨_, hself.2 ⟨rfl, rfl, by omega⟩⟩
    · exact ⟨_, (hother b hb dir₁ i₁).2 hi₁⟩

/-- A new index in place of one that could be read changes what it says about current objects. -/
theorem Steady.kept_of_index (h : s.Steady top t) (ht' : t'.Tidy top)
    (htouched : Touched top (· = s.indexPlace t.workDir bucket) t t')
    (hread : s.readIndex t bucket = .ok (dir, i)) {i' : BucketIndex}
    (hentry : t'.entry? (s.indexPlace t.workDir bucket) = some (.file (indexBytes i')))
    (hsound : i'.Sound) {n : Nat} (hn : i'.nextVersion ≤ i.nextVersion + n) :
    s.Kept top (· = s.indexPlace t.workDir bucket)
      (fun b key => b = bucket ∧ i'.current key ≠ i.current key) n t t' := by
  obtain ⟨hdir, hu, -⟩ := (readIndex_eq_ok h.tidy h.within).1 hread
  refine h.kept_of_self ht' htouched hdir hu hsound hentry (fun hread' key hk => ?_)
    (.inl ⟨_, hread⟩) fun m hm => ?_
  · have hcurrent : i'.current key = i.current key := by
      by_cases hc : i'.current key = i.current key
      · exact hc
      · exact absurd ⟨rfl, hc⟩ hk
    have hblob {v : StoredVersion} (hv : i.current key = some v) {body : ByteArray} :
        t'.read (blobPath dir v.id) = .ok body ↔ t.read (blobPath dir v.id) = .ok body := by
      obtain ⟨n, -, hid⟩ :=
        (h.sound bucket dir i hread).minted key v (BucketIndex.mem_versions_of_current hv)
      obtain ⟨hbelow, hplace⟩ := below_blob h.within hdir (hid ▸ isEntry_versionId n)
      refine htouched.read_iff h.tidy ht' hbelow ?_
      rw [hplace]
      exact fun heq => indexPlace_ne_blobPlace heq.symm
    refine Option.ext fun body => ?_
    rw [content_eq_some, content_eq_some]
    constructor
    · rintro ⟨dir₂, i₂, v, hi₂, hv, hbody⟩
      rw [hread'] at hi₂
      cases hi₂
      rw [hcurrent] at hv
      exact ⟨dir, i, v, hread, hv, (hblob hv).1 hbody⟩
    · rintro ⟨dir₂, i₂, v, hi₂, hv, hbody⟩
      rw [hread] at hi₂
      cases hi₂
      exact ⟨dir, i', v, hread', hcurrent.trans hv, (hblob hv).2 hbody⟩
  · have := hm.2 bucket dir i hread
    omega

/-- A first index in a bucket brings no content. -/
theorem Steady.kept_of_first_index (h : s.Steady top t) (ht' : t'.Tidy top)
    (htouched : Touched top (· = s.indexPlace t.workDir bucket) t t')
    (hdir : s.bucketDir bucket = .ok dir) (hu : Usable (indexPath dir))
    (hclosed : ¬s.Opened t bucket)
    (hentry : t'.entry? (s.indexPlace t.workDir bucket) =
      some (.file (indexBytes BucketIndex.empty)))
    (K : String → String → Prop) (n : Nat) :
    s.Kept top (· = s.indexPlace t.workDir bucket) K n t t' := by
  refine h.kept_of_self ht' htouched hdir hu BucketIndex.Sound.empty hentry
    (fun hread' key _ => ?_) (.inr hclosed) fun m hm => ?_
  · rw [content_of_not_readable fun hr => hclosed (h.opened_of_readable hr)]
    cases hc : s.content t' bucket key with
    | none => rfl
    | some body =>
      obtain ⟨dir₁, i₁, v, hi₁, hv, -⟩ := content_eq_some.1 hc
      rw [hread'] at hi₁
      cases hi₁
      cases hv
  · have hzero : BucketIndex.empty.nextVersion = 0 := rfl
    have := hm.1
    omega

/-! ## Quiet steps -/

/-- Whatever comes of it, a step changes no content. -/
def Quiet {ε α : Type} (s : ObjectStore) (top : Location) (S : Location → Prop) (t : FileTree)
    (d : Disk ε α) : Prop :=
  ∀ r t', d t = (r, t') → s.Kept top S (fun _ _ => False) 0 t t'

namespace Quiet

variable {ε δ α β : Type} {s : ObjectStore} {S' : Location → Prop}

theorem pure (h : s.Steady top t) (a : α) : Quiet s top S t (Pure.pure a : Disk ε α) := by
  rintro r t' ⟨⟩
  exact .refl h ..

theorem bind {d : Disk ε α} {f : α → Disk ε β} (h : s.Steady top t) (hd : Quiet s top S t d)
    (hf : ∀ a t₁, s.Kept top S (fun _ _ => False) 0 t t₁ → Quiet s top S t₁ (f a)) :
    Quiet s top S t (d >>= f) := by
  intro r t' hrun
  rcases bind_eq hrun with ⟨e, hstep, -⟩ | ⟨a, t₁, hstep, hrest⟩
  · exact hd _ _ hstep
  · have hkept := hd _ _ hstep
    exact hkept.trans h (hf a t₁ hkept r t' hrest)

theorem reading {f : FileTree → Except ε α} {g : α → Disk ε β} (h : s.Steady top t)
    (hg : ∀ a, f t = .ok a → Quiet s top S t (g a)) :
    Quiet s top S t (Disk.reading f >>= g) := by
  intro r t' hrun
  rcases reading_bind_eq hrun with ⟨rfl, -⟩ | ⟨a, ha, hrest⟩
  · exact .refl h ..
  · exact hg a ha r t' hrest

theorem mapError {d : Disk ε α} {f : ε → δ} (hd : Quiet s top S t d) :
    Quiet s top S t (d.mapError f) := by
  intro r t' hrun
  obtain ⟨r', hstep, -⟩ := mapError_eq hrun
  exact hd _ _ hstep

theorem mono {d : Disk ε α} (hd : Quiet s top S t d) (hS : ∀ l, S l → S' l) :
    Quiet s top S' t d :=
  fun r t' hrun => (hd r t' hrun).mono hS (fun _ _ => id) (Nat.le_refl _)

end Quiet

/-! ## Operations -/

variable {r : Except StoreError Unit}

/-- An operation found out that it cannot be done, or did what it is made of. -/
theorem performing_eq {effects : FileTree → Except StoreError (List Effect)}
    (h : performing effects t = (r, t')) :
    (t' = t ∧ r ≠ .ok ()) ∨
      ∃ es r', effects t = .ok es ∧ Effect.performAll es t = (r', t') ∧
        (r = .ok () → r' = .ok ()) := by
  unfold performing at h
  split at h
  · cases h
    exact .inl ⟨rfl, nofun⟩
  · rename_i es hes
    obtain ⟨r', hr', hok⟩ := mapError_eq h
    exact .inr ⟨es, r', hes, hr', hok ()⟩

theorem not_opened_of_not_exists (h : s.Steady top t) (hdir : s.bucketDir bucket = .ok dir)
    (hexists : t.exists? dir = false) (hu : Usable (indexPath dir)) : ¬s.Opened t bucket := by
  rintro ⟨content, hentry⟩
  obtain ⟨hbelow, hplace⟩ := within_bucket h.within hdir
  obtain ⟨hname, hpath⟩ := bucketDir_eq_ok.1 hdir
  have habove := h.tidy.wf.above _ _ hentry
  rw [indexPlace, List.dropLast_concat, ← hplace] at habove
  obtain ⟨start, hstart⟩ :=
    (isEntry_of_isBucketName hname).parts_joinText (s.root.joinText "buckets")
  rw [← hpath] at hstart
  have hdirUsable := hu.of_joinText hstart (isEntry_of_isBucketName hname).isName isEntry_index
  have := (exists?_eq_true h.tidy.wf h.tidy.free hbelow.near hbelow.file).2 ⟨hdirUsable, _, habove⟩
  rw [hexists] at this
  cases this

/-- Creating a bucket changes no content. -/
theorem createBucket_spec (h : s.Steady top t) (hrun : s.createBucket bucket t = (r, t')) :
    s.Kept top (· = s.indexPlace t.workDir bucket) (fun _ _ => False) 0 t t' := by
  rcases performing_eq hrun with ⟨rfl, -⟩ | ⟨es, r', hes, hall, -⟩
  · exact .refl h ..
  simp only [createEffects, bind_eq_ok] at hes
  obtain ⟨dir, hdir, hes⟩ := hes
  split at hes
  · cases hes
    obtain ⟨rfl, -⟩ := performAll_nil hall
    exact .refl h ..
  rename_i hexists
  cases hes
  obtain ⟨hdirBelow, -⟩ := within_bucket h.within hdir
  obtain ⟨hindexBelow, hplace⟩ := below_index h.within hdir
  have hblobs := (hdirBelow.toWithin.entry isEntry_blobs).near
  rcases performAll_cons hall with ⟨hdirs, -⟩ | ⟨t₁, hdirs, hall⟩
  · obtain ⟨ht', htouched⟩ := Effect.makeDirs_spec h.tidy hblobs hdirs
    exact h.kept_of_dirs ht' htouched _ _ _
  · obtain ⟨ht₁, htouched₁⟩ := Effect.makeDirs_spec h.tidy hblobs hdirs
    have hindex' : Below t₁.workDir top (indexPath dir) := htouched₁.work.symm ▸ hindexBelow
    rcases performAll_cons hall with ⟨hindex, hfail⟩ | ⟨t₂, hindex, hall⟩
    · obtain ⟨ht', -, -, hrest⟩ := Effect.replace_spec ht₁ hindex' hindex
      exact h.kept_of_dirs ht' (htouched₁.trans (hrest hfail)) _ _ _
    · obtain ⟨rfl, -⟩ := performAll_nil hall
      obtain ⟨ht', htouched', hdone, -⟩ := Effect.replace_spec ht₁ hindex' hindex
      obtain ⟨hu, hentry⟩ := hdone rfl
      rw [htouched₁.work, hplace] at htouched' hentry
      have hclosed := not_opened_of_not_exists h hdir (by simpa using hexists) hu
      exact h.kept_of_first_index ht' ((htouched₁.mono fun _ => False.elim).trans htouched') hdir hu
        hclosed hentry _ _

/-- Keeping the versions of a bucket changes no content. -/
theorem enableVersioning_spec (h : s.Steady top t)
    (hrun : s.enableVersioning bucket t = (r, t')) :
    s.Kept top (· = s.indexPlace t.workDir bucket) (fun _ _ => False) 0 t t' := by
  rcases performing_eq hrun with ⟨rfl, -⟩ | ⟨es, r', hes, hall, -⟩
  · exact .refl h ..
  simp only [versioningEffects, bind_eq_ok] at hes
  obtain ⟨⟨dir, i⟩, hread, hes⟩ := hes
  cases hes
  obtain ⟨hdir, -⟩ := (readIndex_eq_ok h.tidy h.within).1 hread
  obtain ⟨hindexBelow, hplace⟩ := below_index h.within hdir
  rcases performAll_cons hall with ⟨hindex, hfail⟩ | ⟨t₁, hindex, hall⟩
  · obtain ⟨ht', -, -, hrest⟩ := Effect.replace_spec h.tidy hindexBelow hindex
    exact h.kept_of_dirs ht' (hrest hfail) _ _ _
  · obtain ⟨rfl, -⟩ := performAll_nil hall
    obtain ⟨ht', htouched', hdone, -⟩ := Effect.replace_spec h.tidy hindexBelow hindex
    obtain ⟨-, hentry⟩ := hdone rfl
    rw [hplace] at htouched' hentry
    exact (h.kept_of_index ht' htouched' hread hentry (h.sound bucket dir i hread).versioning
      (Nat.le_refl _)).mono (fun _ => id) (fun b key hk => hk.2 rfl) (Nat.le_refl _)

/-- Removing contents of a bucket that nothing current is in changes no content. -/
theorem discard_spec (h : s.Steady top t) (hdir : s.bucketDir bucket = .ok dir)
    {vs : List StoredVersion} (hids : ∀ v ∈ vs, ∃ n, v.id = versionId n)
    (hold : ∀ dir i key v, s.readIndex t bucket = .ok (dir, i) → i.current key = some v →
      ∀ w ∈ vs, v.id ≠ w.id)
    {r : Except FileError Unit}
    (hrun : Effect.performAll (vs.map fun v => .discard (blobPath dir v.id)) t = (r, t')) :
    s.Kept top (s.InBucket t.workDir bucket) (fun _ _ => False) 0 t t' := by
  have hfiles : t'.Tidy top ∧
      Touched top (fun l => ∃ v ∈ vs, l = s.blobPlace t.workDir bucket v.id) t t' := by
    clear hold
    have htidy := h.tidy
    have hwithin := h.within
    clear h
    induction vs generalizing t with
    | nil =>
      obtain ⟨rfl, -⟩ := performAll_nil hrun
      exact ⟨htidy, .refl ..⟩
    | cons v vs ih =>
      obtain ⟨n, hn⟩ := hids v List.mem_cons_self
      obtain ⟨hbelow, hplace⟩ := below_blob hwithin hdir (hn ▸ isEntry_versionId n)
      have hfirst {t₁ : FileTree} {r₁ : Except FileError Unit}
          (hstep : (Effect.discard (blobPath dir v.id)).perform t = (r₁, t₁)) :
          t₁.Tidy top ∧ Touched top
            (fun l => ∃ w ∈ v :: vs, l = s.blobPlace t.workDir bucket w.id) t t₁ := by
        obtain ⟨ht₁, htouched⟩ := Effect.discard_spec htidy hbelow hstep
        refine ⟨ht₁, htouched.mono ?_⟩
        rintro l rfl
        exact ⟨v, List.mem_cons_self, hplace⟩
      rcases performAll_cons hrun with ⟨hstep, -⟩ | ⟨t₁, hstep, hrest⟩
      · exact hfirst hstep
      · obtain ⟨ht₁, htouched⟩ := hfirst hstep
        obtain ⟨ht', htouched'⟩ := ih (fun w hw => hids w (List.mem_cons_of_mem _ hw)) hrest ht₁
          (htouched.work ▸ hwithin)
        rw [htouched.work] at htouched'
        refine ⟨ht', htouched.trans (htouched'.mono ?_)⟩
        rintro l ⟨w, hw, rfl⟩
        exact ⟨w, List.mem_cons_of_mem _ hw, rfl⟩
  obtain ⟨ht', htouched⟩ := hfiles
  refine (h.kept_of_touched ht' htouched ?_ ?_ _ _).mono ?_ (fun _ _ => id) (Nat.le_refl _)
  · rintro b ⟨v, -, hin⟩
    exact indexPlace_ne_blobPlace hin
  · rintro b dir₁ i₁ key v hi₁ hv ⟨w, hw, hin⟩
    obtain ⟨rfl, hid⟩ := blobPlace_inj hin
    exact hold dir₁ i₁ key v hi₁ hv w hw hid
  · rintro l ⟨v, hv, rfl⟩
    obtain ⟨n, hn⟩ := hids v hv
    exact .inr ⟨n, by rw [hn]⟩

/-- Content under the next id belongs to no key yet. -/
theorem Steady.kept_of_new_blob (h : s.Steady top t) (hread : s.readIndex t bucket = .ok (dir, i))
    (ht' : t'.Tidy top)
    (htouched : Touched top (· = s.blobPlace t.workDir bucket i.nextId) t t') :
    s.Kept top (s.InBucket t.workDir bucket) (fun _ _ => False) 0 t t' := by
  refine (h.kept_of_touched ht' htouched (fun b => indexPlace_ne_blobPlace) ?_ _ _).mono ?_
    (fun _ _ => id) (Nat.le_refl _)
  · intro b dir₁ i₁ key v hi₁ hv hin
    obtain ⟨rfl, hid⟩ := blobPlace_inj hin
    rw [hread] at hi₁
    cases hi₁
    exact (h.sound b dir i hread).nextId_ne (BucketIndex.mem_versions_of_current hv) hid
  · rintro l rfl
    exact .inr ⟨_, rfl⟩

/-- A version just added is the content of its key. -/
theorem content_of_push (h : s.Steady top t)
    (hread : s.readIndex t bucket = .ok (dir, i.push key ⟨i.nextId, false⟩))
    (hu : Usable (blobPath dir i.nextId))
    (hentry : t.entry? (s.blobPlace t.workDir bucket i.nextId) = some (.file body)) :
    s.content t bucket key = some body :=
  (content_eq_some_of_sound h.tidy h.within h.sound).2
    ⟨dir, _, _, hread, BucketIndex.current_push_self i key _, hu, hentry⟩

/-- The versions that a new one displaces are nowhere current any more. -/
theorem displaced_id_ne (hsound : i.Sound) {v w : StoredVersion}
    (hv : (i.push key ⟨i.nextId, false⟩).current key' = some v) (hw : w ∈ i.displaced key) :
    v.id ≠ w.id := by
  have hw' : w ∈ i.versions key := by
    unfold BucketIndex.displaced at hw
    split at hw
    · cases hw
    · exact hw
  by_cases hkey : key = key'
  · subst hkey
    rw [BucketIndex.current_push_self] at hv
    cases hv
    exact fun hid => hsound.nextId_ne hw' hid.symm
  · rw [BucketIndex.current_push_of_ne i hkey] at hv
    intro hid
    exact hkey (hsound.apart key key' w hw' v (BucketIndex.mem_versions_of_current hv) hid.symm)

/-- An object is stored in a bucket that can be read. -/
theorem readable_of_put (hrun : s.put bucket key body t = (.ok (), t')) : s.Readable t bucket := by
  rcases performing_eq hrun with ⟨-, hfail⟩ | ⟨es, r', hes, -, -⟩
  · exact absurd rfl hfail
  · simp only [putEffects, bind_eq_ok] at hes
    obtain ⟨found, hread, -⟩ := hes
    exact ⟨found, hread⟩

/-- Storing an object changes the content of its key alone, and if it succeeds that is what was
stored. -/
theorem put_spec (h : s.Steady top t) (hrun : s.put bucket key body t = (r, t')) :
    s.Kept top (s.InBucket t.workDir bucket) (fun b k => b = bucket ∧ k = key) 1 t t' ∧
      (s.Readable t' bucket → s.content t' bucket key = s.content t bucket key ∨
        s.content t' bucket key = some body) ∧
      (r = .ok () → s.Opened t' bucket ∧
        (s.Readable t' bucket → s.content t' bucket key = some body)) := by
  -- whatever fails on the way leaves all contents as they were
  have hfailed (hkept : s.Kept top (s.InBucket t.workDir bucket) (fun _ _ => False) 0 t t')
      (hr : r ≠ .ok ()) :
      s.Kept top (s.InBucket t.workDir bucket) (fun b k => b = bucket ∧ k = key) 1 t t' ∧
        (s.Readable t' bucket → s.content t' bucket key = s.content t bucket key ∨
          s.content t' bucket key = some body) ∧
        (r = .ok () → s.Opened t' bucket ∧
          (s.Readable t' bucket → s.content t' bucket key = some body)) :=
    ⟨hkept.mono (fun _ => id) (fun _ _ => False.elim) (Nat.zero_le _),
      fun hreadable => .inl (hkept.content bucket key hreadable id), fun hr' => absurd hr' hr⟩
  rcases performing_eq hrun with ⟨rfl, hfail⟩ | ⟨es, r', hes, hall, hok⟩
  · exact hfailed (.refl h ..) hfail
  simp only [putEffects, bind_eq_ok] at hes
  obtain ⟨⟨dir, i⟩, hread, hes⟩ := hes
  cases hes
  have hsound := h.sound bucket dir i hread
  obtain ⟨hdir, -⟩ := (readIndex_eq_ok h.tidy h.within).1 hread
  obtain ⟨hblobBelow, hblobPlace⟩ :=
    below_blob h.within hdir (isEntry_versionId (i.nextVersion + 1))
  obtain ⟨hindexBelow, hindexPlace⟩ := below_index h.within hdir
  rcases performAll_cons hall with ⟨hblob, hfail⟩ | ⟨t₁, hblob, hall⟩
  · obtain ⟨ht', -, -, hrest⟩ := Effect.replace_spec h.tidy hblobBelow hblob
    exact hfailed (h.kept_of_dirs ht' (hrest hfail) _ _ _) fun hr => hfail (hok hr)
  obtain ⟨ht₁, htouched₁, hdone₁, -⟩ := Effect.replace_spec h.tidy hblobBelow hblob
  obtain ⟨hu, hentry₁⟩ := hdone₁ rfl
  rw [hblobPlace] at htouched₁ hentry₁
  have hkept₁ := h.kept_of_new_blob hread ht₁ htouched₁
  have hread₁ : s.readIndex t₁ bucket = .ok (dir, i) :=
    (readIndex_of_touched h.tidy ht₁ h.within htouched₁ indexPlace_ne_blobPlace).2 hread
  rcases performAll_cons hall with ⟨hindex, hfail⟩ | ⟨t₂, hindex, hall⟩
  · obtain ⟨ht', -, -, hrest⟩ :=
      Effect.replace_spec ht₁ (hindexBelow.of_work htouched₁.work) hindex
    exact hfailed (hkept₁.trans h (hkept₁.steady.kept_of_dirs ht' (hrest hfail) _ _ 0))
      fun hr => hfail (hok hr)
  obtain ⟨ht₂, htouched₂, hdone₂, -⟩ :=
    Effect.replace_spec ht₁ (hindexBelow.of_work htouched₁.work) hindex
  obtain ⟨-, hentry₂⟩ := hdone₂ rfl
  rw [htouched₁.work, hindexPlace, ← htouched₁.work] at htouched₂ hentry₂
  have hkept₂ := hkept₁.steady.kept_of_index ht₂ htouched₂ hread₁ hentry₂ (hsound.push key false)
    (Nat.le_refl _)
  have hself {dir' : Path} {i' : BucketIndex} (hi' : s.readIndex t₂ bucket = .ok (dir', i')) :
      dir' = dir ∧ i' = i.push key ⟨i.nextId, false⟩ := by
    obtain ⟨-, huIndex, -⟩ := (readIndex_eq_ok h.tidy h.within).1 hread
    obtain ⟨rfl, rfl, -⟩ := (readIndex_of_indexBytes ht₂ hkept₂.steady.within hdir huIndex
      (hsound.push key false).ordered (by rw [htouched₂.work, hentry₂])).1 hi'
    exact ⟨rfl, rfl⟩
  have hkept₃ := discard_spec hkept₂.steady hdir (by
      intro w hw
      unfold BucketIndex.displaced at hw
      split at hw
      · cases hw
      · obtain ⟨n, -, hid⟩ := hsound.minted key w hw
        exact ⟨n, hid⟩)
    (by
      intro dir' i' key' v hi' hv w hw
      obtain ⟨rfl, rfl⟩ := hself hi'
      exact displaced_id_ne hsound hv hw) hall
  rw [htouched₂.work, htouched₁.work] at hkept₃
  have hstored (hr : s.Readable t' bucket) : s.content t' bucket key = some body := by
    have hr₂ : s.Readable t₂ bucket := by
      rcases hkept₃.fresh bucket hr with hr₂ | hclosed
      · exact hr₂
      · exact absurd ⟨_, by rw [htouched₂.work, hentry₂]⟩ hclosed
    obtain ⟨⟨dir', i'⟩, hi'⟩ := hr₂
    obtain ⟨rfl, rfl⟩ := hself hi'
    rw [hkept₃.content bucket key hr id]
    refine content_of_push hkept₂.steady hi' hu ?_
    rw [htouched₂.work, htouched₁.work]
    refine (htouched₂.file_iff ?_).2 hentry₁
    rw [htouched₁.work]
    exact fun hin => indexPlace_ne_blobPlace hin.symm
  have hkept₂' : s.Kept top (s.InBucket t.workDir bucket) (fun b k => b = bucket ∧ k = key) 1 t₁ t₂ := by
    refine hkept₂.mono ?_ ?_ (Nat.le_refl _)
    · rintro l rfl
      exact .inl (by rw [htouched₁.work])
    · rintro b k ⟨hb, hk⟩
      refine ⟨hb, ?_⟩
      by_cases hkey : key = k
      · exact hkey.symm
      · exact absurd (BucketIndex.current_push_of_ne i hkey _) hk
  refine ⟨?_, fun hr => .inr (hstored hr), fun _ => ⟨?_, hstored⟩⟩
  · exact ((hkept₁.mono (fun _ => id) (fun _ _ => False.elim) (Nat.le_refl _)).trans h
      hkept₂').trans h (hkept₃.mono (fun _ => id) (fun _ _ => False.elim) (Nat.le_refl _))
  · exact hkept₃.opened bucket ⟨_, by rw [htouched₂.work, hentry₂]⟩

/-- As long as there is room, what was stored is there, -/
theorem content_of_put (h : s.Steady top t) (hroom : s.Room t 1)
    (hrun : s.put bucket key body t = (.ok (), t')) :
    s.Readable t' bucket ∧ s.content t' bucket key = some body := by
  obtain ⟨hkept, -, hdone⟩ := put_spec h hrun
  have hreadable := (hkept.room 0 hroom).2 bucket (readable_of_put hrun)
  exact ⟨hreadable, (hdone rfl).2 hreadable⟩

/-- and what was there before stays, if it is not replaced by something else. -/
theorem content_of_put_before (h : s.Steady top t) (hroom : s.Room t 1)
    (hrun : s.put bucket key body t = (r, t')) {old : ByteArray}
    (hold : s.content t bucket key' = some old) (hsame : key' = key → old = body) :
    s.content t' bucket key' = some old := by
  obtain ⟨hkept, hself, -⟩ := put_spec h hrun
  have hreadable := (hkept.room 0 hroom).2 bucket (readable_of_content hold)
  by_cases hkey : key' = key
  · subst hkey
    rcases hself hreadable with hc | hc
    · rw [hc, hold]
    · rw [hc, hsame rfl]
  · rw [hkept.content bucket key' hreadable fun hK => hkey hK.2, hold]

end ObjectStore

end Rollout
