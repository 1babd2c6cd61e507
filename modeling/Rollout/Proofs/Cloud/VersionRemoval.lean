import Rollout.Proofs.Cloud.CrashAtomicity
import Rollout.Proofs.Files.Apart

/-!
Removing one version. The index forgets the version under its key, but the content that goes is
the file that the id leads to, whichever key that belongs to, and an id can lead out of the bucket
with `..`. The removal concerns nothing but its key if the id leads to no index and to no other
content that is in use: every id that is listed under the key is such, and every name of a directory
entry that is listed under no other key. An id that is not listed then makes no difference to
anything that can be done to the store.
-/

namespace Rollout

namespace FileTree

open Outcome

variable {t u : FileTree} {l : Location} {p : Path}

/-! ## Where a path leads -/

/-- Trees that differ in the content of files only. -/
structure Refilled (t u : FileTree) : Prop where
  work : u.workDir = t.workDir
  entry : ∀ l, u.entry? l = t.entry? l ∨
    ∃ old new, t.entry? l = some (.file old) ∧ u.entry? l = some (.file new)

theorem Refilled.walk_eq (h : Refilled t u) {last : Bool}
    (onLink : Location → String → List String → Except FileError Location)
    (here : Location) (names : List String) :
    u.walk last onLink here names = t.walk last onLink here names := by
  induction names generalizing here with
  | nil => rw [walk, walk]
  | cons name rest ih =>
    rw [walk, walk]
    rcases h.entry here with hhere | ⟨old, new, hold, hnew⟩
    · rw [hhere]
      cases t.entry? here with
      | none => rfl
      | some e =>
        cases e with
        | file content => rfl
        | link target => rfl
        | dir =>
          rcases h.entry (here ++ [name]) with hthere | ⟨old, new, hold, hnew⟩
          · simp only [ih, hthere]
          · simp only [ih, hold, hnew]
    · rw [hold, hnew]

theorem Refilled.follow_eq (h : Refilled t u) {last : Bool} (links : Nat) (here : Location)
    (names : List String) : u.follow last links here names = t.follow last links here names := by
  induction links generalizing here names with
  | zero => exact h.walk_eq ..
  | succ links ih =>
    rw [follow, follow]
    simp only [ih]
    exact h.walk_eq ..

/-- Where a path leads in the one it leads in the other. -/
theorem Refilled.locate (h : Refilled t u) {last : Bool} (hl : u.locate p last = .ok l) :
    t.locate p last = .ok l := by
  obtain ⟨hempty, hnul, hshort, hfollow, hdir⟩ := locate_eq_ok.1 hl
  rw [h.work, h.follow_eq] at hfollow
  refine locate_eq_ok.2 ⟨hempty, hnul, hshort, hfollow, fun hnames content hc => ?_⟩
  rcases h.entry l with hsame | ⟨old, new, hold, hnew⟩
  · exact hdir hnames content (hsame.trans hc)
  · exact hdir hnames new hnew

theorem read_of_none {top : Location} (ht : t.Tidy top) (hp : Below t.workDir top p)
    (hu : Usable p) (habove : t.entry? (p.place t.workDir).dropLast = some .dir)
    (hnone : t.entry? (p.place t.workDir) = none) : t.read p = .error .notFound := by
  simp only [read, find, locate_of_above ht.wf ht.free hp.near hu hp.file habove, ok_bind, hnone]
  rfl

/-- One file in place of another. -/
theorem Refilled.of_confined (h : Confined l t u) (ht : t.WellFormed) (hu : u.WellFormed)
    {old new : ByteArray} (hold : t.entry? l = some (.file old))
    (hnew : u.entry? l = some (.file new)) : Refilled t u := by
  refine ⟨h.work, fun l' => ?_⟩
  by_cases heq : l' = l
  · exact .inr ⟨old, new, heq ▸ hold, heq ▸ hnew⟩
  by_cases hway : l' <+: l
  · exact .inl ((hu.entry?_of_prefix hnew hway heq).trans
      (ht.entry?_of_prefix hold hway heq).symm)
  · exact .inl (h.entry l' hway)

end FileTree

open FileTree Outcome

/-- Discarding a file removes what the path leads to, if it is no directory, or nothing. -/
theorem Effect.discard_cases (p : Path) (t : FileTree) :
    ((Effect.discard p).perform t).2 = t ∨
      ∃ l, t.locate p false = .ok l ∧ t.entry? l ≠ some .dir ∧
        ((Effect.discard p).perform t).2 = t.drop l := by
  simp only [Effect.perform, Disk.step]
  split
  · rename_i t' hstep
    split at hstep
    · simp only [FileTree.remove, bind_eq_ok] at hstep
      obtain ⟨l, hl, hstep⟩ := hstep
      split at hstep
      · cases hstep
      · cases hstep
      · rename_i e hdir hentry
        cases hstep
        refine .inr ⟨l, hl, fun hdir' => hdir ?_, rfl⟩
        exact Option.some.inj (hentry.symm.trans hdir')
    · cases hstep
      exact .inl rfl
  · exact .inl rfl

namespace VersionedBucket

variable {B : VersionedBucket} {key id : String}

/-- Without a revision of that id nothing is removed. -/
theorem deleteRevision_of_not_mem (hB : B.Sound)
    (h : ∀ r ∈ B.revisions key, versionId r.number ≠ id) : B.deleteRevision key id = B := by
  have hfilter : (B.revisions key).filter (fun r => versionId r.number ≠ id) = B.revisions key :=
    List.filter_eq_self.2 fun r hr => by simpa using h r hr
  have hget : TextMap.get? key B.keys = none ∨
      TextMap.get? key B.keys = some (B.revisions key) ∧ B.revisions key ≠ [] := by
    rw [revisions]
    cases hkey : TextMap.get? key B.keys with
    | none => exact .inl rfl
    | some rs => exact .inr ⟨rfl, hB.kept _ (TextMap.mem_of_get? hkey)⟩
  unfold deleteRevision
  rw [hfilter]
  rcases hget with hnone | ⟨hsome, hne⟩
  · have hempty : B.revisions key = [] := by rw [revisions, hnone]; rfl
    rw [hempty]
    simp only [dropKey, TextMap.erase_of_get?_eq_none hnone]
  · split
    · rename_i hempty
      exact absurd hempty hne
    · rw [(hB.ordered.insert key _).eq_of_perm hB.ordered
        ((TextMap.insert_perm hB.ordered key _).trans
          (TextMap.perm_of_get? hB.ordered hsome).symm)]

theorem mem_deleteRevision {k : String} {r : Revision}
    (hr : r ∈ (B.deleteRevision key id).revisions k) :
    r ∈ B.revisions k ∧ (k = key → versionId r.number ≠ id) := by
  rw [revisions_deleteRevision] at hr
  split at hr
  · rename_i hk
    obtain ⟨hmem, hid⟩ := List.mem_filter.1 hr
    exact ⟨hk ▸ hmem, fun _ => of_decide_eq_true hid⟩
  · rename_i hk
    exact ⟨hr, fun h => absurd h.symm hk⟩

end VersionedBucket

namespace ObjectStore

variable {s : ObjectStore} {top : Location} {limit : Nat} {A : VersionedStore}
  {t t' t₀ : FileTree} {bucket key id : String} {B : VersionedBucket} {l : Location}

/-! ## What an id leads to -/

/-- Whether the content of a version stands at a location. -/
def ContentAt (s : ObjectStore) (t : FileTree) (l : Location) (bucket key id : String) : Prop :=
  ∃ dir i, s.readIndex t bucket = .ok (dir, i) ∧ ⟨id, false⟩ ∈ i.versions key ∧
    l = s.blobPlace t.workDir bucket id

/-- Whether the file that an id leads to, if to any, is not in use: it is the index of no bucket,
and the content of no version but the one that the id is meant for. -/
def Spares (s : ObjectStore) (t : FileTree) (bucket key id : String) : Prop :=
  ∀ l, t.locate (blobPath (s.dirPath bucket) id) false = .ok l →
    (∀ b, s.bucketExists t b = true → l ≠ s.indexPlace t.workDir b) ∧
      ∀ b k v, s.ContentAt t l b k v → b = bucket ∧ k = key ∧ v = id

theorem Represents.contentAt (h : s.Represents top limit A t) (hlimit : limit ≤ UInt64.size)
    (hA : A bucket = some B) {r : Revision} (hr : r ∈ B.revisions key) (hbody : r.body.isSome)
    (hl : l = s.blobPlace t.workDir bucket (versionId r.number)) :
    s.ContentAt t l bucket key (versionId r.number) := by
  refine ⟨_, _, h.readIndex hlimit hA, ?_, hl⟩
  rw [VersionedBucket.versions_index]
  refine List.mem_map.2 ⟨r, hr, ?_⟩
  rw [Revision.stored, Option.isNone_eq_false_iff.2 hbody]

theorem Represents.lists_of_contentAt (h : s.Represents top limit A t)
    (hlimit : limit ≤ UInt64.size) (hA : A bucket = some B)
    (hcontent : s.ContentAt t l bucket key id) : s.Lists t bucket key id := by
  obtain ⟨dir, i, hread, hmem, -⟩ := hcontent
  have hi := hread
  rw [h.readIndex hlimit hA] at hi
  cases hi
  rw [VersionedBucket.versions_index] at hmem
  obtain ⟨r, hr, hid⟩ := List.mem_map.1 hmem
  exact (h.lists_iff hlimit hA).2 ⟨r, hr, congrArg StoredVersion.id hid⟩

/-- The name of a directory entry leads to the content of that name in the bucket. -/
theorem Represents.spares_of_isEntry (h : s.Represents top limit A t)
    (hlimit : limit ≤ UInt64.size) (hid : Path.IsEntry id)
    (hname : isBucketName bucket = true) (hother : ∀ k, k ≠ key → ¬s.Lists t bucket k id) :
    s.Spares t bucket key id := by
  obtain ⟨hbelow, hplace⟩ := below_blob h.within (bucketDir_of_name hname) hid
  intro l hl
  obtain ⟨rfl, -⟩ := locate_ok h.tidy.free hbelow.near hl
  rw [hplace]
  refine ⟨fun b _ => Ne.symm indexPlace_ne_blobPlace, fun b k v hcontent => ?_⟩
  obtain ⟨dir, i, hread, hmem, hl⟩ := hcontent
  obtain ⟨rfl, rfl⟩ := blobPlace_inj hl
  refine ⟨rfl, ?_, rfl⟩
  by_contra hk
  cases hA : A bucket with
  | none =>
    rw [h.readIndex_of_absent hname hA] at hread
    cases hread
  | some B =>
    exact hother k hk (h.lists_of_contentAt hlimit hA ⟨dir, i, hread, hmem, rfl⟩)

/-- No version is listed under two keys. -/
theorem Represents.lists_unique (h : s.Represents top limit A t) (hlimit : limit ≤ UInt64.size)
    (hA : A bucket = some B) {key' : String} (hlists : s.Lists t bucket key id)
    (hlists' : s.Lists t bucket key' id) : key = key' := by
  obtain ⟨r, hr, hid⟩ := (h.lists_iff hlimit hA).1 hlists
  obtain ⟨r', hr', hid'⟩ := (h.lists_iff hlimit hA).1 hlists'
  exact (h.held bucket B hA).sound.apart key key' r hr r' hr' (versionId_inj (hid.trans hid'.symm))

/-! ## Removing it -/

/-- A file that is not in use can go. -/
theorem Represents.drop (h : s.Represents top limit A t) (hl : t.entry? l ≠ some .dir)
    (hindex : ∀ b B, A b = some B → l ≠ s.indexPlace t.workDir b)
    (hcontent : ∀ b B, A b = some B → ∀ k, ∀ r ∈ B.revisions k, r.body.isSome →
      l ≠ s.blobPlace t.workDir b (versionId r.number)) :
    s.Represents top limit A (t.drop l) := by
  have hne : l ≠ [] := by
    rintro rfl
    exact hl rfl
  have hother {l' : Location} (hl' : l ≠ l') : FileTree.entry? (t.drop l) l' = t.entry? l' := by
    rw [entry?_drop hne, if_neg hl']
  refine ⟨h.tidy.drop hne hl, h.within, fun l' hl' => ?_, h.outside, fun b B hB => ?_,
    fun b hname hA => ?_⟩
  · rw [entry?_drop hne]
    split
    · exact .inl rfl
    · exact h.clear l' hl'
  · have hB' := h.held b B hB
    refine ⟨hB'.nameable, hB'.sound, hB'.room, ?_, ?_, fun k r hr body hbody => ?_, fun n => ?_⟩
    · exact (hother (hindex b B hB)).trans hB'.index
    · refine (hother fun heq => hl ?_).trans hB'.blobs
      rw [heq]
      exact hB'.blobs
    · refine (hother (hcontent b B hB k r hr (by simp [hbody]))).trans ?_
      exact hB'.body k r hr body hbody
    · show FileTree.entry? (t.drop l) (s.blobPlace t.workDir b (versionId n)) ≠ some .dir
      rw [entry?_drop hne]
      split
      · simp
      · exact hB'.free n
  · show FileTree.entry? (t.drop l) (s.bucketPlace t.workDir b) = none
    rw [entry?_drop hne]
    split
    · rfl
    · exact h.absent b hname hA

/-- An index in place of another changes where no path leads. -/
theorem Represents.refilled (h : s.Represents top limit A t) (hA : A bucket = some B)
    {A' : VersionedStore} {B' : VersionedBucket} (h' : s.Represents top limit A' t')
    (hA' : A' bucket = some B') {i : BucketIndex}
    (hrun : (ObjectStore.writeIndex (s.dirPath bucket) i).perform t = (.ok (), t')) :
    Refilled t t' := by
  have hB := h.held bucket B hA
  obtain ⟨hbelow, hplace⟩ := below_index h.within hB.nameable.bucketDir
  obtain ⟨hconfined, -⟩ := Effect.replace_confined h.tidy hbelow hrun
  rw [hplace] at hconfined
  have hnew := (h'.held bucket B' hA').index
  rw [hconfined.work] at hnew
  exact .of_confined hconfined h.tidy.wf h'.tidy.wf hB.index hnew

theorem performing_pair (effects : FileTree → Except StoreError (List Effect)) {e e' : Effect}
    (hes : effects t = .ok [e, e']) (h : e.perform t = (.ok (), t')) :
    performing effects t = Disk.mapError .files e'.perform t' := by
  have hall : Effect.performAll [e, e'] t = e'.perform t' := by
    rw [Effect.performAll_cons_of_ok h, Effect.performAll, Effect.performAll, bind_apply]
    rcases e'.perform t' with ⟨_ | _, _⟩
    · rfl
    · rfl
  simp only [performing, hes, Disk.mapError, hall]

/-- Whatever file goes with it, a version is removed as it is meant if the file is not in use. -/
theorem Represents.deleteVersion_of_spares (h : s.Represents top limit A t)
    (hlimit : limit ≤ UInt64.size) (hspares : s.Spares t bucket key id) :
    s.Represents top limit (A.change bucket (·.deleteRevision key id)).2
      (s.deleteVersion bucket key id t).2 := by
  cases hA : A bucket with
  | none =>
    have herror : ∃ e, s.deleteVersionEffects t bucket key id = .error e := by
      by_cases hname : isBucketName bucket = true
      · refine ⟨.noSuchBucket bucket, ?_⟩
        rw [deleteVersionEffects, h.readIndex_of_absent hname hA]
        rfl
      · refine ⟨.service ("invalid bucket name '" ++ bucket ++ "'"), ?_⟩
        rw [deleteVersionEffects, ObjectStore.readIndex, bucketDir, if_neg hname]
        rfl
    obtain ⟨e, he⟩ := herror
    rw [VersionedStore.change, hA, ObjectStore.deleteVersion, performing_of_error _ he]
    exact h
  | some B =>
    have hB := h.held bucket B hA
    rw [VersionedStore.change_of_some hA]
    have hminted : (B.deleteRevision key id).minted = B.minted := by
      unfold VersionedBucket.deleteRevision
      split <;> rfl
    obtain ⟨t₁, hrun, h₁⟩ := h.writeIndex hA (hB.sound.deleteRevision key id)
      (hminted ▸ hB.room) fun k r hr body hbody =>
        hB.body k r (VersionedBucket.mem_deleteRevision hr).1 body hbody
    have hrefilled := h.refilled hA h₁ (Function.update_self ..) hrun
    have htree : (s.deleteVersion bucket key id t).2 =
        ((Effect.discard (blobPath (s.dirPath bucket) id)).perform t₁).2 := by
      rw [B.index_deleteRevision key id] at hrun
      have heffects : s.deleteVersionEffects t bucket key id =
          .ok [ObjectStore.writeIndex (s.dirPath bucket) (B.index.dropVersion key id),
            .discard (blobPath (s.dirPath bucket) id)] := by
        rw [deleteVersionEffects, h.readIndex hlimit hA]
        rfl
      rw [ObjectStore.deleteVersion, performing_pair _ heffects hrun, Disk.mapError]
      rcases (Effect.discard (blobPath (s.dirPath bucket) id)).perform t₁ with ⟨_ | _, _⟩
      · rfl
      · rfl
    rw [htree]
    rcases Effect.discard_cases (blobPath (s.dirPath bucket) id) t₁ with
      hsame | ⟨l, hl, hdir, hdrop⟩
    · rw [hsame]
      exact h₁
    rw [hdrop]
    obtain ⟨hindex, hcontent⟩ := hspares l (hrefilled.locate hl)
    -- a bucket that is there afterwards was there before, with all of its revisions
    have hbefore (b : String) (B' : VersionedBucket)
        (hB' : Function.update A bucket (some (B.deleteRevision key id)) b = some B') :
        ∃ B₀, A b = some B₀ ∧ ∀ k, ∀ r ∈ B'.revisions k, r ∈ B₀.revisions k ∧
          (b = bucket → k = key → versionId r.number ≠ id) := by
      by_cases hb : b = bucket
      · subst hb
        rw [Function.update_self] at hB'
        cases hB'
        refine ⟨B, hA, fun k r hr => ?_⟩
        obtain ⟨hmem, hid⟩ := VersionedBucket.mem_deleteRevision hr
        exact ⟨hmem, fun _ => hid⟩
      · rw [Function.update_of_ne hb] at hB'
        exact ⟨B', hB', fun k r hr => ⟨hr, fun hb' => absurd hb' hb⟩⟩
    refine h₁.drop hdir (fun b B' hB' => ?_) fun b B' hB' k r hr hbody heq => ?_
    · obtain ⟨B₀, hB₀, -⟩ := hbefore b B' hB'
      rw [hrefilled.work]
      refine hindex b ?_
      rw [h.bucketExists (h.held b B₀ hB₀).nameable.name, hB₀]
      rfl
    · obtain ⟨B₀, hB₀, hfrom⟩ := hbefore b B' hB'
      obtain ⟨hmem, hne⟩ := hfrom k r hr
      rw [hrefilled.work] at heq
      obtain ⟨hb, hk, hid⟩ := hcontent b k _ (h.contentAt hlimit hB₀ hmem hbody heq)
      exact hne hb hk hid

/-! ## What can be told -/

/-- Disks that nothing done to the store tells apart, neither now nor after anything else. -/
structure Alike (s : ObjectStore) (limit : Nat) (t t' : FileTree) : Prop where
  allows (as : List StoreAction) : s.AllowsAll limit as t ↔ s.AllowsAll limit as t'
  replies : ∀ as, s.AllowsAll limit as t → s.replies as t' = s.replies as t
  buckets (b : String) : s.bucketExists t' b = s.bucketExists t b
  get (b k : String) : s.get t' b k = s.get t b k
  readUrl (url : String) : s.readUrl t' url = s.readUrl t url

theorem readIndex_of_not_name (hname : ¬isBucketName bucket = true) (t : FileTree) :
    s.readIndex t bucket = .error (.service ("invalid bucket name '" ++ bucket ++ "'")) := by
  rw [ObjectStore.readIndex, bucketDir, if_neg hname]
  rfl

/-- The index of a bucket, from disks that represent the same of it. -/
theorem Represents.readIndex_eq (h : s.Represents top limit A t) {A' : VersionedStore}
    (h' : s.Represents top limit A' t') (hlimit : limit ≤ UInt64.size)
    (hA : A' bucket = A bucket) : s.readIndex t' bucket = s.readIndex t bucket := by
  by_cases hname : isBucketName bucket = true
  · cases hB : A bucket with
    | none => rw [h.readIndex_of_absent hname hB, h'.readIndex_of_absent hname (hA.trans hB)]
    | some B => rw [h.readIndex hlimit hB, h'.readIndex hlimit (hA.trans hB)]
  · rw [readIndex_of_not_name hname, readIndex_of_not_name hname]

/-- What a key yields, from disks that represent the same of it. -/
theorem Represents.get_eq (h : s.Represents top limit A t) {A' : VersionedStore}
    (h' : s.Represents top limit A' t') (hlimit : limit ≤ UInt64.size)
    (hA : A'.look bucket (·.get key) = A.look bucket (·.get key)) :
    s.get t' bucket key = s.get t bucket key := by
  by_cases hname : isBucketName bucket = true
  · rw [h.get hlimit hname, h'.get hlimit hname, hA]
  · rw [ObjectStore.get, ObjectStore.get, readIndex_of_not_name hname, readIndex_of_not_name hname,
      error_bind, error_bind]

theorem Represents.allowsAll (h : s.Represents top limit A t) (h' : s.Represents top limit A t')
    (hpos : 0 < limit) (hlimit : limit ≤ UInt64.size) {as : List StoreAction}
    (has : s.AllowsAll limit as t) : s.AllowsAll limit as t' := by
  induction as generalizing A t t' with
  | nil => trivial
  | cons a as ih =>
    have ha' : s.Allows limit t' a := has.1.of_readIndex (h.readIndex_eq h' hlimit rfl)
    exact ⟨ha', ih (h.act hpos hlimit a has.1).2 (h'.act hpos hlimit a ha').2 has.2⟩

/-- Nothing but the buckets that a disk represents can be told. -/
theorem Represents.alike (h : s.Represents top limit A t) (h' : s.Represents top limit A t')
    (hpos : 0 < limit) (hlimit : limit ≤ UInt64.size) : s.Alike limit t t' where
  allows as := ⟨h.allowsAll h' hpos hlimit, h'.allowsAll h hpos hlimit⟩
  replies as has := by
    rw [h.replies hpos hlimit as has,
      h'.replies hpos hlimit as (h.allowsAll h' hpos hlimit has)]
  buckets b := by
    by_cases hname : isBucketName b = true
    · rw [h.bucketExists hname, h'.bucketExists hname]
    · rw [ObjectStore.bucketExists, ObjectStore.bucketExists, bucketDir, if_neg hname]
  get b k := h.get_eq h' hlimit rfl
  readUrl url := by
    unfold ObjectStore.readUrl
    split
    · rfl
    · split
      · rfl
      · exact h.get_eq h' hlimit rfl

/-! ## Removing versions by any id -/

/-- A disk that operations lead to, among them removals by ids that lead to nothing else in use. -/
inductive LedTo (s : ObjectStore) (limit : Nat) (t₀ : FileTree) : FileTree → Prop where
  | start : LedTo s limit t₀ t₀
  | act {t : FileTree} (a : StoreAction) :
    LedTo s limit t₀ t → s.Allows limit t a → LedTo s limit t₀ (s.act a t).2
  | deleteVersion {t : FileTree} (bucket key id : String) :
    LedTo s limit t₀ t → s.Spares t bucket key id →
      LedTo s limit t₀ (s.deleteVersion bucket key id t).2

theorem LedTo.represents (h : s.LedTo limit t₀ t) (hfresh : s.Fresh top t₀) (hpos : 0 < limit)
    (hlimit : limit ≤ UInt64.size) : ∃ A, s.Represents top limit A t := by
  induction h with
  | start => exact ⟨_, hfresh.represents limit⟩
  | act a _ ha ih =>
    obtain ⟨A, hA⟩ := ih
    exact ⟨_, (hA.act hpos hlimit a ha).2⟩
  | deleteVersion bucket key id _ hspares ih =>
    obtain ⟨A, hA⟩ := ih
    exact ⟨_, hA.deleteVersion_of_spares hlimit hspares⟩

/-- The removal of a version concerns its key, if that has the version, and nothing else. -/
structure RemovesOnly (s : ObjectStore) (limit : Nat) (bucket key id : String)
    (t t' : FileTree) : Prop where
  others (b k : String) : ¬(b = bucket ∧ k = key) → s.get t' b k = s.get t b k
  unlisted : ¬s.Lists t bucket key id → s.Alike limit t t'

theorem Represents.removesOnly (h : s.Represents top limit A t) (hpos : 0 < limit)
    (hlimit : limit ≤ UInt64.size) (hspares : s.Spares t bucket key id) :
    s.RemovesOnly limit bucket key id t (s.deleteVersion bucket key id t).2 := by
  have h' := h.deleteVersion_of_spares hlimit hspares
  refine ⟨fun b k hother => h.get_eq h' hlimit (VersionedStore.look_change fun hb B => ?_),
    fun hunlisted => ?_⟩
  · exact VersionedBucket.get_deleteRevision_of_ne (fun hk => hother ⟨hb.symm, hk.symm⟩) id
  · have hsame : (A.change bucket (·.deleteRevision key id)).2 = A := by
      cases hA : A bucket with
      | none => rw [VersionedStore.change, hA]
      | some B =>
        rw [VersionedStore.change_of_some hA, VersionedBucket.deleteRevision_of_not_mem
          (h.held bucket B hA).sound fun r hr hid =>
            hunlisted ((h.lists_iff hlimit hA).2 ⟨r, hr, hid⟩), ← hA, Function.update_eq_self]
    rw [hsame] at h'
    exact h.alike h' hpos hlimit

/-- Removing a version of a store that started without buckets affects that version only, whatever
has been done to the store and whatever the id is, as long as the file that the id leads to is not
in use. So it is for an id that is listed under the key, and for any name of a directory entry that
is listed under no other key of the bucket. -/
theorem deleteVersion_removesOnly (s : ObjectStore) (top : Location) (t₀ t : FileTree)
    (hfresh : s.Fresh top t₀) (ht : s.LedTo UInt64.size t₀ t) :
    (∀ bucket key id, isBucketName bucket = true →
      (s.Lists t bucket key id ∨
        Path.IsEntry id ∧ ∀ k, k ≠ key → ¬s.Lists t bucket k id) → s.Spares t bucket key id) ∧
    ∀ bucket key id, s.Spares t bucket key id →
      s.RemovesOnly UInt64.size bucket key id t (s.deleteVersion bucket key id t).2 := by
  have hlimit := Nat.le_refl UInt64.size
  obtain ⟨A, h⟩ := ht.represents hfresh (by decide) hlimit
  refine ⟨fun bucket key id hname hcase => ?_, fun _ _ _ => h.removesOnly (by decide) hlimit⟩
  rcases hcase with hlists | ⟨hid, hother⟩
  · cases hA : A bucket with
    | none =>
      obtain ⟨dir, i, hread, -⟩ := hlists
      rw [h.readIndex_of_absent hname hA] at hread
      cases hread
    | some B =>
      obtain ⟨r, -, hid⟩ := (h.lists_iff hlimit hA).1 hlists
      refine h.spares_of_isEntry hlimit (hid ▸ isEntry_versionId r.number) hname
        fun k hk hlists' => hk ?_
      exact h.lists_unique hlimit hA hlists' hlists
  · exact h.spares_of_isEntry hlimit hid hname hother

/-! ## What an id of another key does -/

/-- By the id of another key's version the content of that key is removed, and the index goes on
speaking of it. -/
theorem Represents.deleteVersion_takes (h : s.Represents top limit A t)
    (hlimit : limit ≤ UInt64.size) (hA : A bucket = some B) {k : String} (hk : k ≠ key)
    {r : Revision} (hr : (B.revisions k).getLast? = some r) (hbody : r.body.isSome) :
    (s.deleteVersion bucket key (versionId r.number) t).1 = .ok () ∧
      s.get (s.deleteVersion bucket key (versionId r.number) t).2 bucket k =
        .error (.files .notFound) := by
  have hB := h.held bucket B hA
  have hmem := List.mem_of_getLast? hr
  have hsame : B.deleteRevision key (versionId r.number) = B := by
    refine VersionedBucket.deleteRevision_of_not_mem hB.sound fun r' hr' hid => hk ?_
    exact hB.sound.apart k key r hmem r' hr' (versionId_inj hid).symm
  obtain ⟨t₁, hrun₁, h₁⟩ := h.writeIndex hA hB.sound hB.room (hB.body)
  have hB₁ := h₁.held bucket B (Function.update_self ..)
  have hroom := Nat.lt_of_le_of_lt (hB.sound.numbered k r hmem) hB.room
  obtain ⟨hbelow, hplace⟩ := below_blob h₁.within hB.nameable.bucketDir
    (isEntry_versionId r.number)
  obtain ⟨t₂, hrun₂, ht₂, hsets⟩ := Effect.discard_exact h₁.tidy hbelow
    (hB.nameable.usable r.number hroom) (hplace ▸ hB₁.free r.number)
  rw [hplace] at hsets
  have hall : s.deleteVersion bucket key (versionId r.number) t = (.ok (), t₂) := by
    have heffects : s.deleteVersionEffects t bucket key (versionId r.number) =
        .ok [ObjectStore.writeIndex (s.dirPath bucket) B.index,
          .discard (blobPath (s.dirPath bucket) (versionId r.number))] := by
      rw [deleteVersionEffects, h.readIndex hlimit hA, ok_bind]
      simp only [← VersionedBucket.index_deleteRevision, hsame]
      rfl
    rw [ObjectStore.deleteVersion, performing_pair _ heffects hrun₁, Disk.mapError, hrun₂]
  rw [hall]
  refine ⟨rfl, ?_⟩
  have hother {l : Location} (hl : l ≠ s.blobPlace t₁.workDir bucket (versionId r.number)) :
      t₂.entry? l = t₁.entry? l := by rw [hsets.entry, if_neg hl]
  have hread : s.readIndex t₂ bucket = .ok (s.dirPath bucket, B.index) := by
    have hwithin : Within t₂.workDir top s.root := hsets.work ▸ h₁.within
    refine (readIndex_of_indexBytes ht₂ hwithin hB.nameable.bucketDir
      (hB.nameable.index (Nat.lt_of_le_of_lt (Nat.zero_le _) hB.room))
      (VersionedBucket.ordered_index hB.sound) ?_).2
        ⟨rfl, rfl, Nat.lt_of_lt_of_le hB.room hlimit⟩
    rw [hsets.work, hother indexPlace_ne_blobPlace]
    exact hB₁.index
  have hgone : t₂.read (blobPath (s.dirPath bucket) (versionId r.number)) = .error .notFound := by
    refine read_of_none ht₂ (hbelow.of_work hsets.work) (hB.nameable.usable r.number hroom) ?_ ?_
    · rw [hsets.work, hplace, hother]
      · have := hB₁.blobs
        rwa [blobPlace, List.dropLast_append_of_ne_nil (by simp)]
      · intro heq
        have := congrArg List.length heq
        simp [blobPlace] at this
    · rw [hsets.work, hplace, hsets.entry, if_pos rfl]
  rw [ObjectStore.get, hread, ok_bind]
  simp only [VersionedBucket.current_index, hr, Option.filter_some, hbody, if_true,
    Option.map_some, Revision.stored, hgone]
  rfl

namespace Sample

/-- A disk with one object. -/
def single : FileTree :=
  (store.act (.call (.put "b" "k" "1".toUTF8)) (store.act (.createBucket "b") .empty).2).2

theorem reached_single : store.LedTo UInt64.size .empty single ∧
    store.Represents ["cloud"] UInt64.size
      (Becomes (Becomes .empty "b" .empty) "b" (VersionedBucket.empty.put "k" "1".toUTF8))
      single := by
  have hlimit := Nat.le_refl UInt64.size
  have hcreate : store.Allows UInt64.size .empty (.createBucket "b") := ⟨nameable hlimit, trivial⟩
  obtain ⟨-, h₁⟩ := (fresh.represents UInt64.size).act (by decide) hlimit _ hcreate
  have hput : store.Allows UInt64.size (store.act (.createBucket "b") .empty).2
      (.call (.put "b" "k" "1".toUTF8)) :=
    ⟨nameable hlimit, (h₁.canMint_iff (B := .empty) hlimit rfl).2 fun _ => by decide⟩
  exact ⟨.act _ (.act _ .start hcreate) hput, (h₁.act (by decide) hlimit _ hput).2⟩

end Sample

/-- The removal of a version that a key does not have succeeds, and takes the content of another
key away. -/
theorem deleteVersion_takes_other :
    Sample.store.LedTo UInt64.size .empty Sample.single ∧
      Sample.store.get Sample.single "b" "k" = .ok (some "1".toUTF8) ∧
      ¬Sample.store.Lists Sample.single "b" "l" "v000000000001" ∧
      (Sample.store.deleteVersion "b" "l" "v000000000001" Sample.single).1 = .ok () ∧
      Sample.store.get (Sample.store.deleteVersion "b" "l" "v000000000001" Sample.single).2
        "b" "k" = .error (.files .notFound) := by
  obtain ⟨hled, h⟩ := Sample.reached_single
  have hlimit := Nat.le_refl UInt64.size
  refine ⟨hled, h.get hlimit (by decide) "k", fun hlists => ?_,
    h.deleteVersion_takes hlimit rfl (k := "k") (by decide) (r := ⟨1, some "1".toUTF8⟩) rfl rfl⟩
  obtain ⟨r, hr, -⟩ := (h.lists_iff hlimit rfl).1 hlists
  cases hr

/-- The only version of a key is removed alone, and so is an id that no version has. -/
theorem deleteVersion_removesOnly_sample :
    Sample.store.Fresh ["cloud"] .empty ∧ Sample.store.LedTo UInt64.size .empty Sample.single ∧
      isBucketName "b" = true ∧
      Sample.store.Lists Sample.single "b" "k" "v000000000001" ∧
      Sample.store.Spares Sample.single "b" "k" "v000000000001" ∧
      Sample.store.RemovesOnly UInt64.size "b" "k" "v000000000001" Sample.single
        (Sample.store.deleteVersion "b" "k" "v000000000001" Sample.single).2 ∧
      Sample.store.Spares Sample.single "b" "l" "v000000000002" ∧
      Sample.store.RemovesOnly UInt64.size "b" "l" "v000000000002" Sample.single
        (Sample.store.deleteVersion "b" "l" "v000000000002" Sample.single).2 := by
  obtain ⟨hled, h⟩ := Sample.reached_single
  obtain ⟨hspared, hremoves⟩ := deleteVersion_removesOnly Sample.store ["cloud"] .empty
    Sample.single Sample.fresh hled
  have hlists : Sample.store.Lists Sample.single "b" "k" "v000000000001" :=
    (h.lists_iff (Nat.le_refl _) rfl).2 ⟨⟨1, some "1".toUTF8⟩, .head _, rfl⟩
  have hlisted := hspared "b" "k" "v000000000001" (by decide) (.inl hlists)
  have hunlisted := hspared "b" "l" "v000000000002" (by decide)
    (.inr ⟨isEntry_versionId 2, fun k hk hlists => by
      obtain ⟨r, hr, hid⟩ := (h.lists_iff (Nat.le_refl _) rfl).1 hlists
      have hle : r.number ≤ 1 := ((h.held "b" _ rfl).sound.numbered k r hr)
      have htwo : r.number = 2 := versionId_inj hid
      omega⟩)
  exact ⟨Sample.fresh, hled, by decide, hlists, hlisted, hremoves _ _ _ hlisted, hunlisted,
    hremoves _ _ _ hunlisted⟩

end ObjectStore

end Rollout
