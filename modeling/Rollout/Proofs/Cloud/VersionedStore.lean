import Mathlib.Logic.Function.Basic
import Rollout.Proofs.Cloud.Bucket
import Rollout.Run.Request

/-!
An object store as it is meant, without files. A bucket holds the revisions of every key, oldest
first; what a key yields is the content of its newest revision, unless that is a delete marker.
Revisions are numbered by a counter of the bucket, so that no two of them, of one key or of
different keys, have the same number, and those of a key come in the order of their numbers.
-/

namespace Rollout

/-- A revision of a key: its number in the bucket and its content; a delete marker has none. -/
structure Revision where
  number : Nat
  body : Option ByteArray

/-- A revision as the index has it: without its content. -/
def Revision.stored (r : Revision) : StoredVersion :=
  ⟨versionId r.number, r.body.isNone⟩

/-- A bucket: whether it keeps old revisions, how many it has numbered, and those it has of each
key, oldest first. -/
structure VersionedBucket where
  versioned : Bool
  minted : Nat
  keys : TextMap (List Revision)

/-- The buckets of a store, by their names. -/
abbrev VersionedStore : Type := String → Option VersionedBucket

namespace VersionedBucket

/-- A new bucket. -/
def empty : VersionedBucket := ⟨false, 0, []⟩

/-- The revisions of a key. -/
def revisions (B : VersionedBucket) (key : String) : List Revision :=
  (TextMap.get? key B.keys).getD []

/-- The newest content among revisions, if the newest is no delete marker. -/
def newest (rs : List Revision) : Option ByteArray := rs.getLast?.bind Revision.body

/-- What a key yields. -/
def get (B : VersionedBucket) (key : String) : Option ByteArray := newest (B.revisions key)

/-- One more revision of a key, which replaces those before it unless they are kept. -/
def push (B : VersionedBucket) (key : String) (body : Option ByteArray) : VersionedBucket :=
  let old := if B.versioned then B.revisions key else []
  { B with
    minted := B.minted + 1
    keys := TextMap.insert key (old ++ [⟨B.minted + 1, body⟩]) B.keys }

/-- The bucket without a key. -/
def dropKey (B : VersionedBucket) (key : String) : VersionedBucket :=
  { B with keys := TextMap.erase key B.keys }

/-- The bucket after an object was stored. -/
def put (B : VersionedBucket) (key : String) (body : ByteArray) : VersionedBucket :=
  B.push key (some body)

/-- The bucket after an object was deleted: a marker where revisions are kept. -/
def delete (B : VersionedBucket) (key : String) : VersionedBucket :=
  if B.versioned then B.push key none else B.dropKey key

/-- The bucket without one revision of a key, by the id of the revision; a key without revisions
goes too. -/
def deleteRevision (B : VersionedBucket) (key id : String) : VersionedBucket :=
  match (B.revisions key).filter fun r => versionId r.number ≠ id with
  | [] => B.dropKey key
  | rest => { B with keys := TextMap.insert key rest B.keys }

/-- The keys that yield something, in order. -/
def currentKeys (B : VersionedBucket) : List String :=
  (B.keys.filter fun e => (newest e.2).isSome).map Prod.fst

/-- Every revision by its key and its id, in key order and oldest first. -/
def listing (B : VersionedBucket) : List ObjectVersion :=
  B.keys.flatMap fun e => e.2.map fun r => ⟨e.1, versionId r.number⟩

/-! ## Reading what was written -/

variable {B : VersionedBucket} {key key' id : String} {n : Nat}

theorem revisions_insert (B : VersionedBucket) (key key' : String) (rs : List Revision) (n : Nat) :
    revisions { B with minted := n, keys := TextMap.insert key rs B.keys } key' =
      if key = key' then rs else B.revisions key' := by
  unfold revisions
  rw [TextMap.get?_insert]
  split <;> rfl

theorem revisions_push (B : VersionedBucket) (key key' : String) (body : Option ByteArray) :
    (B.push key body).revisions key' =
      if key = key' then (if B.versioned then B.revisions key else []) ++ [⟨B.minted + 1, body⟩]
      else B.revisions key' :=
  revisions_insert ..

theorem revisions_dropKey (B : VersionedBucket) (key key' : String) :
    (B.dropKey key).revisions key' = if key = key' then [] else B.revisions key' := by
  unfold revisions dropKey
  rw [TextMap.get?_erase]
  split <;> rfl

theorem revisions_deleteRevision (B : VersionedBucket) (key id key' : String) :
    (B.deleteRevision key id).revisions key' =
      if key = key' then (B.revisions key).filter fun r => versionId r.number ≠ id
      else B.revisions key' := by
  unfold deleteRevision
  split
  · rename_i hnone
    rw [revisions_dropKey, hnone]
  · exact revisions_insert ..

/-- What is stored is what the key yields, -/
theorem get_put (B : VersionedBucket) (key : String) (body : ByteArray) :
    (B.put key body).get key = some body := by
  simp [get, put, revisions_push, newest]

/-- and a deleted key yields nothing. -/
theorem get_delete (B : VersionedBucket) (key : String) : (B.delete key).get key = none := by
  unfold delete
  split
  · simp [get, revisions_push, newest]
  · simp [get, revisions_dropKey, newest]

theorem get_put_of_ne (h : key ≠ key') (body : ByteArray) : (B.put key body).get key' = B.get key' := by
  simp [get, put, revisions_push, h]

theorem get_delete_of_ne (h : key ≠ key') : (B.delete key).get key' = B.get key' := by
  unfold delete
  split
  · simp [get, revisions_push, h]
  · simp [get, revisions_dropKey, h]

theorem get_deleteRevision_of_ne (h : key ≠ key') (id : String) :
    (B.deleteRevision key id).get key' = B.get key' := by
  simp [get, revisions_deleteRevision, h]

/-! ## Sound buckets -/

/-- What is true of the revisions of a bucket that was made step by step. -/
structure Sound (B : VersionedBucket) : Prop where
  ordered : B.keys.Ordered
  /-- A key without revisions is gone. -/
  kept : ∀ e ∈ B.keys, e.2 ≠ []
  rising : ∀ key, (B.revisions key).Pairwise fun r r' => r.number < r'.number
  numbered : ∀ key, ∀ r ∈ B.revisions key, r.number ≤ B.minted
  apart : ∀ key key', ∀ r ∈ B.revisions key, ∀ r' ∈ B.revisions key', r.number = r'.number →
    key = key'
  /-- Where revisions are not kept, a key has one, with content. -/
  single : B.versioned = false → ∀ key, ∀ r ∈ B.revisions key,
    B.revisions key = [r] ∧ r.body.isSome

theorem Sound.empty : Sound empty where
  ordered := TextMap.Ordered.nil
  kept _ h := nomatch h
  rising _ := List.Pairwise.nil
  numbered _ _ h := nomatch h
  apart _ _ _ h := nomatch h
  single _ _ _ h := nomatch h

theorem Sound.versioning (h : B.Sound) : Sound { B with versioned := true } where
  ordered := h.ordered
  kept := h.kept
  rising := h.rising
  numbered := h.numbered
  apart := h.apart
  single hfalse := nomatch hfalse

/-- A key gets other revisions: some that it had, and new ones. -/
theorem Sound.insert (h : B.Sound) (key : String) {rs : List Revision} (hne : rs ≠ [])
    (hn : B.minted ≤ n) (hrising : rs.Pairwise fun r r' => r.number < r'.number)
    (hfrom : ∀ r ∈ rs, r ∈ B.revisions key ∨ (B.minted < r.number ∧ r.number ≤ n))
    (hsingle : B.versioned = false → ∀ r ∈ rs, rs = [r] ∧ r.body.isSome) :
    Sound { B with minted := n, keys := TextMap.insert key rs B.keys } where
  ordered := h.ordered.insert _ _
  kept e he := by
    rcases TextMap.mem_insert he with rfl | he
    · exact hne
    · exact h.kept e he
  rising key' := by
    rw [revisions_insert]
    split
    · exact hrising
    · exact h.rising key'
  numbered key' r hr := by
    rw [revisions_insert] at hr
    split at hr
    · rcases hfrom r hr with hr | hr
      · exact Nat.le_trans (h.numbered key r hr) hn
      · exact hr.2
    · exact Nat.le_trans (h.numbered key' r hr) hn
  apart k k' r hr r' hr' heq := by
    -- a number above the counter is that of no revision there was
    have hold (k : String) (r : Revision)
        (hr : r ∈ revisions { B with minted := n, keys := TextMap.insert key rs B.keys } k) :
        r ∈ B.revisions k ∨ (k = key ∧ B.minted < r.number) := by
      rw [revisions_insert] at hr
      split at hr
      · rename_i hk
        subst hk
        exact (hfrom r hr).imp id fun hr => ⟨rfl, hr.1⟩
      · exact .inl hr
    rcases hold k r hr with hin | ⟨hk, hnew⟩ <;> rcases hold k' r' hr' with hin' | ⟨hk', hnew'⟩
    · exact h.apart k k' r hin r' hin' heq
    · have := h.numbered k r hin
      omega
    · have := h.numbered k' r' hin'
      omega
    · rw [hk, hk']
  single hfalse key' r hr := by
    rw [revisions_insert] at hr ⊢
    split
    · rename_i hk
      rw [if_pos hk] at hr
      exact hsingle hfalse r hr
    · rename_i hk
      rw [if_neg hk] at hr
      exact h.single hfalse key' r hr

theorem Sound.push (h : B.Sound) (key : String) {body : Option ByteArray}
    (hbody : B.versioned = false → body.isSome) : (B.push key body).Sound := by
  refine h.insert key (by simp) (Nat.le_succ _) ?_ ?_ ?_
  · split
    · refine List.pairwise_append.2 ⟨h.rising key, List.pairwise_singleton _ _, ?_⟩
      intro r hr r' hr'
      rw [List.mem_singleton.1 hr']
      exact Nat.lt_succ_of_le (h.numbered key r hr)
    · exact List.pairwise_singleton _ _
  · intro r hr
    rcases List.mem_append.1 hr with hr | hr
    · split at hr
      · exact .inl hr
      · cases hr
    · rw [List.mem_singleton.1 hr]
      exact .inr ⟨Nat.lt_succ_self _, Nat.le_refl _⟩
  · intro hfalse r hr
    simp only [hfalse, Bool.false_eq_true, if_false, List.nil_append, List.mem_singleton] at hr ⊢
    exact ⟨hr ▸ rfl, hr ▸ hbody hfalse⟩

theorem Sound.dropKey (h : B.Sound) (key : String) : (B.dropKey key).Sound where
  ordered := h.ordered.erase _
  kept e he := h.kept e (List.mem_filter.1 he).1
  rising key' := by
    rw [revisions_dropKey]
    split
    · exact List.Pairwise.nil
    · exact h.rising key'
  numbered key' r hr := by
    rw [revisions_dropKey] at hr
    split at hr
    · cases hr
    · exact h.numbered key' r hr
  apart k k' r hr r' hr' heq := by
    rw [revisions_dropKey] at hr hr'
    split at hr
    · cases hr
    · split at hr'
      · cases hr'
      · exact h.apart k k' r hr r' hr' heq
  single hfalse key' r hr := by
    rw [revisions_dropKey] at hr ⊢
    split at hr
    · cases hr
    · rename_i hk
      rw [if_neg hk]
      exact h.single hfalse key' r hr

theorem Sound.put (h : B.Sound) (key : String) (body : ByteArray) : (B.put key body).Sound :=
  h.push key fun _ => rfl

theorem Sound.delete (h : B.Sound) (key : String) : (B.delete key).Sound := by
  unfold VersionedBucket.delete
  split
  · rename_i hversioned
    exact h.push key fun hfalse => by simp [hversioned] at hfalse
  · exact h.dropKey key

theorem Sound.deleteRevision (h : B.Sound) (key id : String) : (B.deleteRevision key id).Sound := by
  unfold VersionedBucket.deleteRevision
  split
  · exact h.dropKey key
  · rename_i rest hne
    have hrest (r : Revision)
        (hr : r ∈ (B.revisions key).filter fun r => versionId r.number ≠ id) :
        r ∈ B.revisions key := (List.mem_filter.1 hr).1
    refine h.insert key (by simpa using hne) (Nat.le_refl _) ((h.rising key).filter _)
      (fun r hr => .inl (hrest r hr)) ?_
    intro hfalse r hr
    obtain ⟨hall, hbody⟩ := h.single hfalse key r (hrest r hr)
    refine ⟨?_, hbody⟩
    have hkeep := (List.mem_filter.1 hr).2
    rw [hall]
    exact List.filter_eq_self.2 fun r' hr' => List.mem_singleton.1 hr' ▸ hkeep

/-! ## The index of a bucket -/

/-- The index of a bucket. -/
def index (B : VersionedBucket) : BucketIndex :=
  ⟨B.versioned, B.minted, B.keys.map fun e => (e.1, e.2.map Revision.stored)⟩

theorem get?_index (B : VersionedBucket) (key : String) :
    TextMap.get? key B.index.objects = (TextMap.get? key B.keys).map (List.map Revision.stored) :=
  TextMap.get?_map (List.map Revision.stored) key B.keys

theorem versions_index (B : VersionedBucket) (key : String) :
    B.index.versions key = (B.revisions key).map Revision.stored := by
  rw [BucketIndex.versions, get?_index, revisions]
  cases TextMap.get? key B.keys <;> rfl

theorem ordered_index (h : B.Sound) : B.index.objects.Ordered :=
  h.ordered.mapValues fun _ rs => rs.map Revision.stored

theorem index_insert (B : VersionedBucket) (key : String) (rs : List Revision) (n : Nat) :
    index { B with minted := n, keys := TextMap.insert key rs B.keys } =
      { B.index with
        nextVersion := n
        objects := TextMap.insert key (rs.map Revision.stored) B.index.objects } := by
  simp only [index, BucketIndex.mk.injEq, true_and]
  exact (TextMap.insert_map (List.map Revision.stored) key rs B.keys).symm

theorem index_push (B : VersionedBucket) (key : String) (body : Option ByteArray) :
    (B.push key body).index = B.index.push key ⟨B.index.nextId, body.isNone⟩ := by
  rw [push, index_insert, BucketIndex.push, versions_index, List.map_append]
  simp only [index, apply_ite (List.map Revision.stored)]
  rfl

theorem index_dropKey (B : VersionedBucket) (key : String) :
    (B.dropKey key).index = B.index.dropKey key := by
  simp only [index, dropKey, BucketIndex.dropKey, BucketIndex.mk.injEq, true_and]
  exact (TextMap.erase_map (List.map Revision.stored) key B.keys).symm

theorem index_deleteRevision (B : VersionedBucket) (key id : String) :
    (B.deleteRevision key id).index = B.index.dropVersion key id := by
  have hfilter (rs : List Revision) :
      (rs.map Revision.stored).filter (fun v => v.id ≠ id) =
        (rs.filter fun r => versionId r.number ≠ id).map Revision.stored := List.filter_map
  unfold deleteRevision BucketIndex.dropVersion
  rw [get?_index, revisions]
  cases hkey : TextMap.get? key B.keys with
  | none =>
    -- a key that is not there is not dropped
    simp only [Option.getD_none, List.filter_nil, Option.map_none, dropKey,
      TextMap.erase_of_get?_eq_none hkey]
  | some rs =>
    simp only [Option.getD_some, Option.map_some, hfilter]
    cases (rs.filter fun r => decide (versionId r.number ≠ id)) with
    | nil => exact index_dropKey B key
    | cons r rest => exact index_insert B key (r :: rest) B.minted

/-- The current object of a key is the newest revision, if that has content. -/
theorem current_index (B : VersionedBucket) (key : String) :
    B.index.current key =
      ((B.revisions key).getLast?.filter fun r => r.body.isSome).map Revision.stored := by
  unfold BucketIndex.current BucketIndex.currentOf
  rw [versions_index, List.getLast?_map]
  cases (B.revisions key).getLast? with
  | none => rfl
  | some r =>
    obtain ⟨number, body⟩ := r
    cases body <;> rfl

theorem isSome_currentOf (rs : List Revision) :
    (BucketIndex.currentOf (rs.map Revision.stored)).isSome = (newest rs).isSome := by
  unfold BucketIndex.currentOf newest
  rw [List.getLast?_map]
  cases rs.getLast? with
  | none => rfl
  | some r =>
    obtain ⟨number, body⟩ := r
    cases body <;> rfl

theorem currentKeys_index (B : VersionedBucket) : B.index.currentKeys = B.currentKeys := by
  unfold BucketIndex.currentKeys currentKeys index
  rw [List.filter_map, List.map_map]
  refine congrArg _ (List.filter_congr fun e _ => ?_)
  exact isSome_currentOf e.2

theorem allVersions_index (B : VersionedBucket) : B.index.allVersions = B.listing := by
  unfold BucketIndex.allVersions listing index
  rw [List.flatMap_map]
  refine congrArg (List.flatMap · B.keys) (funext fun e => ?_)
  exact List.map_map

theorem isEmpty_index (B : VersionedBucket) : B.index.objects.isEmpty = B.keys.isEmpty :=
  List.isEmpty_map

/-- What is listed under a key are its revisions. -/
theorem mem_listing (h : B.Sound) :
    (⟨key, id⟩ : ObjectVersion) ∈ B.listing ↔ ∃ r ∈ B.revisions key, versionId r.number = id := by
  simp only [listing, List.mem_flatMap, List.mem_map, ObjectVersion.mk.injEq]
  constructor
  · rintro ⟨⟨k, rs⟩, he, r, hr, rfl, hid⟩
    refine ⟨r, ?_, hid⟩
    rw [revisions, TextMap.get?_of_mem h.ordered he]
    exact hr
  · rintro ⟨r, hr, hid⟩
    rw [revisions] at hr
    cases hkey : TextMap.get? key B.keys with
    | none => simp [hkey] at hr
    | some rs =>
      rw [hkey] at hr
      exact ⟨(key, rs), TextMap.mem_of_get? hkey, r, hr, rfl, hid⟩

end VersionedBucket

/-! ## Answers -/

namespace VersionedStore

/-- Something about a bucket, if it is there. -/
def look {α : Type} (A : VersionedStore) (bucket : String) (f : VersionedBucket → α) :
    Except StoreError α :=
  match A bucket with
  | some B => .ok (f B)
  | none => .error (.noSuchBucket bucket)

/-- Another bucket in the place of one, if it is there. -/
def change (A : VersionedStore) (bucket : String) (f : VersionedBucket → VersionedBucket) :
    Except StoreError Unit × VersionedStore :=
  match A bucket with
  | some B => (.ok (), Function.update A bucket (some (f B)))
  | none => (.error (.noSuchBucket bucket), A)

theorem look_of_some {α : Type} {A : VersionedStore} {bucket : String} {B : VersionedBucket}
    (h : A bucket = some B) (f : VersionedBucket → α) : A.look bucket f = .ok (f B) := by
  rw [look, h]

theorem change_of_some {A : VersionedStore} {bucket : String} {B : VersionedBucket}
    (h : A bucket = some B) (f : VersionedBucket → VersionedBucket) :
    A.change bucket f = (.ok (), Function.update A bucket (some (f B))) := by
  rw [change, h]

theorem change_of_ne {A : VersionedStore} {bucket other : String} (h : bucket ≠ other)
    (f : VersionedBucket → VersionedBucket) : (A.change bucket f).2 other = A other := by
  unfold change
  split
  · exact Function.update_of_ne h.symm ..
  · rfl

/-- The keys that yield something after a token, as many as fit on a page. -/
def keyPage (size : Nat) (token : Option String) (B : VersionedBucket) : KeyPage :=
  let rest := B.currentKeys.filter fun key => token.all fun after => Text.precedes after key
  ⟨rest.take size, if size < rest.length then (rest.take size).getLast? else none⟩

/-- Whether a revision comes after a position: at a later key, or later at the same key. -/
def isAfter (cursor : VersionCursor) (v : ObjectVersion) : Bool :=
  Text.precedes cursor.key v.key ||
    (cursor.key = v.key && Text.precedes (cursor.id.getD "") v.id)

/-- The revisions after a position, as many as fit on a page. -/
def versionPage (size : Nat) (cursor : Option VersionCursor) (B : VersionedBucket) : VersionPage :=
  let rest := B.listing.filter fun v => cursor.all fun c => isAfter c v
  ⟨rest.take size,
    if size < rest.length then (rest.take size).getLast?.map fun v => ⟨v.key, some v.id⟩ else none⟩

/-- Removing a bucket, which must hold no key. -/
def deleteBucket (A : VersionedStore) (bucket : String) : Except StoreError Unit × VersionedStore :=
  match A bucket with
  | none => (.error (.noSuchBucket bucket), A)
  | some B =>
    if B.keys.isEmpty then (.ok (), Function.update A bucket none)
    else (.error (.bucketNotEmpty bucket), A)

/-- How the store answers a call, and what it is afterwards. -/
def answer (size : Nat) :
    (c : StoreCall) → VersionedStore → Except StoreError c.Result × VersionedStore
  | .put bucket key body, A => A.change bucket (·.put key body)
  | .get bucket key, A => (A.look bucket (·.get key), A)
  | .url bucket key, A => (.ok ("local://" ++ bucket ++ "/" ++ key), A)
  | .listObjects bucket token, A => (A.look bucket (keyPage size token), A)
  | .delete bucket key, A => A.change bucket (·.delete key)
  | .listVersions bucket cursor, A => (A.look bucket (versionPage size cursor), A)
  | .deleteVersion bucket key id, A => A.change bucket (·.deleteRevision key id)
  | .deleteBucket bucket, A => A.deleteBucket bucket

/-- The store after a bucket was created, unless it exists. -/
def createBucket (A : VersionedStore) (bucket : String) : VersionedStore :=
  match A bucket with
  | some _ => A
  | none => Function.update A bucket (some .empty)

/-! ## Contents -/

variable {A : VersionedStore} {B : VersionedBucket} {bucket other key : String}
  {f : VersionedBucket → VersionedBucket}

/-- What there is in a bucket under a key. -/
def object (A : VersionedStore) (bucket key : String) : Option ByteArray :=
  (A bucket).bind (·.get key)

/-- A bucket that changes under one key yields something else under that key at most. -/
theorem object_change (hA : A bucket = some B) (hf : ∀ k, key ≠ k → (f B).get k = B.get k) :
    (A.change bucket f).2.object bucket =
      Function.update (A.object bucket) key ((f B).get key) := by
  funext k
  have hobject : (A.change bucket f).2.object bucket k = (f B).get k := by
    rw [object, change_of_some hA]
    simp
  rw [hobject]
  by_cases hk : key = k
  · rw [← hk, Function.update_self]
  · rw [Function.update_of_ne (Ne.symm hk), hf k hk, object, hA]
    rfl

theorem object_change_of_ne (h : bucket ≠ other) :
    (A.change bucket f).2.object other = A.object other := by
  funext k
  rw [object, change_of_ne h, object]

/-- A bucket that can be removed yields nothing. -/
theorem object_deleteBucket (A : VersionedStore) (bucket other : String) :
    (A.deleteBucket bucket).2.object other = A.object other := by
  unfold deleteBucket
  split
  · rfl
  · rename_i B hA
    split
    · rename_i hempty
      funext key
      by_cases hother : other = bucket
      · subst hother
        have hget : B.get key = none := by
          simp [VersionedBucket.get, VersionedBucket.revisions, List.isEmpty_iff.1 hempty,
            VersionedBucket.newest]
        simp [object, hA, hget]
      · simp [object, Function.update_of_ne hother]
    · rfl

end VersionedStore

end Rollout
