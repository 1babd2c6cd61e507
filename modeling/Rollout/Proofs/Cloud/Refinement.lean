import Rollout.Proofs.Cloud.Represented
import Rollout.Run.World

/-!
The store on disk answers as the store that is meant does. Whatever is done to it, one thing after
the other, starting where there are no buckets, every answer is the one that the revisions of the
keys demand; and what is done to one key of one bucket changes no answer about another.
-/

namespace Rollout

open FileTree Outcome

/-! ## What can be done to a store -/

/-- Something that is done to a store: a call, or a step of its administration. -/
inductive StoreAction where
  | createBucket (bucket : String)
  | enableVersioning (bucket : String)
  | isEmpty (bucket : String)
  | call (c : StoreCall)

/-- What an action results in. -/
@[reducible] def StoreAction.Result : StoreAction → Type
  | createBucket _ => Unit
  | enableVersioning _ => Unit
  | isEmpty _ => Bool
  | call c => c.Result

/-- The bucket a call is about. -/
def StoreCall.bucket : StoreCall → String
  | .put bucket .. => bucket
  | .get bucket _ => bucket
  | .url bucket _ => bucket
  | .listObjects bucket _ => bucket
  | .delete bucket _ => bucket
  | .listVersions bucket _ => bucket
  | .deleteVersion bucket .. => bucket
  | .deleteBucket bucket => bucket

/-- The bucket an action is about. -/
def StoreAction.bucket : StoreAction → String
  | createBucket bucket => bucket
  | enableVersioning bucket => bucket
  | isEmpty bucket => bucket
  | call c => c.bucket

/-- Whether an action is about what a key of a bucket yields. -/
def StoreAction.Concerns : StoreAction → String → String → Prop
  | createBucket bucket, bucket', _ => bucket = bucket'
  | call (.put bucket key _), bucket', key' => bucket = bucket' ∧ key = key'
  | call (.delete bucket key), bucket', key' => bucket = bucket' ∧ key = key'
  | call (.deleteVersion bucket key _), bucket', key' => bucket = bucket' ∧ key = key'
  | call (.deleteBucket bucket), bucket', _ => bucket = bucket'
  | _, _, _ => False

/-- An action with its answer. -/
abbrev StoreReply : Type := (a : StoreAction) × Except StoreError a.Result

namespace VersionedStore

variable {A A' : VersionedStore} {size : Nat} {bucket key : String}

/-- A store without buckets. -/
def empty : VersionedStore := fun _ => none

/-- How the store answers an action, and what it is afterwards. -/
def act (size : Nat) :
    (a : StoreAction) → VersionedStore → Except StoreError a.Result × VersionedStore
  | .createBucket bucket, A => (.ok (), A.createBucket bucket)
  | .enableVersioning bucket, A => A.change bucket ({ · with versioned := true })
  | .isEmpty bucket, A => (A.look bucket (·.keys.isEmpty), A)
  | .call c, A => A.answer size c

/-- The store after actions one after the other. -/
def actAll (size : Nat) : List StoreAction → VersionedStore → VersionedStore
  | [], A => A
  | a :: as, A => actAll size as (A.act size a).2

/-- The answers to actions one after the other. -/
def replies (size : Nat) : List StoreAction → VersionedStore → List StoreReply
  | [], _ => []
  | a :: as, A => ⟨a, (A.act size a).1⟩ :: replies size as (A.act size a).2

/-! ## What an action is not about -/

/-- An action changes the bucket it is about. -/
theorem act_of_ne (a : StoreAction) (h : a.bucket ≠ bucket) : (A.act size a).2 bucket = A bucket := by
  cases a with
  | createBucket b =>
    show A.createBucket b bucket = A bucket
    unfold createBucket
    cases A b with
    | none => exact Function.update_of_ne h.symm ..
    | some B => rfl
  | enableVersioning b => exact change_of_ne h _
  | isEmpty b => rfl
  | call c =>
    cases c with
    | put b k body => exact change_of_ne h _
    | get b k => rfl
    | url b k => rfl
    | listObjects b token => rfl
    | delete b k => exact change_of_ne h _
    | listVersions b cursor => rfl
    | deleteVersion b k id => exact change_of_ne h _
    | deleteBucket b =>
      show (A.deleteBucket b).2 bucket = A bucket
      unfold deleteBucket
      split
      · rfl
      · split
        · exact Function.update_of_ne h.symm ..
        · rfl

/-- What a key yields stays if a bucket changes in other respects. -/
theorem look_change {b : String} {f : VersionedBucket → VersionedBucket}
    (h : b = bucket → ∀ B : VersionedBucket, (f B).get key = B.get key) :
    (A.change b f).2.look bucket (·.get key) = A.look bucket (·.get key) := by
  by_cases hb : b = bucket
  · subst hb
    unfold change
    cases hA : A b with
    | none => rfl
    | some B => simp [look, hA, h rfl B]
  · unfold look
    rw [change_of_ne hb]

/-- An action changes what the keys yield that it is about. -/
theorem look_act (a : StoreAction) (h : ¬a.Concerns bucket key) :
    (A.act size a).2.look bucket (·.get key) = A.look bucket (·.get key) := by
  have hother (hb : a.bucket ≠ bucket) :
      (A.act size a).2.look bucket (·.get key) = A.look bucket (·.get key) := by
    unfold look
    rw [act_of_ne a hb]
  cases a with
  | createBucket b => exact hother h
  | enableVersioning b => exact look_change fun _ _ => rfl
  | isEmpty b => rfl
  | call c =>
    cases c with
    | put b k body =>
      exact look_change fun hb B => VersionedBucket.get_put_of_ne (fun hk => h ⟨hb, hk⟩) body
    | get b k => rfl
    | url b k => rfl
    | listObjects b token => rfl
    | delete b k =>
      exact look_change fun hb B => VersionedBucket.get_delete_of_ne fun hk => h ⟨hb, hk⟩
    | listVersions b cursor => rfl
    | deleteVersion b k id =>
      exact look_change fun hb B =>
        VersionedBucket.get_deleteRevision_of_ne (fun hk => h ⟨hb, hk⟩) id
    | deleteBucket b => exact hother h

/-- An answer depends on the bucket an action is about. -/
theorem act_congr (a : StoreAction) (h : A a.bucket = A' a.bucket) :
    (A.act size a).1 = (A'.act size a).1 := by
  have hlook {α : Type} (f : VersionedBucket → α) : A.look a.bucket f = A'.look a.bucket f := by
    rw [look, look, h]
  have hchange (f : VersionedBucket → VersionedBucket) :
      (A.change a.bucket f).1 = (A'.change a.bucket f).1 := by
    unfold change
    rw [← h]
    cases A a.bucket <;> rfl
  cases a with
  | createBucket b => rfl
  | enableVersioning b => exact hchange _
  | isEmpty b => exact hlook _
  | call c =>
    cases c with
    | put b k body => exact hchange _
    | get b k => exact hlook _
    | url b k => rfl
    | listObjects b token => exact hlook _
    | delete b k => exact hchange _
    | listVersions b cursor => exact hlook _
    | deleteVersion b k id => exact hchange _
    | deleteBucket b =>
      show (A.deleteBucket b).1 = (A'.deleteBucket b).1
      have hb : A b = A' b := h
      unfold deleteBucket
      rw [← hb]
      cases A b with
      | none => rfl
      | some B => cases hempty : B.keys.isEmpty <;> simp [hempty]

end VersionedStore

namespace ObjectStore

variable {s : ObjectStore} {top : Location} {limit : Nat} {A : VersionedStore} {t : FileTree}
  {bucket key id : String} {B : VersionedBucket}

/-! ## Actions on disk -/

/-- How the store on disk answers an action. -/
def act (s : ObjectStore) :
    (a : StoreAction) → FileTree → Except StoreError a.Result × FileTree
  | .createBucket bucket, t => s.createBucket bucket t
  | .enableVersioning bucket, t => s.enableVersioning bucket t
  | .isEmpty bucket, t => readingAnswer (s.isEmpty t bucket) t
  | .call c, t => s.answer c t

/-- The disk after actions one after the other. -/
def actAll (s : ObjectStore) : List StoreAction → FileTree → FileTree
  | [], t => t
  | a :: as, t => s.actAll as (s.act a t).2

/-- The answers to actions one after the other. -/
def replies (s : ObjectStore) : List StoreAction → FileTree → List StoreReply
  | [], _ => []
  | a :: as, t => ⟨a, (s.act a t).1⟩ :: s.replies as (s.act a t).2

/-- A disk without buckets: nothing is where they go, and nothing is in the way there. -/
structure Fresh (s : ObjectStore) (top : Location) (t : FileTree) : Prop where
  tidy : t.Tidy top
  within : Within t.workDir top s.root
  clear : t.Clear (s.bucketsPlace t.workDir)
  nothing : ∀ l, s.bucketsPlace t.workDir <+: l → t.entry? l = none

/-- Whether the index of a bucket lists a version under a key. -/
def Lists (s : ObjectStore) (t : FileTree) (bucket key id : String) : Prop :=
  ∃ dir i, s.readIndex t bucket = .ok (dir, i) ∧ ∃ v ∈ i.versions key, v.id = id

/-- Whether a bucket can number one more version, if it has to. -/
def CanMint (s : ObjectStore) (limit : Nat) (t : FileTree) (bucket : String)
    (mints : BucketIndex → Bool) : Prop :=
  ∀ dir i, s.readIndex t bucket = .ok (dir, i) → mints i = true → i.nextVersion + 1 < limit

/-- What is asked of an action: its bucket can have that name, the versions stay below the limit,
and only versions are removed that are listed. -/
def Allows (s : ObjectStore) (limit : Nat) (t : FileTree) (a : StoreAction) : Prop :=
  s.Nameable limit a.bucket ∧
    match a with
    | .call (.put bucket _ _) => s.CanMint limit t bucket fun _ => true
    | .call (.delete bucket _) => s.CanMint limit t bucket BucketIndex.versioned
    | .call (.deleteVersion bucket key id) => s.Lists t bucket key id
    | _ => True

/-- Whether actions one after the other are allowed. -/
def AllowsAll (s : ObjectStore) (limit : Nat) : List StoreAction → FileTree → Prop
  | [], _ => True
  | a :: as, t => s.Allows limit t a ∧ s.AllowsAll limit as (s.act a t).2

theorem Fresh.represents (h : s.Fresh top t) (limit : Nat) :
    s.Represents top limit .empty t where
  tidy := h.tidy
  within := h.within
  clear := h.clear
  outside hin := by
    have := h.tidy.wf.work
    rw [h.nothing _ hin] at this
    cases this
  held _ _ hB := nomatch hB
  absent _ _ _ := h.nothing _ (bucketPlace_eq (s := s) t.workDir ▸ List.prefix_append _ _)

/-- A bucket can number one more version as long as it has numbered fewer. -/
theorem Represents.canMint_iff (h : s.Represents top limit A t) (hlimit : limit ≤ UInt64.size)
    (hA : A bucket = some B) {mints : BucketIndex → Bool} :
    s.CanMint limit t bucket mints ↔ (mints B.index = true → B.minted + 1 < limit) := by
  have hread := h.readIndex hlimit hA
  constructor
  · intro hmint
    exact hmint _ _ hread
  · intro hmint dir i hi
    rw [hread] at hi
    cases hi
    exact hmint

/-- What is listed under a key are its revisions. -/
theorem Represents.lists_iff (h : s.Represents top limit A t) (hlimit : limit ≤ UInt64.size)
    (hA : A bucket = some B) :
    s.Lists t bucket key id ↔ ∃ r ∈ B.revisions key, versionId r.number = id := by
  have hread := h.readIndex hlimit hA
  have hversions := B.versions_index key
  constructor
  · rintro ⟨dir, i, hi, v, hv, hid⟩
    rw [hread] at hi
    cases hi
    rw [hversions] at hv
    obtain ⟨r, hr, rfl⟩ := List.mem_map.1 hv
    exact ⟨r, hr, hid⟩
  · rintro ⟨r, hr, hid⟩
    exact ⟨_, _, hread, r.stored, hversions ▸ List.mem_map_of_mem hr, hid⟩

/-- An operation that changes a bucket changes it as it is meant. -/
theorem Represents.change (h : s.Represents top limit A t) (hname : isBucketName bucket = true)
    {f : VersionedBucket → VersionedBucket}
    {effects : FileTree → Except StoreError (List Effect)}
    (hes : ∀ B, A bucket = some B → ∃ es, effects t = .ok es ∧
      Effect.Lands (s.Between top limit A (Becomes A bucket (f B)))
        (s.Represents top limit (Becomes A bucket (f B))) es t)
    (hnone : s.readIndex t bucket = .error (.noSuchBucket bucket) →
      effects t = .error (.noSuchBucket bucket)) :
    (performing effects t).1 = (A.change bucket f).1 ∧
      s.Represents top limit (A.change bucket f).2 (performing effects t).2 := by
  rw [VersionedStore.change]
  cases hA : A bucket with
  | none =>
    rw [performing_of_error _ (hnone (h.readIndex_of_absent hname hA))]
    exact ⟨rfl, h⟩
  | some B =>
    obtain ⟨es, hes, hlands⟩ := hes B hA
    obtain ⟨t', hrun, h'⟩ := performing_of_lands _ hes hlands
    rw [hrun]
    exact ⟨rfl, h'⟩

/-- One action on disk is one action on the store that is meant. -/
theorem Represents.act (h : s.Represents top limit A t) (hpos : 0 < limit)
    (hlimit : limit ≤ UInt64.size) (a : StoreAction) (ha : s.Allows limit t a) :
    (s.act a t).1 = (A.act s.pageSize a).1 ∧
      s.Represents top limit (A.act s.pageSize a).2 (s.act a t).2 := by
  obtain ⟨hname, ha⟩ := ha
  cases a with
  | createBucket bucket =>
    have hname : s.Nameable limit bucket := hname
    obtain ⟨t', hrun, h'⟩ := h.create hpos hname
    rw [ObjectStore.act, hrun]
    exact ⟨rfl, h'⟩
  | enableVersioning bucket =>
    have hname : s.Nameable limit bucket := hname
    refine h.change hname.name (fun B hA => h.versioning hlimit hA) fun hnone => ?_
    rw [versioningEffects, hnone]
    rfl
  | isEmpty bucket => exact ⟨h.isEmpty hlimit hname.name, h⟩
  | call c =>
    cases c with
    | put bucket key body =>
      have hname : s.Nameable limit bucket := hname
      refine h.change hname.name (fun B hA => ?_) fun hnone => ?_
      · exact h.put hlimit hA ((h.canMint_iff hlimit hA).1 ha rfl) key body
      · rw [putEffects, hnone]
        rfl
    | get bucket key => exact ⟨h.get hlimit hname.name key, h⟩
    | url bucket key => exact ⟨rfl, h⟩
    | listObjects bucket token => exact ⟨h.listObjects hlimit hname.name token, h⟩
    | delete bucket key =>
      have hname : s.Nameable limit bucket := hname
      refine h.change hname.name (fun B hA => ?_) fun hnone => ?_
      · exact h.delete hlimit hA ((h.canMint_iff hlimit hA).1 ha) key
      · rw [deleteEffects, hnone]
        rfl
    | listVersions bucket cursor => exact ⟨h.listVersions hlimit hname.name cursor, h⟩
    | deleteVersion bucket key id =>
      have hname : s.Nameable limit bucket := hname
      refine h.change hname.name (fun B hA => ?_) fun hnone => ?_
      · obtain ⟨r, hr, hid⟩ := (h.lists_iff hlimit hA).1 ha
        exact h.deleteVersion hlimit hA hr hid
      · rw [deleteVersionEffects, hnone]
        rfl
    | deleteBucket bucket => exact h.deleteBucket hlimit hname.name

/-- Actions one after the other on disk are the same actions on the store that is meant. -/
theorem Represents.replies (h : s.Represents top limit A t) (hpos : 0 < limit)
    (hlimit : limit ≤ UInt64.size) (as : List StoreAction) (has : s.AllowsAll limit as t) :
    s.replies as t = VersionedStore.replies s.pageSize as A := by
  induction as generalizing A t with
  | nil => rfl
  | cons a as ih =>
    obtain ⟨hreply, h'⟩ := h.act hpos hlimit a has.1
    rw [ObjectStore.replies, VersionedStore.replies, hreply, ih h' has.2]

theorem Represents.actAll (h : s.Represents top limit A t) (hpos : 0 < limit)
    (hlimit : limit ≤ UInt64.size) (as : List StoreAction) (has : s.AllowsAll limit as t) :
    s.Represents top limit (VersionedStore.actAll s.pageSize as A) (s.actAll as t) := by
  induction as generalizing A t with
  | nil => exact h
  | cons a as ih => exact ih (h.act hpos hlimit a has.1).2 has.2

theorem allowsAll_append (as bs : List StoreAction) :
    s.AllowsAll limit (as ++ bs) t ↔
      s.AllowsAll limit as t ∧ s.AllowsAll limit bs (s.actAll as t) := by
  induction as generalizing t with
  | nil => simp [AllowsAll, ObjectStore.actAll]
  | cons a as ih =>
    rw [List.cons_append, AllowsAll, AllowsAll, ih, and_assoc]
    rfl

/-- What is asked of an action depends on the bucket it is about. -/
theorem Allows.of_readIndex {a : StoreAction} {t' : FileTree} (h : s.Allows limit t a)
    (hread : s.readIndex t' a.bucket = s.readIndex t a.bucket) : s.Allows limit t' a := by
  obtain ⟨hname, ha⟩ := h
  refine ⟨hname, ?_⟩
  cases a with
  | createBucket b => trivial
  | enableVersioning b => trivial
  | isEmpty b => trivial
  | call c =>
    have hread : s.readIndex t' c.bucket = s.readIndex t c.bucket := hread
    cases c with
    | put b k body => exact fun dir i hi => ha dir i (hread ▸ hi)
    | delete b k => exact fun dir i hi => ha dir i (hread ▸ hi)
    | deleteVersion b k id =>
      obtain ⟨dir, i, hi, hlisted⟩ := ha
      exact ⟨dir, i, hread ▸ hi, hlisted⟩
    | _ => trivial

/-- Nothing an action is not about changes: neither what another key yields nor what another
bucket answers. -/
structure Apart (s : ObjectStore) (t : FileTree) (a : StoreAction) : Prop where
  keys (bucket key : String) : s.Nameable idLimit bucket → ¬a.Concerns bucket key →
    s.get (s.act a t).2 bucket key = s.get t bucket key
  buckets (b : StoreAction) : b.bucket ≠ a.bucket → s.Allows idLimit t b →
    (s.act b (s.act a t).2).1 = (s.act b t).1

theorem Represents.apart (h : s.Represents top idLimit A t) (a : StoreAction)
    (ha : s.Allows idLimit t a) : s.Apart t a := by
  have hpos : 0 < idLimit := by decide
  have hlimit : idLimit ≤ UInt64.size := by decide
  obtain ⟨-, h'⟩ := h.act hpos hlimit a ha
  constructor
  · intro bucket key hname hout
    rw [h'.get hlimit hname.name, h.get hlimit hname.name]
    exact VersionedStore.look_act a hout
  · intro b hb hallowed
    have hsame : (A.act s.pageSize a).2 b.bucket = A b.bucket :=
      VersionedStore.act_of_ne a hb.symm
    have hread : s.readIndex (s.act a t).2 b.bucket = s.readIndex t b.bucket := by
      cases hA : A b.bucket with
      | none =>
        rw [h.readIndex_of_absent hallowed.1.name hA,
          h'.readIndex_of_absent hallowed.1.name (hsame.trans hA)]
      | some B => rw [h.readIndex hlimit hA, h'.readIndex hlimit (hsame.trans hA)]
    rw [(h.act hpos hlimit b hallowed).1,
      (h'.act hpos hlimit b (hallowed.of_readIndex hread)).1]
    exact VersionedStore.act_congr b hsame

/-- Whatever is done to a store that starts without buckets, with fewer than a million million
versions to a bucket, it answers as the store that is meant; and every action leaves alone what
it is not about. -/
theorem refines_versionedStore (s : ObjectStore) (top : Location) (t : FileTree)
    (hfresh : s.Fresh top t) (as : List StoreAction) (has : s.AllowsAll idLimit as t) :
    s.replies as t = VersionedStore.replies s.pageSize as .empty ∧
      ∀ before a after, as = before ++ a :: after → s.Apart (s.actAll before t) a := by
  have h := hfresh.represents idLimit
  refine ⟨h.replies (by decide) (by decide) as has, ?_⟩
  rintro before a after rfl
  obtain ⟨hbefore, ha, -⟩ := (allowsAll_append ..).1 has
  exact (h.actAll (by decide) (by decide) before hbefore).apart a ha

namespace Sample

/-- A store two keys to a page, on an empty disk. -/
def store : ObjectStore := ⟨Path.ofString "/cloud", 2⟩

theorem fresh : store.Fresh ["cloud"] .empty where
  tidy := by
    have hno (l : Location) (e : Entry) (he : FileTree.empty.entry? l = some e) : e = .dir := by
      cases l with
      | nil => exact (Option.some.inj he).symm
      | cons name l => cases he
    refine ⟨⟨fun l e he => ?_, rfl⟩, fun l target _ he => ?_, rfl⟩
    · cases l with
      | nil => rfl
      | cons name l => cases he
    · cases hno l _ he
  within := ⟨by decide, by decide⟩
  clear l _ := by
    cases l with
    | nil => exact .inr rfl
    | cons name l => exact .inl rfl
  nothing l hl := by
    cases l with
    | nil => exact absurd hl (by decide)
    | cons name l => rfl

theorem nameable (hlimit : limit ≤ UInt64.size) : store.Nameable limit "b" := by
  have hlast : Usable (blobPath (store.dirPath "b") (versionId (UInt64.size - 1))) :=
    ⟨by decide, by decide, by decide, by decide⟩
  exact (Nameable.of_last (by decide) hlast).mono hlimit

/-- A bucket whose only object is stored twice, the second time to be kept; then the newer
revision is removed again. -/
def actions : List StoreAction :=
  [.createBucket "b", .call (.put "b" "k" "1".toUTF8), .enableVersioning "b",
    .call (.put "b" "k" "2".toUTF8), .call (.deleteVersion "b" "k" (versionId 2)),
    .call (.get "b" "k")]

theorem allowed (hids : idLimit ≤ limit) (hlimit : limit ≤ UInt64.size) :
    store.AllowsAll limit actions .empty := by
  have hpos : 0 < limit := Nat.lt_of_lt_of_le (by decide) hids
  have h₀ := fresh.represents limit
  have hcreate : store.Allows limit .empty (.createBucket "b") := ⟨nameable hlimit, trivial⟩
  obtain ⟨-, h₁⟩ := h₀.act hpos hlimit _ hcreate
  have hput : store.Allows limit _ (.call (.put "b" "k" "1".toUTF8)) :=
    ⟨nameable hlimit, (h₁.canMint_iff (B := .empty) hlimit rfl).2 fun _ => Nat.lt_of_lt_of_le (by decide) hids⟩
  obtain ⟨-, h₂⟩ := h₁.act hpos hlimit _ hput
  have hversioning (t : FileTree) : store.Allows limit t (.enableVersioning "b") :=
    ⟨nameable hlimit, trivial⟩
  obtain ⟨-, h₃⟩ := h₂.act hpos hlimit _ (hversioning _)
  let B : VersionedBucket := { VersionedBucket.empty.put "k" "1".toUTF8 with versioned := true }
  have hput' : store.Allows limit _ (.call (.put "b" "k" "2".toUTF8)) :=
    ⟨nameable hlimit, (h₃.canMint_iff (B := B) hlimit rfl).2 fun _ => Nat.lt_of_lt_of_le (by decide) hids⟩
  obtain ⟨-, h₄⟩ := h₃.act hpos hlimit _ hput'
  have hremove : store.Allows limit _ (.call (.deleteVersion "b" "k" (versionId 2))) :=
    ⟨nameable hlimit, (h₄.lists_iff (B := B.put "k" "2".toUTF8) hlimit rfl).2
      ⟨⟨2, some "2".toUTF8⟩, .tail _ (.head _), rfl⟩⟩
  exact ⟨hcreate, hput, hversioning _, hput', hremove, ⟨nameable hlimit, trivial⟩, trivial⟩

end Sample

/-- An object that was stored again yields its first content once the newer revision is gone. -/
theorem refines_versionedStore_sample :
    Sample.store.Fresh ["cloud"] .empty ∧
      Sample.store.AllowsAll idLimit Sample.actions .empty ∧
      (Sample.store.replies Sample.actions .empty).getLast? =
        some ⟨.call (.get "b" "k"), .ok (some "1".toUTF8)⟩ ∧
      ∀ before a after, Sample.actions = before ++ a :: after →
        Sample.store.Apart (Sample.store.actAll before .empty) a := by
  have hallowed := Sample.allowed (Nat.le_refl idLimit) (by decide)
  obtain ⟨hreplies, hapart⟩ := refines_versionedStore Sample.store ["cloud"] .empty Sample.fresh
    Sample.actions hallowed
  refine ⟨Sample.fresh, hallowed, ?_, hapart⟩
  rw [hreplies]
  rfl

end ObjectStore

end Rollout
