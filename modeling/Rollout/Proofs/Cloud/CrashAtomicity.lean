import Rollout.Proofs.Cloud.Refinement

/-!
Operations that are cut off. A write to a key is a list of effects on the disk, each of which
happens or does not; a crash is a prefix of the list. Whatever the prefix, the disk represents
the buckets as they were before the write or as they are after it, and since content without an
index entry is no harm, it goes on representing them whatever is done next: the next write may
well put its own content where a write that was cut off has left some.
-/

namespace Rollout

open FileTree Outcome

/-- A write to one key of a bucket. -/
inductive KeyWrite where
  | put (bucket key : String) (body : ByteArray)
  | delete (bucket key : String)
  | deleteVersion (bucket key id : String)

namespace KeyWrite

/-- The bucket of the write. -/
def bucket : KeyWrite → String
  | put bucket .. => bucket
  | delete bucket _ => bucket
  | deleteVersion bucket .. => bucket

/-- The key of the write. -/
def key : KeyWrite → String
  | put _ key _ => key
  | delete _ key => key
  | deleteVersion _ key _ => key

/-- The write as it is asked for. -/
def action : KeyWrite → StoreAction
  | put bucket key body => .call (.put bucket key body)
  | delete bucket key => .call (.delete bucket key)
  | deleteVersion bucket key id => .call (.deleteVersion bucket key id)

/-- What the write does to the disk. -/
def effects (s : ObjectStore) (t : FileTree) : KeyWrite → Except StoreError (List Effect)
  | put bucket key body => s.putEffects t bucket key body
  | delete bucket key => s.deleteEffects t bucket key
  | deleteVersion bucket key id => s.deleteVersionEffects t bucket key id

/-- The bucket after the write. -/
def apply (B : VersionedBucket) : KeyWrite → VersionedBucket
  | put _ key body => B.put key body
  | delete _ key => B.delete key
  | deleteVersion _ key id => B.deleteRevision key id

/-- What the key yields once the write has happened. -/
def Leaves : KeyWrite → Except StoreError (Option ByteArray) → Prop
  | put _ _ body, answer => answer = .ok (some body)
  | delete _ _, answer => answer = .ok none
  | deleteVersion .., answer => ∃ found, answer = .ok found

theorem bucket_action (w : KeyWrite) : w.action.bucket = w.bucket := by
  cases w <;> rfl

theorem concerns_action (w : KeyWrite) (bucket key : String) :
    w.action.Concerns bucket key ↔ w.bucket = bucket ∧ w.key = key := by
  cases w <;> exact Iff.rfl

theorem act_action (w : KeyWrite) (A : VersionedStore) (size : Nat) :
    (A.act size w.action).2 = (A.change w.bucket fun B => w.apply B).2 := by
  cases w <;> rfl

theorem leaves_apply (w : KeyWrite) (B : VersionedBucket) :
    w.Leaves (.ok ((w.apply B).get w.key)) := by
  cases w with
  | put bucket key body => exact congrArg Except.ok (B.get_put key body)
  | delete bucket key => exact congrArg Except.ok (B.get_delete key)
  | deleteVersion bucket key id => exact ⟨_, rfl⟩

end KeyWrite

namespace ObjectStore

variable {s : ObjectStore} {top : Location} {limit : Nat} {A : VersionedStore} {t t₀ : FileTree}
  {bucket key : String} {B : VersionedBucket}

/-- A write of which only the first `n` effects happen. -/
def cutOff (s : ObjectStore) (w : KeyWrite) (n : Nat) : Disk StoreError Unit :=
  performing fun t => (w.effects s t).map (List.take n)

/-- A disk that operations lead to, whole ones and writes that are cut off. -/
inductive Reached (s : ObjectStore) (limit : Nat) (t₀ : FileTree) : FileTree → Prop where
  | start : Reached s limit t₀ t₀
  | act {t : FileTree} (a : StoreAction) :
    Reached s limit t₀ t → s.Allows limit t a → Reached s limit t₀ (s.act a t).2
  | cutOff {t : FileTree} (w : KeyWrite) (n : Nat) :
    Reached s limit t₀ t → s.Allows limit t w.action → Reached s limit t₀ (s.cutOff w n t).2

theorem Reached.actAll {as : List StoreAction} (h : s.Reached limit t₀ t)
    (has : s.AllowsAll limit as t) : s.Reached limit t₀ (s.actAll as t) := by
  induction as generalizing t with
  | nil => exact h
  | cons a as ih => exact ih (.act a h has.1) has.2

/-! ## One write -/

/-- What a write does to a bucket that is there. -/
theorem Represents.lands (h : s.Represents top limit A t) (hlimit : limit ≤ UInt64.size)
    (w : KeyWrite) (hw : s.Allows limit t w.action) (hA : A w.bucket = some B) :
    ∃ es, w.effects s t = .ok es ∧
      Effect.Lands (s.Between top limit A (Becomes A w.bucket (w.apply B)))
        (s.Represents top limit (Becomes A w.bucket (w.apply B))) es t := by
  obtain ⟨-, hw⟩ := hw
  cases w with
  | put bucket key body => exact h.put hlimit hA ((h.canMint_iff hlimit hA).1 hw rfl) key body
  | delete bucket key => exact h.delete hlimit hA ((h.canMint_iff hlimit hA).1 hw) key
  | deleteVersion bucket key id =>
    obtain ⟨r, hr, hid⟩ := (h.lists_iff hlimit hA).1 hw
    exact h.deleteVersion hlimit hA hr hid

/-- A write to a bucket that is not there does nothing. -/
theorem Represents.effects_of_absent (h : s.Represents top limit A t) (w : KeyWrite)
    (hname : isBucketName w.bucket = true) (hA : A w.bucket = none) :
    w.effects s t = .error (.noSuchBucket w.bucket) := by
  have hread := h.readIndex_of_absent hname hA
  cases w with
  | put bucket key body =>
    rw [KeyWrite.effects, putEffects, show s.readIndex t bucket = _ from hread]
    rfl
  | delete bucket key =>
    rw [KeyWrite.effects, deleteEffects, show s.readIndex t bucket = _ from hread]
    rfl
  | deleteVersion bucket key id =>
    rw [KeyWrite.effects, deleteVersionEffects, show s.readIndex t bucket = _ from hread]
    rfl

/-- A write that is cut off has happened or has not. -/
theorem Represents.cutOff (h : s.Represents top limit A t) (hlimit : limit ≤ UInt64.size)
    (w : KeyWrite) (hw : s.Allows limit t w.action) (n : Nat) :
    s.Between top limit A (A.act s.pageSize w.action).2 (s.cutOff w n t).2 := by
  rw [w.act_action, VersionedStore.change]
  cases hA : A w.bucket with
  | none =>
    have hnone := h.effects_of_absent w (w.bucket_action ▸ hw.1.name) hA
    rw [ObjectStore.cutOff, performing_of_error (e := .noSuchBucket w.bucket) _ (by rw [hnone]; rfl)]
    exact .inl h
  | some B =>
    obtain ⟨es, hes, hlands⟩ := h.lands hlimit w hw hA
    obtain ⟨t', hrun, hbetween⟩ := hlands.cut n
    have hcut : (s.cutOff w n t).2 = t' := by
      simp only [ObjectStore.cutOff, performing, hes, Except.map, Disk.mapError, hrun]
    rw [hcut]
    exact hbetween

/-! ## All that can be reached -/

/-- Operations and crashes lead to disks that represent some buckets. -/
theorem Reached.represents (h : s.Reached limit t₀ t) (hfresh : s.Fresh top t₀) (hpos : 0 < limit)
    (hlimit : limit ≤ UInt64.size) : ∃ A, s.Represents top limit A t := by
  induction h with
  | start => exact ⟨_, hfresh.represents limit⟩
  | act a _ ha ih =>
    obtain ⟨A, hA⟩ := ih
    exact ⟨_, (hA.act hpos hlimit a ha).2⟩
  | cutOff w n _ hw ih =>
    obtain ⟨A, hA⟩ := ih
    rcases hA.cutOff hlimit w hw n with hbefore | hafter
    · exact ⟨_, hbefore⟩
    · exact ⟨_, hafter⟩

theorem Represents.bucketExists (h : s.Represents top limit A t)
    (hname : isBucketName bucket = true) : s.bucketExists t bucket = (A bucket).isSome := by
  rw [ObjectStore.bucketExists, bucketDir_of_name hname]
  cases hA : A bucket with
  | none => exact h.exists?_dir hname hA
  | some B => exact h.exists?_dir_of_held hA

/-- Every key of every bucket that is there can be read. -/
def Intact (s : ObjectStore) (limit : Nat) (t : FileTree) : Prop :=
  ∀ bucket key, s.Nameable limit bucket →
    if s.bucketExists t bucket then ∃ found, s.get t bucket key = .ok found
    else s.get t bucket key = .error (.noSuchBucket bucket)

/-- A write that was cut off has happened or has not: its key yields what it did or what it would
have, all other keys yield what they did, and none fails to be read. -/
structure Atomic (s : ObjectStore) (limit : Nat) (w : KeyWrite) (t t' : FileTree) : Prop where
  buckets (bucket : String) : isBucketName bucket = true →
    s.bucketExists t' bucket = s.bucketExists t bucket
  intact : s.Intact limit t'
  own : s.get t' w.bucket w.key = s.get t w.bucket w.key ∨
    s.get t' w.bucket w.key = s.get (s.act w.action t).2 w.bucket w.key
  /-- What a whole write leaves. -/
  whole : s.bucketExists t w.bucket = true → w.Leaves (s.get (s.act w.action t).2 w.bucket w.key)
  others (bucket key : String) : s.Nameable limit bucket → ¬(w.bucket = bucket ∧ w.key = key) →
    s.get t' bucket key = s.get t bucket key

theorem Represents.intact (h : s.Represents top limit A t) (hlimit : limit ≤ UInt64.size) :
    s.Intact limit t := by
  intro bucket key hname
  rw [h.bucketExists hname.name, h.get hlimit hname.name, VersionedStore.look]
  cases A bucket with
  | none => rfl
  | some B => exact ⟨_, rfl⟩

theorem Represents.atomic (h : s.Represents top limit A t) (hpos : 0 < limit)
    (hlimit : limit ≤ UInt64.size) (w : KeyWrite) (hw : s.Allows limit t w.action) (n : Nat) :
    s.Atomic limit w t (s.cutOff w n t).2 := by
  have hname : isBucketName w.bucket = true := w.bucket_action ▸ hw.1.name
  obtain ⟨-, hwhole⟩ := h.act hpos hlimit w.action hw
  -- the buckets are the same ones before the write and after it
  have hsame (b : String) :
      ((A.act s.pageSize w.action).2 b).isSome = (A b).isSome := by
    rw [w.act_action, VersionedStore.change]
    cases hA : A w.bucket with
    | none => rfl
    | some B =>
      by_cases hb : b = w.bucket
      · simp [hb, hA]
      · simp [hb]
  have hbuckets (b : String) (hb : isBucketName b = true) :
      s.bucketExists (s.cutOff w n t).2 b = s.bucketExists t b := by
    rw [h.bucketExists hb]
    rcases h.cutOff hlimit w hw n with hcut | hcut
    · rw [hcut.bucketExists hb]
    · rw [hcut.bucketExists hb, hsame]
  refine ⟨hbuckets, ?_, ?_, fun hexists => ?_, fun b k hb hout => ?_⟩
  · rcases h.cutOff hlimit w hw n with hcut | hcut
    · exact hcut.intact hlimit
    · exact hcut.intact hlimit
  · rcases h.cutOff hlimit w hw n with hcut | hcut
    · exact .inl (by rw [hcut.get hlimit hname, h.get hlimit hname])
    · exact .inr (by rw [hcut.get hlimit hname, hwhole.get hlimit hname])
  · rw [h.bucketExists hname] at hexists
    obtain ⟨B, hB⟩ := Option.isSome_iff_exists.1 hexists
    rw [hwhole.get hlimit hname, w.act_action, VersionedStore.change, hB]
    simp only [VersionedStore.look, Function.update_self]
    exact w.leaves_apply B
  · have hlook : (A.act s.pageSize w.action).2.look b (·.get k) = A.look b (·.get k) :=
      VersionedStore.look_act w.action fun hc => hout ((w.concerns_action b k).1 hc)
    rcases h.cutOff hlimit w hw n with hcut | hcut
    · rw [hcut.get hlimit hb.name, h.get hlimit hb.name]
    · rw [hcut.get hlimit hb.name, h.get hlimit hb.name, hlook]

/-- Whatever has been done to a store that started without buckets, and wherever it was cut off,
every key can be read; and a write that is cut off anywhere has happened or has not, as long as
the bucket can number its versions. -/
theorem cutOff_atomic (s : ObjectStore) (top : Location) (t₀ t : FileTree)
    (hfresh : s.Fresh top t₀) (ht : s.Reached UInt64.size t₀ t) :
    s.Intact UInt64.size t ∧
      ∀ w n, s.Allows UInt64.size t w.action →
        s.Atomic UInt64.size w t (s.cutOff w n t).2 := by
  obtain ⟨A, hA⟩ := ht.represents hfresh (by decide) (Nat.le_refl _)
  refine ⟨hA.intact (Nat.le_refl _), ?_⟩
  intro w n hw
  exact hA.atomic (by decide) (Nat.le_refl _) w hw n

namespace Sample

/-- A bucket without objects. -/
def created : FileTree := (store.act (.createBucket "b") .empty).2

/-- The disk after a crash between the content of an object and the index. -/
def crashed : FileTree := (store.cutOff (.put "b" "k" "1".toUTF8) 1 created).2

/-- The object once more, under the id that is taken by what the crash has left. -/
def retry : KeyWrite := .put "b" "k" "2".toUTF8

theorem reached_crashed : store.Reached UInt64.size .empty crashed ∧
    store.Allows UInt64.size crashed retry.action := by
  have hname : store.Nameable UInt64.size "b" := nameable (Nat.le_refl _)
  have hcreate : store.Allows UInt64.size .empty (.createBucket "b") := ⟨hname, trivial⟩
  have h₀ := fresh.represents UInt64.size
  obtain ⟨-, h₁⟩ := h₀.act (by decide) (Nat.le_refl _) _ hcreate
  have hput : store.Allows UInt64.size created (KeyWrite.action (.put "b" "k" "1".toUTF8)) :=
    ⟨hname, (h₁.canMint_iff (B := .empty) (Nat.le_refl _) rfl).2 fun _ => by decide⟩
  refine ⟨.cutOff _ 1 (.act _ .start hcreate) hput, hname, ?_⟩
  rcases h₁.cutOff (Nat.le_refl _) _ hput 1 with h₂ | h₂
  · exact (h₂.canMint_iff (B := .empty) (Nat.le_refl _) rfl).2 fun _ => by decide
  · exact (h₂.canMint_iff (B := VersionedBucket.empty.put "k" "1".toUTF8) (Nat.le_refl _) rfl).2
      fun _ => by decide

end Sample

theorem cutOff_atomic_sample :
    Sample.store.Fresh ["cloud"] .empty ∧
      Sample.store.Reached UInt64.size .empty Sample.crashed ∧
      Sample.store.Allows UInt64.size Sample.crashed Sample.retry.action ∧
      Sample.store.Intact UInt64.size Sample.crashed ∧
      Sample.store.Atomic UInt64.size Sample.retry Sample.crashed
        (Sample.store.cutOff Sample.retry 1 Sample.crashed).2 := by
  obtain ⟨hreached, hallowed⟩ := Sample.reached_crashed
  obtain ⟨hintact, hatomic⟩ :=
    cutOff_atomic Sample.store ["cloud"] .empty Sample.crashed Sample.fresh hreached
  exact ⟨Sample.fresh, hreached, hallowed, hintact, hatomic Sample.retry 1 hallowed⟩

end ObjectStore

end Rollout
