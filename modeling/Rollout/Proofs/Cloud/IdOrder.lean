import Rollout.Proofs.Cloud.Listings
import Rollout.Proofs.Run.Resumption

/-!
The order of version ids. The counter of a bucket may stand anywhere when its index is read, and it is
shared by all keys and by delete markers. Ids come in the order in which they are given out, and the
listing compares them in that order, as long as the numbers have no more digits than an id is padded
to: below that bound every id is after all before it, and not beyond it.
-/

namespace Rollout

/-- Numbers stand in the order of their ids up to the bound, and no further. -/
theorem precedes_versionId_iff (bound : Nat) :
    (∀ m n, m < n → n ≤ bound → Text.precedes (versionId m) (versionId n) = true) ↔
      bound < idLimit := by
  constructor
  · intro h
    by_contra hle
    have hwide := h (idLimit - 1) idLimit (by decide) (by omega)
    exact absurd hwide (by decide)
  · intro hbound m n hmn hn
    rw [precedes_versionId (by omega) (by omega), decide_eq_true_eq]
    exact hmn

/-- The ids of a bucket come in order: the next one after all that were given out, and those of a key
as its versions came. -/
structure BucketIndex.Rises (i : BucketIndex) : Prop where
  given : ∀ key, ∀ v ∈ i.versions key, ∃ n ≤ i.nextVersion, v.id = versionId n
  rising : ∀ key, (i.versions key).Pairwise fun v v' => Text.precedes v.id v'.id = true
  next : i.nextVersion + 1 < idLimit → ∀ n ≤ i.nextVersion,
    Text.precedes (versionId n) i.nextId = true

theorem VersionedBucket.Sound.rises {B : VersionedBucket} (h : B.Sound) (hminted : B.minted < idLimit) :
    B.index.Rises where
  given key v hv := by
    rw [versions_index] at hv
    obtain ⟨r, hr, rfl⟩ := List.mem_map.1 hv
    exact ⟨r.number, h.numbered key r hr, rfl⟩
  rising key := by
    rw [versions_index, List.pairwise_map]
    refine (h.rising key).imp_of_mem fun {r r'} _ hr' hlt => ?_
    have hle := h.numbered key r' hr'
    exact (precedes_versionId_iff B.minted).2 hminted r.number r'.number hlt hle
  next hroom n hn :=
    (precedes_versionId_iff (B.minted + 1)).2 hroom n (B.minted + 1) (Nat.lt_succ_of_le hn)
      (Nat.le_refl _)

namespace ObjectStore

variable {s : ObjectStore} {top : Location} {A : VersionedStore} {t : FileTree}

/-- Whatever number the counters of a store stand at, and whatever is done to it then: the ids of a
bucket come in the order of the listing, and no listing that goes by them leaves out a version or
repeats one, as long as the bucket has numbered fewer versions than there are ids of the usual length.
There is no greater bound. -/
theorem ids_in_order (h : s.Represents top UInt64.size A t) (hsize : 0 < s.pageSize)
    {as : List StoreAction} (has : s.AllowsAll UInt64.size as t) :
    (∀ bound, (∀ m n, m < n → n ≤ bound → Text.precedes (versionId m) (versionId n) = true) ↔
      bound < idLimit) ∧
    ∀ bucket dir i, s.readIndex (s.actAll as t) bucket = .ok (dir, i) → i.nextVersion < idLimit →
      i.Rises ∧ s.ListsWhole (s.actAll as t) bucket := by
  refine ⟨precedes_versionId_iff, fun bucket dir i hread hminted => ?_⟩
  have h' := h.actAll (by decide) (Nat.le_refl _) as has
  obtain ⟨B, hA⟩ : ∃ B, VersionedStore.actAll s.pageSize as A bucket = some B := by
    have hname : isBucketName bucket = true := by
      by_contra hname
      rw [readIndex, bucketDir, if_neg hname] at hread
      cases hread
    rw [← Option.ne_none_iff_exists']
    intro hnone
    rw [h'.readIndex_of_absent hname hnone] at hread
    cases hread
  rw [h'.readIndex (Nat.le_refl _) hA] at hread
  cases hread
  exact ⟨(h'.held bucket B hA).sound.rises hminted, h'.listsWhole (Nat.le_refl _) hA hminted hsize⟩

end ObjectStore

namespace Destroy.Sample

/-- A bucket whose counter stands just so far that one more id is of the usual length. -/
def ample : VersionedBucket := marked 999999999998 [1] [999999999998]

/-- A bucket that has given out the last id of the usual length. -/
def full : VersionedBucket := marked 999999999999 [1] [999999999999]

/-- A delete marker for the key with the newest version. -/
def marking : List StoreAction := [.call (.delete "b" "b")]

theorem represents_ample :
    site.cloud.objects.Represents top UInt64.size (store ample) (disk ample) :=
  represents_marked (by decide) (by decide) (by decide) (by decide) (by decide)

theorem represents_full :
    site.cloud.objects.Represents top UInt64.size (store full) (disk full) :=
  represents_marked (by decide) (by decide) (by decide) (by decide) (by decide)

theorem allowsAll_marking {B : VersionedBucket} (hroom : B.minted + 1 < UInt64.size)
    (h : site.cloud.objects.Represents top UInt64.size (store B) (disk B)) :
    site.cloud.objects.AllowsAll UInt64.size marking (disk B) :=
  ⟨⟨nameable, (h.canMint_iff (Nat.le_refl _) rfl).2 fun _ => hroom⟩, trivial⟩

/-- The disk after the marker. -/
def marks (B : VersionedBucket) : FileTree := site.cloud.objects.actAll marking (disk B)

theorem readIndex_marks {B : VersionedBucket} (hroom : B.minted + 1 < UInt64.size)
    (h : site.cloud.objects.Represents top UInt64.size (store B) (disk B)) :
    site.cloud.objects.readIndex (marks B) "b" =
      .ok (site.cloud.objects.dirPath "b", (B.delete "b").index) :=
  (h.actAll (by decide) (Nat.le_refl _) marking (allowsAll_marking hroom h)).readIndex
    (Nat.le_refl _) rfl

end Destroy.Sample

open Destroy.Sample

namespace ObjectStore

/-- The last id of the usual length is in order. -/
theorem ids_in_order_sample :
    site.cloud.objects.Represents top UInt64.size (Destroy.Sample.store ample) (disk ample) ∧
      site.cloud.objects.AllowsAll UInt64.size marking (disk ample) ∧
      (ample.delete "b").index.Rises ∧ site.cloud.objects.ListsWhole (marks ample) "b" := by
  have hallowed := allowsAll_marking (by decide) represents_ample
  obtain ⟨-, hrises⟩ := ids_in_order represents_ample (by decide) hallowed
  exact ⟨represents_ample, hallowed,
    hrises "b" _ _ (readIndex_marks (by decide) represents_ample) (by decide)⟩

/-- The id after it is not: it is given out later and stands before, and a listing that goes on from
the id before leaves it out, though the version is there. -/
theorem ids_out_of_order :
    site.cloud.objects.Represents top UInt64.size (Destroy.Sample.store full) (disk full) ∧
      site.cloud.objects.AllowsAll UInt64.size marking (disk full) ∧
      full.index.nextId = "v1000000000000" ∧
      Text.precedes "v999999999999" full.index.nextId = false ∧
      site.cloud.objects.Lists (marks full) "b" "b" "v999999999999" ∧
      site.cloud.objects.Lists (marks full) "b" "b" "v1000000000000" ∧
      Pages (site.cloud.objects.versionsPage (marks full) "b") none
        [[⟨"a", "v000000000001"⟩, ⟨"b", "v999999999999"⟩], []] := by
  have hallowed := allowsAll_marking (by decide) represents_full
  have hread := readIndex_marks (by decide) represents_full
  have h := represents_full.actAll (by decide) (Nat.le_refl _) marking hallowed
  have hfetch := h.versionsPage_eq (Nat.le_refl _)
    (show VersionedStore.actAll 2 marking (Destroy.Sample.store full) "b" = some (full.delete "b")
      from rfl)
  have hfirst : site.cloud.objects.versionsPage (marks full) "b" none =
      .ok ([⟨"a", "v000000000001"⟩, ⟨"b", "v999999999999"⟩], some ⟨"b", some "v999999999999"⟩) :=
    (hfetch none).trans (congrArg Except.ok (by decide))
  have hlast : site.cloud.objects.versionsPage (marks full) "b"
      (some ⟨"b", some "v999999999999"⟩) = .ok ([], none) :=
    (hfetch _).trans (congrArg Except.ok (by decide))
  exact ⟨represents_full, hallowed, by decide, by decide, ⟨_, _, hread, by decide⟩,
    ⟨_, _, hread, by decide⟩, .more hfirst (.last hlast)⟩

end ObjectStore

end Rollout
