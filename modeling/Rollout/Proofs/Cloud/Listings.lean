import Rollout.Proofs.Cloud.CrashAtomicity
import Rollout.Proofs.Cloud.Emptying
import Rollout.Proofs.Paging

/-!
Listings in pages. The objects and the versions of a bucket are listed from a position on, and the
position is a key, or a key and an id, not a place in the list. As keys come in order and the ids of
a key in the order of their numbers, the positions of a listing are in order, and the pages are the
whole listing: nothing is lost at the end of a page and nothing comes twice.
-/

namespace Rollout

open Outcome

namespace Text

/-- What comes before something does not come after it. -/
theorem precedes_asymm {a b : String} (h : precedes a b = true) : precedes b a = false := by
  by_contra hback
  rw [Bool.not_eq_false] at hback
  have := precedes_trans h hback
  rw [precedes_irrefl] at this
  cases this

end Text

/-- The position of a version in a listing. -/
def ObjectVersion.position (v : ObjectVersion) : VersionCursor := ⟨v.key, some v.id⟩

/-- The order of versions in a listing: by their keys, and for one key by the numbers that they were
given as they came. -/
def ObjectVersion.Before (v v' : ObjectVersion) : Prop :=
  Text.precedes v.key v'.key = true ∨
    v.key = v'.key ∧ ∃ m n, m < n ∧ v.id = versionId m ∧ v'.id = versionId n

theorem VersionedStore.isAfter_position {v v' : ObjectVersion} :
    VersionedStore.isAfter v.position v' = true ↔
      Text.precedes v.key v'.key = true ∨ v.key = v'.key ∧ Text.precedes v.id v'.id = true := by
  show (Text.precedes v.key v'.key || (v.key = v'.key && Text.precedes v.id v'.id)) = true ↔ _
  rw [Bool.or_eq_true, Bool.and_eq_true, decide_eq_true_eq]

theorem VersionedStore.isAfter_asymm {v v' : ObjectVersion}
    (h : VersionedStore.isAfter v.position v' = true) :
    VersionedStore.isAfter v'.position v = false := by
  rw [← Bool.not_eq_true, isAfter_position]
  rcases isAfter_position.1 h with hkey | ⟨hkey, hid⟩
  · rw [Text.precedes_asymm hkey]
    rintro (hback | ⟨heq, -⟩)
    · cases hback
    · rw [heq, Text.precedes_irrefl] at hkey
      cases hkey
  · rw [hkey, Text.precedes_irrefl, Text.precedes_asymm hid]
    simp

namespace VersionedBucket

variable {B : VersionedBucket} {key : String}

/-- The keys of the objects are those that yield something. -/
theorem mem_currentKeys (h : B.Sound) : key ∈ B.currentKeys ↔ (B.get key).isSome = true := by
  rw [currentKeys, get, revisions, List.mem_map]
  constructor
  · rintro ⟨e, he, rfl⟩
    obtain ⟨hmem, hsome⟩ := List.mem_filter.1 he
    rwa [TextMap.get?_of_mem h.ordered hmem]
  · intro hsome
    cases hkey : TextMap.get? key B.keys with
    | none =>
      rw [hkey] at hsome
      cases hsome
    | some rs =>
      rw [hkey] at hsome
      exact ⟨(key, rs), List.mem_filter.2 ⟨TextMap.mem_of_get? hkey, hsome⟩, rfl⟩

/-- The versions come in their order. -/
theorem before_listing (h : B.Sound) : B.listing.Pairwise ObjectVersion.Before := by
  rw [listing, List.pairwise_flatMap]
  constructor
  · intro e he
    have hrevisions : B.revisions e.1 = e.2 := by
      rw [revisions, TextMap.get?_of_mem h.ordered he]
      rfl
    rw [List.pairwise_map, ← hrevisions]
    exact (h.rising e.1).imp fun {r r'} hlt => .inr ⟨rfl, r.number, r'.number, hlt, rfl, rfl⟩
  · refine h.ordered.imp fun {e e'} hlt v hv v' hv' => ?_
    obtain ⟨r, -, rfl⟩ := List.mem_map.1 hv
    obtain ⟨r', -, rfl⟩ := List.mem_map.1 hv'
    exact .inl hlt

end VersionedBucket

namespace ObjectStore

variable {s : ObjectStore} {top : Location} {limit : Nat} {A : VersionedStore} {t t₀ : FileTree}
  {bucket : String} {B : VersionedBucket}

/-- Listing the objects of a bucket: some keys, and the token for those that are left. -/
def objectPage (s : ObjectStore) (t : FileTree) (bucket : String) (token : Option String) :
    Except StoreError (List String × Option String) :=
  (s.listObjects t bucket token).map fun page => (page.keys, page.next)

/-- Listing the versions of a bucket: some of them, and the position from which on some are left. -/
def versionsPage (s : ObjectStore) (t : FileTree) (bucket : String)
    (cursor : Option VersionCursor) :
    Except StoreError (List ObjectVersion × Option VersionCursor) :=
  (s.listVersions t bucket cursor).map fun page => (page.versions, page.next)

/-- The listings of a bucket are complete: their pages, one after the other, are all objects in the
order of their keys, and all versions, delete markers included, in their order. -/
structure ListsWhole (s : ObjectStore) (t : FileTree) (bucket : String) : Prop where
  objects : ∃ keys pages, Pages (s.objectPage t bucket) none pages ∧ InPages s.pageSize keys pages ∧
    (keys.Pairwise fun k k' => Text.precedes k k' = true) ∧
    ∀ key, key ∈ keys ↔ ∃ body, s.get t bucket key = .ok (some body)
  versions : ∃ versions pages, Pages (s.versionsPage t bucket) none pages ∧
    InPages s.pageSize versions pages ∧ versions.Pairwise ObjectVersion.Before ∧
    ∀ v, v ∈ versions ↔ s.Lists t bucket v.key v.id

theorem Represents.versionsPage_eq (h : s.Represents top limit A t) (hlimit : limit ≤ UInt64.size)
    (hA : A bucket = some B) (cursor : Option VersionCursor) :
    s.versionsPage t bucket cursor =
      .ok (pageAfter s.pageSize ObjectVersion.position VersionedStore.isAfter B.listing cursor) := by
  rw [versionsPage, h.listVersions hlimit (h.held bucket B hA).nameable.name,
    VersionedStore.look_of_some hA]
  rfl

theorem Represents.objectPage_eq (h : s.Represents top limit A t) (hlimit : limit ≤ UInt64.size)
    (hA : A bucket = some B) (token : Option String) :
    s.objectPage t bucket token =
      .ok (pageAfter s.pageSize (fun key => key) Text.precedes B.currentKeys token) := by
  rw [objectPage, h.listObjects hlimit (h.held bucket B hA).nameable.name,
    VersionedStore.look_of_some hA]
  simp [VersionedStore.keyPage, pageAfter, Except.map]

theorem Represents.listsWhole (h : s.Represents top limit A t) (hlimit : limit ≤ UInt64.size)
    (hA : A bucket = some B) (hminted : B.minted < idLimit) (hsize : 0 < s.pageSize) :
    s.ListsWhole t bucket := by
  have hB := h.held bucket B hA
  constructor
  · have hordered := VersionedBucket.pairwise_currentKeys hB.sound
    obtain ⟨pages, hpages, hin⟩ := exists_pages_of_after hsize (h.objectPage_eq hlimit hA)
      (fun _ _ => Text.precedes_asymm) hordered
    refine ⟨_, pages, hpages, hin, hordered, fun key => ?_⟩
    rw [VersionedBucket.mem_currentKeys hB.sound, h.get hlimit hB.nameable.name,
      VersionedStore.look_of_some hA, Option.isSome_iff_exists]
    simp only [Except.ok.injEq]
  · obtain ⟨pages, hpages, hin⟩ := exists_pages_of_after hsize (h.versionsPage_eq hlimit hA)
      (fun _ _ => VersionedStore.isAfter_asymm)
      (VersionedBucket.pairwise_listing hB.sound hminted)
    refine ⟨_, pages, hpages, hin, VersionedBucket.before_listing hB.sound, fun v => ?_⟩
    rw [h.lists_iff hlimit hA]
    exact VersionedBucket.mem_listing hB.sound

/-- Whatever has been done to a store that started without buckets, wherever it was cut off, and
however long a page is: the listings of every bucket that is there are complete, as long as the
bucket has numbered fewer versions than there are ids of the usual length. -/
theorem listings_complete (s : ObjectStore) (top : Location) (limit : Nat) (t₀ t : FileTree)
    (hpos : 0 < limit) (hlimit : limit ≤ UInt64.size) (hfresh : s.Fresh top t₀)
    (ht : s.Reached limit t₀ t) (hsize : 0 < s.pageSize) (bucket : String)
    (hexists : s.bucketExists t bucket = true)
    (hminted : ∀ dir i, s.readIndex t bucket = .ok (dir, i) → i.nextVersion < idLimit) :
    s.ListsWhole t bucket := by
  obtain ⟨A, h⟩ := ht.represents hfresh hpos hlimit
  have hname : isBucketName bucket = true := by
    by_contra hname
    rw [bucketExists, bucketDir, if_neg hname] at hexists
    cases hexists
  rw [h.bucketExists hname] at hexists
  obtain ⟨B, hA⟩ := Option.isSome_iff_exists.1 hexists
  exact h.listsWhole hlimit hA (hminted _ _ (h.readIndex hlimit hA)) hsize

namespace Sample

/-- Another object, and a delete marker for the one that is there. -/
def further : List StoreAction := [.call (.put "b" "a" "3".toUTF8), .call (.delete "b" "k")]

/-- The disk after a few changes. -/
def disk : FileTree := store.actAll further (store.actAll actions .empty)

/-- The bucket with what the first changes leave: one revision of two. -/
def early : VersionedBucket := ⟨true, 2, [("k", [⟨1, some "1".toUTF8⟩])]⟩

/-- The bucket after all of them. -/
def late : VersionedBucket :=
  ⟨true, 4, [("a", [⟨3, some "3".toUTF8⟩]), ("k", [⟨1, some "1".toUTF8⟩, ⟨4, none⟩])]⟩

/-- The buckets after the first changes, and after all of them. -/
theorem bucket_spec :
    VersionedStore.actAll 2 actions .empty "b" = some early ∧
      VersionedStore.actAll 2 further (VersionedStore.actAll 2 actions .empty) "b" = some late :=
  ⟨rfl, rfl⟩

theorem allowed_further : store.AllowsAll idLimit further (store.actAll actions .empty) := by
  have hpos : 0 < idLimit := by decide
  have hlimit : idLimit ≤ UInt64.size := by decide
  have h := (fresh.represents idLimit).actAll hpos hlimit actions (allowed (Nat.le_refl _) hlimit)
  have hput : store.Allows idLimit (store.actAll actions .empty)
      (.call (.put "b" "a" "3".toUTF8)) :=
    ⟨nameable hlimit, (h.canMint_iff hlimit bucket_spec.1).2 fun _ => by decide⟩
  obtain ⟨-, h'⟩ := h.act hpos hlimit _ hput
  have hdelete : store.Allows idLimit _ (.call (.delete "b" "k")) :=
    ⟨nameable hlimit, (h'.canMint_iff (B := early.put "a" "3".toUTF8) hlimit rfl).2
      fun _ => by decide⟩
  exact ⟨hput, hdelete, trivial⟩

theorem represents_disk :
    ∃ A, store.Represents ["cloud"] idLimit A disk ∧ A "b" = some late := by
  have hpos : 0 < idLimit := by decide
  have hlimit : idLimit ≤ UInt64.size := by decide
  have h := (fresh.represents idLimit).actAll hpos hlimit actions (allowed (Nat.le_refl _) hlimit)
  exact ⟨_, h.actAll hpos hlimit further allowed_further, bucket_spec.2⟩

theorem reached_disk : store.Reached idLimit .empty disk :=
  (Reached.actAll .start (allowed (Nat.le_refl _) (by decide))).actAll allowed_further

end Sample

/-- The listings of a bucket that has been through a few changes: only the newer object is there,
and the versions take two pages, the delete marker coming last. -/
theorem listings_complete_sample :
    0 < idLimit ∧ idLimit ≤ UInt64.size ∧ Sample.store.Fresh ["cloud"] .empty ∧
      Sample.store.Reached idLimit .empty Sample.disk ∧ 0 < Sample.store.pageSize ∧
      Sample.store.bucketExists Sample.disk "b" = true ∧
      (∀ dir i, Sample.store.readIndex Sample.disk "b" = .ok (dir, i) → i.nextVersion < idLimit) ∧
      Sample.store.ListsWhole Sample.disk "b" ∧
      Pages (Sample.store.objectPage Sample.disk "b") none [["a"]] ∧
      Pages (Sample.store.versionsPage Sample.disk "b") none
        [[⟨"a", "v000000000003"⟩, ⟨"k", "v000000000001"⟩], [⟨"k", "v000000000004"⟩]] := by
  have hpos : 0 < idLimit := by decide
  have hlimit : idLimit ≤ UInt64.size := by decide
  obtain ⟨A, h, hA⟩ := Sample.represents_disk
  have hexists : Sample.store.bucketExists Sample.disk "b" = true := by
    rw [h.bucketExists (by decide), hA]
    rfl
  have hminted (dir : Path) (i : BucketIndex)
      (hread : Sample.store.readIndex Sample.disk "b" = .ok (dir, i)) :
      i.nextVersion < idLimit := by
    rw [h.readIndex hlimit hA] at hread
    cases hread
    decide
  have hobjects : Sample.store.objectPage Sample.disk "b" none = .ok (["a"], none) :=
    (h.objectPage_eq hlimit hA none).trans (congrArg Except.ok (by decide))
  have hfetch := h.versionsPage_eq hlimit hA
  have hfirst : Sample.store.versionsPage Sample.disk "b" none =
      .ok ([⟨"a", "v000000000003"⟩, ⟨"k", "v000000000001"⟩],
        some ⟨"k", some "v000000000001"⟩) :=
    (hfetch none).trans (congrArg Except.ok (by decide))
  have hlast : Sample.store.versionsPage Sample.disk "b" (some ⟨"k", some "v000000000001"⟩) =
      .ok ([⟨"k", "v000000000004"⟩], none) :=
    (hfetch _).trans (congrArg Except.ok (by decide))
  exact ⟨hpos, hlimit, Sample.fresh, Sample.reached_disk, by decide, hexists, hminted,
    listings_complete Sample.store ["cloud"] idLimit .empty _ hpos hlimit Sample.fresh
      Sample.reached_disk (by decide) "b" hexists hminted, .last hobjects, .more hfirst (.last hlast)⟩

end ObjectStore

end Rollout
