import Rollout.Proofs.Cloud.VersionId
import Rollout.Proofs.Cloud.VersionedStore

/-!
Listings of a bucket that is being emptied. Deleting the object of a key takes the key off the
list of objects and nothing else; where revisions are kept, it adds a marker to the list of
versions. Deleting the first version takes it off the list of versions and nothing else. What is
left of either list always comes after what was on it before, so a position in the list stays
good while the list is deleted from its start.
-/

namespace Rollout.VersionedBucket

variable {B : VersionedBucket} {key : String}

/-! ## Objects -/

/-- The bucket after objects were deleted one after the other. -/
def deleteAll (B : VersionedBucket) (keys : List String) : VersionedBucket :=
  keys.foldl delete B

theorem deleteAll_append (B : VersionedBucket) (keys keys' : List String) :
    B.deleteAll (keys ++ keys') = (B.deleteAll keys).deleteAll keys' :=
  List.foldl_append

theorem versioned_delete (B : VersionedBucket) (key : String) :
    (B.delete key).versioned = B.versioned := by
  unfold delete
  split <;> rfl

theorem minted_delete (B : VersionedBucket) (key : String) :
    (B.delete key).minted = if B.versioned then B.minted + 1 else B.minted := by
  unfold delete
  split <;> rfl

/-- The objects are listed in the order of their keys. -/
theorem pairwise_currentKeys (h : B.Sound) :
    B.currentKeys.Pairwise fun k k' => Text.precedes k k' = true := by
  rw [currentKeys, List.pairwise_map]
  exact h.ordered.filter _

theorem currentKeys_delete (h : B.Sound) (key : String) :
    (B.delete key).currentKeys = B.currentKeys.filter fun k => k ≠ key := by
  have hdrop : (B.dropKey key).currentKeys = B.currentKeys.filter fun k => k ≠ key := by
    simp only [currentKeys, dropKey, TextMap.erase, List.filter_map, List.filter_filter]
    refine congrArg _ (List.filter_congr fun e _ => ?_)
    simp [Bool.and_comm]
  unfold delete
  split
  · rename_i hversioned
    rw [← hdrop]
    -- a key whose newest revision is a marker is listed no more than one that is gone
    let f := fun e : String × List Revision => (newest e.2).isSome
    have hperm := (TextMap.insert_perm h.ordered key
      (B.revisions key ++ [⟨B.minted + 1, none⟩])).filter f
    rw [List.filter_cons_of_neg (by simp [f, newest])] at hperm
    have heq := TextMap.Ordered.eq_of_perm ((h.ordered.insert _ _).filter f)
      ((h.ordered.erase _).filter f) hperm
    simp only [push, hversioned, if_true]
    exact congrArg (List.map Prod.fst) heq
  · exact hdrop

/-- Deleting the first objects of the list leaves the others. -/
theorem currentKeys_deleteAll (h : B.Sound) {keys rest : List String}
    (hkeys : B.currentKeys = keys ++ rest) :
    (B.deleteAll keys).Sound ∧ (B.deleteAll keys).currentKeys = rest := by
  induction keys generalizing B with
  | nil => exact ⟨h, hkeys⟩
  | cons key keys ih =>
    refine ih (h.delete key) ?_
    have hpairwise := pairwise_currentKeys h
    rw [hkeys, List.cons_append, List.pairwise_cons] at hpairwise
    rw [currentKeys_delete h, hkeys, List.cons_append, List.filter_cons_of_neg (by simp)]
    refine List.filter_eq_self.2 fun k hk => ?_
    have hlt := hpairwise.1 k hk
    simp only [ne_eq, decide_eq_true_eq]
    intro heq
    rw [heq, Text.precedes_irrefl] at hlt
    cases hlt

theorem versioned_deleteAll (B : VersionedBucket) (keys : List String) :
    (B.deleteAll keys).versioned = B.versioned := by
  induction keys generalizing B with
  | nil => rfl
  | cons key keys ih => exact (ih (B.delete key)).trans (B.versioned_delete key)

theorem minted_deleteAll (B : VersionedBucket) (keys : List String) :
    (B.deleteAll keys).minted = if B.versioned then B.minted + keys.length else B.minted := by
  induction keys generalizing B with
  | nil => simp [deleteAll]
  | cons key keys ih =>
    rw [deleteAll, List.foldl_cons, ← deleteAll, ih, versioned_delete, minted_delete]
    split
    · rw [List.length_cons]
      omega
    · rfl

/-- Where revisions are not kept, every key is listed. -/
theorem keys_eq_nil (h : B.Sound) (hversioned : B.versioned = false) (hnone : B.currentKeys = []) :
    B.keys = [] := by
  rw [List.eq_nil_iff_forall_not_mem]
  intro e he
  have hrevisions : B.revisions e.1 = e.2 := by
    rw [revisions, TextMap.get?_of_mem h.ordered he]
    rfl
  obtain ⟨r, hr⟩ := List.exists_mem_of_ne_nil _ (h.kept e he)
  obtain ⟨hsingle, hbody⟩ := h.single hversioned e.1 r (hrevisions ▸ hr)
  have hlisted : e.1 ∈ B.currentKeys := by
    refine List.mem_map_of_mem (List.mem_filter.2 ⟨he, ?_⟩)
    rw [← hrevisions, hsingle]
    exact hbody
  rw [hnone] at hlisted
  cases hlisted

/-! ## Versions -/

/-- The bucket after revisions were deleted one after the other. -/
def removeAll (B : VersionedBucket) (vs : List ObjectVersion) : VersionedBucket :=
  vs.foldl (fun B v => B.deleteRevision v.key v.id) B

theorem removeAll_append (B : VersionedBucket) (vs vs' : List ObjectVersion) :
    B.removeAll (vs ++ vs') = (B.removeAll vs).removeAll vs' :=
  List.foldl_append

/-- A marker is one more version. -/
theorem length_listing_delete (h : B.Sound) (hversioned : B.versioned = true) (key : String) :
    (B.delete key).listing.length = B.listing.length + 1 := by
  let f := fun e : String × List Revision => e.2.map fun r => ObjectVersion.mk e.1 (versionId r.number)
  have hself (rs : List Revision) : (f (key, rs)).length = rs.length := by simp [f]
  have hafter : (B.delete key).listing.length =
      (B.revisions key).length + 1 + ((TextMap.erase key B.keys).flatMap f).length := by
    have hperm := TextMap.insert_perm h.ordered key (B.revisions key ++ [⟨B.minted + 1, none⟩])
    have hlength := (hperm.flatMap_right f).length_eq
    rw [List.flatMap_cons, List.length_append, hself, List.length_append] at hlength
    simp only [delete, push, hversioned, if_true]
    exact hlength
  have hbefore : B.listing.length =
      (B.revisions key).length + ((TextMap.erase key B.keys).flatMap f).length := by
    rw [revisions]
    cases hkey : TextMap.get? key B.keys with
    | none =>
      rw [TextMap.erase_of_get?_eq_none hkey]
      exact (Nat.zero_add _).symm
    | some rs =>
      have hlength := ((TextMap.perm_of_get? h.ordered hkey).flatMap_right f).length_eq
      rw [List.flatMap_cons, List.length_append, hself] at hlength
      exact hlength
  omega

/-- Where revisions are not kept, deleting an object adds nothing. -/
theorem length_listing_dropKey (B : VersionedBucket) (key : String) :
    (B.dropKey key).listing.length ≤ B.listing.length :=
  (List.Sublist.flatMap List.filter_sublist _).length_le

theorem length_listing_deleteAll (h : B.Sound) (hversioned : B.versioned = true)
    (keys : List String) :
    (B.deleteAll keys).listing.length = B.listing.length + keys.length := by
  induction keys generalizing B with
  | nil => rfl
  | cons key keys ih =>
    rw [deleteAll, List.foldl_cons, ← deleteAll,
      ih (h.delete key) ((B.versioned_delete key).trans hversioned),
      length_listing_delete h hversioned, List.length_cons]
    omega

/-- Without its objects, a bucket has the versions it had and the markers, or none. -/
theorem length_listing_deleteAll_currentKeys (h : B.Sound) :
    (B.deleteAll B.currentKeys).listing.length =
      if B.versioned then B.listing.length + B.currentKeys.length else 0 := by
  split
  · rename_i hversioned
    exact length_listing_deleteAll h hversioned _
  · rename_i hversioned
    obtain ⟨hsound, hkeys⟩ := currentKeys_deleteAll h (List.append_nil _).symm
    have hnone := keys_eq_nil hsound
      ((B.versioned_deleteAll _).trans (Bool.eq_false_of_not_eq_true hversioned)) hkeys
    rw [listing, hnone]
    rfl

/-- Deleting the oldest revision of the first key leaves its other revisions, if it has any. -/
theorem deleteRevision_head {versioned : Bool} {minted : Nat} {k : String} {r : Revision}
    {rs : List Revision} {tail : TextMap (List Revision)}
    (h : Sound ⟨versioned, minted, (k, r :: rs) :: tail⟩) :
    deleteRevision ⟨versioned, minted, (k, r :: rs) :: tail⟩ k (versionId r.number) =
      ⟨versioned, minted, if rs = [] then tail else (k, rs) :: tail⟩ := by
  have hrevisions : revisions ⟨versioned, minted, (k, r :: rs) :: tail⟩ k = r :: rs := by
    simp [revisions, TextMap.get?_cons]
  -- the other revisions of the key have greater numbers
  have hothers : (r :: rs).filter (fun r' => versionId r'.number ≠ versionId r.number) = rs := by
    have hrising := h.rising k
    rw [hrevisions, List.pairwise_cons] at hrising
    rw [List.filter_cons_of_neg (by simp)]
    refine List.filter_eq_self.2 fun r' hr' => ?_
    have := hrising.1 r' hr'
    simp only [ne_eq, decide_eq_true_eq]
    intro heq
    rw [versionId_inj heq] at this
    omega
  have hordered : TextMap.Ordered ((k, r :: rs) :: tail) := h.ordered
  simp only [deleteRevision, hrevisions, hothers]
  cases rs with
  | nil => simp only [dropKey, hordered.erase_head, if_true]
  | cons r' rs => simp [TextMap.insert]

/-- The first version of the list is the oldest revision of the first key. -/
theorem head_of_listing (h : B.Sound) {v : ObjectVersion} {rest : List ObjectVersion}
    (hv : B.listing = v :: rest) : ∃ r rs tail, B.keys = (v.key, r :: rs) :: tail ∧
      versionId r.number = v.id := by
  obtain ⟨versioned, minted, keys⟩ := B
  cases keys with
  | nil => cases hv
  | cons e tail =>
    obtain ⟨k, rs⟩ := e
    cases rs with
    | nil => exact absurd rfl (h.kept (k, []) List.mem_cons_self)
    | cons r rs =>
      obtain ⟨rfl, -⟩ := List.cons.inj hv
      exact ⟨r, rs, tail, rfl, rfl⟩

/-- Deleting the first version of the list leaves the others. -/
theorem listing_deleteRevision (h : B.Sound) {v : ObjectVersion} {rest : List ObjectVersion}
    (hv : B.listing = v :: rest) : (B.deleteRevision v.key v.id).listing = rest := by
  obtain ⟨r, rs, tail, hkeys, hid⟩ := head_of_listing h hv
  obtain ⟨versioned, minted, keys⟩ := B
  obtain rfl : keys = (v.key, r :: rs) :: tail := hkeys
  rw [← hid, deleteRevision_head h]
  obtain ⟨-, rfl⟩ := List.cons.inj hv
  cases rs with
  | nil => rfl
  | cons r' rs => rfl

/-- Deleting the first version of the list brings no object back: an object is the newest revision
of its key, and the first version is the oldest. -/
theorem length_currentKeys_deleteRevision (h : B.Sound) {v : ObjectVersion}
    {rest : List ObjectVersion} (hv : B.listing = v :: rest) :
    (B.deleteRevision v.key v.id).currentKeys.length ≤ B.currentKeys.length := by
  obtain ⟨r, rs, tail, hkeys, hid⟩ := head_of_listing h hv
  obtain ⟨versioned, minted, keys⟩ := B
  obtain rfl : keys = (v.key, r :: rs) :: tail := hkeys
  rw [← hid, deleteRevision_head h]
  simp only [currentKeys, List.length_map]
  cases rs with
  | nil => exact ((List.sublist_cons_self _ _).filter _).length_le
  | cons r' rs =>
    have hnewest : newest (r :: r' :: rs) = newest (r' :: rs) := by
      rw [newest, newest, List.getLast?_cons_cons]
    simp only [List.cons_ne_nil, if_false, List.filter_cons, hnewest]
    exact Nat.le_of_eq (by split <;> rfl)

theorem minted_deleteRevision (B : VersionedBucket) (key id : String) :
    (B.deleteRevision key id).minted = B.minted := by
  unfold deleteRevision
  split <;> rfl

theorem listing_removeAll (h : B.Sound) {vs rest : List ObjectVersion}
    (hvs : B.listing = vs ++ rest) :
    (B.removeAll vs).Sound ∧ (B.removeAll vs).listing = rest := by
  induction vs generalizing B with
  | nil => exact ⟨h, hvs⟩
  | cons v vs ih => exact ih (h.deleteRevision v.key v.id) (listing_deleteRevision h hvs)

theorem minted_removeAll (B : VersionedBucket) (vs : List ObjectVersion) :
    (B.removeAll vs).minted = B.minted := by
  induction vs generalizing B with
  | nil => rfl
  | cons v vs ih => exact (ih (B.deleteRevision v.key v.id)).trans (B.minted_deleteRevision _ _)

theorem keys_eq_nil_of_listing (h : B.Sound) (hnone : B.listing = []) : B.keys = [] := by
  rw [List.eq_nil_iff_forall_not_mem]
  intro e he
  have hnil := List.flatMap_eq_nil_iff.1 hnone e he
  exact h.kept e he (List.map_eq_nil_iff.1 hnil)

/-- The versions are listed in the order of their positions. -/
theorem pairwise_listing (h : B.Sound) (hroom : B.minted < idLimit) :
    B.listing.Pairwise fun v v' => VersionedStore.isAfter ⟨v.key, some v.id⟩ v' = true := by
  rw [listing, List.pairwise_flatMap]
  constructor
  · intro e he
    have hrevisions : B.revisions e.1 = e.2 := by
      rw [revisions, TextMap.get?_of_mem h.ordered he]
      rfl
    rw [List.pairwise_map, ← hrevisions]
    -- of one key, in the order of the numbers
    refine (h.rising e.1).imp_of_mem fun {r r'} hr hr' hlt => ?_
    have hr := h.numbered e.1 r hr
    have hr' := h.numbered e.1 r' hr'
    have hid : Text.precedes (versionId r.number) (versionId r'.number) = true := by
      rw [precedes_versionId (by omega) (by omega), decide_eq_true_eq]
      exact hlt
    simp [VersionedStore.isAfter, hid]
  · -- of different keys, in the order of the keys
    refine h.ordered.imp fun {e e'} hlt v hv v' hv' => ?_
    obtain ⟨r, -, rfl⟩ := List.mem_map.1 hv
    obtain ⟨r', -, rfl⟩ := List.mem_map.1 hv'
    simp [VersionedStore.isAfter, hlt]

end Rollout.VersionedBucket
