import Rollout.Cloud.Bucket
import Rollout.Proofs.Json.Fields

/-!
Bucket indexes. Numbers give different version ids, so what a counter hands out next is the id
of no version yet. An index is sound if all its ids came from its counter and no two keys share
one; adding versions keeps it sound and changes the current object of one key alone. An index
is read back from its document.
-/

namespace Rollout

open Number

/-! ## Version ids -/

/-- Zeros in front do not change what digits spell. -/
theorem foldl_appendDigit_replicate (k : Nat) (ds : List Nat) :
    (List.replicate k 0 ++ ds).foldl appendDigit 0 = ds.foldl appendDigit 0 := by
  induction k with
  | zero => rfl
  | succ k ih => simpa [List.replicate_succ, appendDigit] using ih

theorem zeroPadded_inj {width m n : Nat} (h : zeroPadded width m = zeroPadded width n) : m = n := by
  have hspell (k : Nat) :
      ((zeroPadded width k).map fun c => c.toNat - 48).foldl appendDigit 0 = k := by
    have hzeros (z : Nat) : (List.replicate z '0').map (fun c => c.toNat - 48) =
        List.replicate z 0 := by simp
    rw [zeroPadded, List.map_append, hzeros, foldl_appendDigit_replicate]
    exact foldl_digitsOf k
  rw [← hspell m, h, hspell n]

theorem versionId_inj {m n : Nat} (h : versionId m = versionId n) : m = n := by
  have hlist := congrArg String.toList h
  simp only [versionId, String.toList_ofList, List.cons.injEq, true_and] at hlist
  exact zeroPadded_inj hlist

theorem isDecimal_of_mem_zeroPadded {width n : Nat} {c : Char} (h : c ∈ zeroPadded width n) :
    IsDecimal c := by
  rcases List.mem_append.1 h with h | h
  · rw [List.eq_of_mem_replicate h]
    exact ⟨by decide, by decide⟩
  · exact isDecimal_of_mem_toDigits h

namespace BucketIndex

/-! ## Versions of keys -/

theorem versions_push (i : BucketIndex) (key key' : String) (v : StoredVersion) :
    (i.push key v).versions key' =
      if key = key' then (if i.versioned then i.versions key else []) ++ [v]
      else i.versions key' := by
  unfold push versions
  rw [TextMap.get?_insert]
  split <;> rfl

theorem current_push_self (i : BucketIndex) (key id : String) :
    (i.push key ⟨id, false⟩).current key = some ⟨id, false⟩ := by
  simp [current, versions_push, currentOf]

theorem current_push_of_ne (i : BucketIndex) {key key' : String} (h : key ≠ key')
    (v : StoredVersion) : (i.push key v).current key' = i.current key' := by
  simp [current, versions_push, h]

theorem mem_versions_of_current {i : BucketIndex} {key : String} {v : StoredVersion}
    (h : i.current key = some v) : v ∈ i.versions key :=
  List.mem_of_getLast? (Option.eq_some_of_filter_eq_some h)

/-- Every id came from the counter, and no two keys share one. -/
structure Sound (i : BucketIndex) : Prop where
  ordered : i.objects.Ordered
  minted : ∀ key, ∀ v ∈ i.versions key, ∃ n ≤ i.nextVersion, v.id = versionId n
  apart : ∀ key key', ∀ v ∈ i.versions key, ∀ v' ∈ i.versions key', v.id = v'.id → key = key'

theorem Sound.empty : Sound empty where
  ordered := TextMap.Ordered.nil
  minted _ _ h := nomatch h
  apart _ _ _ h := nomatch h

theorem Sound.versioning {i : BucketIndex} (h : i.Sound) :
    Sound { i with versioned := true } where
  ordered := h.ordered
  minted := h.minted
  apart := h.apart

/-- The next id is new. -/
theorem Sound.nextId_ne {i : BucketIndex} (h : i.Sound) {key : String} {v : StoredVersion}
    (hv : v ∈ i.versions key) : v.id ≠ i.nextId := by
  obtain ⟨n, hn, hid⟩ := h.minted key v hv
  intro heq
  have := versionId_inj (hid.symm.trans heq)
  omega

theorem mem_versions_push {i : BucketIndex} {key key' : String} {v w : StoredVersion}
    (h : w ∈ (i.push key v).versions key') : w ∈ i.versions key' ∨ (key = key' ∧ w = v) := by
  rw [versions_push] at h
  split at h
  · rename_i hkey
    subst hkey
    rcases List.mem_append.1 h with h | h
    · split at h
      · exact .inl h
      · cases h
    · exact .inr ⟨rfl, List.mem_singleton.1 h⟩
  · exact .inl h

theorem Sound.push {i : BucketIndex} (h : i.Sound) (key : String) (deleteMarker : Bool) :
    Sound (i.push key ⟨i.nextId, deleteMarker⟩) where
  ordered := h.ordered.insert _ _
  minted := by
    intro key' w hw
    rcases mem_versions_push hw with hw | ⟨-, rfl⟩
    · obtain ⟨n, hn, hid⟩ := h.minted key' w hw
      exact ⟨n, Nat.le_succ_of_le hn, hid⟩
    · exact ⟨i.nextVersion + 1, Nat.le_refl _, rfl⟩
  apart := by
    intro k k' w hw w' hw' hid
    rcases mem_versions_push hw with hw | ⟨rfl, rfl⟩ <;>
      rcases mem_versions_push hw' with hw' | ⟨rfl, rfl⟩
    · exact h.apart k k' w hw w' hw' hid
    · exact absurd hid (h.nextId_ne hw)
    · exact absurd hid.symm (h.nextId_ne hw')
    · rfl

end BucketIndex

/-! ## Documents -/

open Json

@[simp] theorem StoredVersion.ofWritten?_toJson (v : StoredVersion) :
    StoredVersion.ofWritten? v.toJson.written = some v := by
  simp [StoredVersion.ofWritten?, StoredVersion.toJson, fields?_written, fieldOf?, required,
    defaulted]

namespace BucketIndex

/-- An index whose counter has 64 bits is read back. -/
theorem parse?_toJson {i : BucketIndex} (ho : i.objects.Ordered)
    (hn : i.nextVersion < UInt64.size) : parse? i.toJson.pretty = some i := by
  have hobjects := map?_written
    (list?_written StoredVersion.ofWritten?_toJson) ho
  rw [parse?, parse?_pretty, Option.bind_some, ofWritten?, toJson, fields?_written]
  simp [fieldOf?, defaulted, natBelow?_written hn, hobjects]

/-- An index is read back as nothing else. -/
theorem eq_of_parse?_toJson {i i' : BucketIndex} (ho : i.objects.Ordered)
    (h : parse? i.toJson.pretty = some i') : i' = i ∧ i.nextVersion < UInt64.size := by
  rw [parse?, parse?_pretty, Option.bind_some, ofWritten?, toJson, fields?_written] at h
  have hbound : i.nextVersion < UInt64.size := by
    cases hn : (Json.nat i.nextVersion).written.natBelow? UInt64.size with
    | none => simp [fieldOf?, defaulted, hn] at h
    | some m => exact (eq_of_natBelow?_written hn).2
  have hback := parse?_toJson ho hbound
  rw [parse?, parse?_pretty, Option.bind_some, ofWritten?, toJson, fields?_written, h] at hback
  exact ⟨Option.some.inj hback, hbound⟩

/-- What was read is in order and has a counter of 64 bits. -/
theorem bounded_of_parse? {text : String} {i : BucketIndex} (h : parse? text = some i) :
    i.objects.Ordered ∧ i.nextVersion < UInt64.size := by
  obtain ⟨w, -, hw⟩ := Option.bind_eq_some_iff.1 h
  unfold ofWritten? at hw
  split at hw
  · rename_i versioned next objects hfields
    simp only [Option.bind_eq_bind, Option.bind_eq_some_iff, Option.pure_def,
      Option.some.injEq] at hw
    obtain ⟨_, -, n, hn, m, hm, rfl⟩ := hw
    constructor
    · cases objects with
      | none => cases hm; exact TextMap.Ordered.nil
      | some objects => exact ordered_of_map? hm
    · cases next with
      | none =>
        cases hn
        exact show 0 < UInt64.size by decide
      | some next => exact lt_of_natBelow? hn
  · cases hw

end BucketIndex

end Rollout
