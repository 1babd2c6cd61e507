import Rollout.Proofs.Run.HalfEmptied

/-!
Programs that take a bucket down, on the store that is meant. What they come to there, and what they
come by on the way, they do on every disk that represents it, whatever is beside the bucket; so what
becomes of a bucket can be worked out without its documents.
-/

namespace Rollout.Artifacts

open FileTree Outcome

variable {site : Site} {top : Location} {limit : Nat} {bucket : String} {t₀ t : FileTree}
  {A A' : VersionedStore} {α : Type}

/-- Whether a call looks at a bucket or takes something from it that can be taken. -/
def takes (limit : Nat) (bucket : String) (A : VersionedStore) : StoreCall → Bool
  | .listObjects b _ => b = bucket
  | .listVersions b _ => b = bucket
  | .deleteBucket b => b = bucket
  | .delete b _ => b = bucket &&
    match A b with
    | some B => !B.versioned || decide (B.minted + 1 < limit)
    | none => false
  | .deleteVersion b key id => b = bucket &&
    match A b with
    | some B => (B.revisions key).any fun r => versionId r.number = id
    | none => false
  | _ => false

/-- What a program that takes a bucket down comes to on the store that is meant. -/
def meant (size limit : Nat) (bucket : String) :
    Program α → VersionedStore → Option (α × VersionedStore)
  | .done a, A => some (a, A)
  | .ask (.store c) next, A =>
    if takes limit bucket A c then
      meant size limit bucket (next (A.answer size c).1) (A.answer size c).2
    else none
  | _, _ => none

/-- The store that is meant before the `n`-th request of such a program. -/
def meantAt (size limit : Nat) (bucket : String) :
    Nat → Program α → VersionedStore → Option VersionedStore
  | 0, .ask _ _, A => some A
  | n + 1, .ask (.store c) next, A =>
    if takes limit bucket A c then
      meantAt size limit bucket n (next (A.answer size c).1) (A.answer size c).2
    else none
  | _, _, _ => none

/-- A disk that has come from `t₀` by taking from a bucket. -/
structure TakenFrom (s : ObjectStore) (top : Location) (limit : Nat) (bucket : String)
    (t₀ : FileTree) (A : VersionedStore) (t : FileTree) : Prop where
  represents : s.Represents top limit A t
  beside : SameBeside (s.bucketPlace t₀.workDir bucket) t₀ t
  gone : A bucket = none → t = t₀.dropAll (s.bucketPlace t₀.workDir bucket)

namespace TakenFrom

variable {s : ObjectStore} {B : VersionedBucket}

theorem start (h : s.Represents top limit A t) (hA : A bucket = some B) :
    TakenFrom s top limit bucket t A t :=
  ⟨h, .refl .., fun hnone => by rw [hA] at hnone; cases hnone⟩

/-- What was changed in the bucket. -/
theorem change (h : TakenFrom s top limit bucket t₀ A t) {f : VersionedBucket → VersionedBucket}
    {t' : FileTree} (hA : A bucket = some B)
    (h' : s.Represents top limit (A.change bucket f).2 t')
    (hbeside : SameBeside (s.bucketPlace t.workDir bucket) t t') :
    TakenFrom s top limit bucket t₀ (A.change bucket f).2 t' := by
  refine ⟨h', h.beside.trans (h.beside.work ▸ hbeside), fun hnone => ?_⟩
  rw [VersionedStore.change_of_some hA] at hnone
  simp at hnone

/-- A call is answered as on the store that is meant. -/
theorem answer (h : TakenFrom s top limit bucket t₀ A t) (hpos : 0 < limit)
    (hlimit : limit ≤ UInt64.size) (hname : ObjectStore.isBucketName bucket = true) {c : StoreCall}
    (hc : takes limit bucket A c = true) :
    (s.answer c t).1 = (A.answer s.pageSize c).1 ∧
      TakenFrom s top limit bucket t₀ (A.answer s.pageSize c).2 (s.answer c t).2 := by
  cases c with
  | put b key body => cases hc
  | get b key => cases hc
  | url b key => cases hc
  | listObjects b token =>
    obtain rfl : b = bucket := by simpa [takes] using hc
    exact ⟨h.represents.listObjects hlimit hname token, h⟩
  | listVersions b cursor =>
    obtain rfl : b = bucket := by simpa [takes] using hc
    exact ⟨h.represents.listVersions hlimit hname cursor, h⟩
  | delete b key =>
    simp only [takes, Bool.and_eq_true, decide_eq_true_eq] at hc
    obtain ⟨rfl, hc⟩ := hc
    cases hA : A b with
    | none => simp [hA] at hc
    | some B =>
      have hmint : B.index.versioned = true → B.minted + 1 < limit := by
        intro (hversioned : B.versioned = true)
        simpa [hA, hversioned] using hc
      obtain ⟨hanswer, h'⟩ := h.represents.act hpos hlimit (.call (.delete b key))
        ⟨(h.represents.held b B hA).nameable, (h.represents.canMint_iff hlimit hA).2 hmint⟩
      exact ⟨hanswer, h.change hA h' (h.represents.beside_delete hlimit hA key)⟩
  | deleteVersion b key id =>
    simp only [takes, Bool.and_eq_true, decide_eq_true_eq] at hc
    obtain ⟨rfl, hc⟩ := hc
    cases hA : A b with
    | none => simp [hA] at hc
    | some B =>
      obtain ⟨r, hr, hid⟩ : ∃ r ∈ B.revisions key, versionId r.number = id := by
        simpa [hA] using hc
      obtain ⟨hanswer, h'⟩ := h.represents.act hpos hlimit (.call (.deleteVersion b key id))
        ⟨(h.represents.held b B hA).nameable,
          (h.represents.lists_iff hlimit hA).2 ⟨r, hr, hid⟩⟩
      exact ⟨hanswer, h.change hA h' (h.represents.beside_deleteVersion hlimit hA hid key)⟩
  | deleteBucket b =>
    obtain rfl : b = bucket := by simpa [takes] using hc
    obtain ⟨hanswer, h'⟩ := h.represents.deleteBucket hlimit hname
    refine ⟨hanswer, ?_⟩
    rcases ObjectStore.deleteBucket_eq h.represents.tidy h.represents.within
      (Prod.eta (s.deleteBucket b t)).symm with hend | ⟨hsame, hfails⟩
    · rw [h.beside.work] at hend
      refine ⟨h', ?_, fun _ => ?_⟩
      · rw [ObjectStore.answer, hend]
        exact h.beside.trans .dropAll
      · rw [ObjectStore.answer, hend]
        exact h.beside
    · refine ⟨h', ?_, fun hnone => ?_⟩
      · rw [ObjectStore.answer, hsame]
        exact h.beside
      · -- a bucket that is not deleted is not gone unless it was
        rw [ObjectStore.answer, hsame]
        rw [hanswer] at hfails
        refine h.gone ?_
        rw [VersionedStore.answer, VersionedStore.deleteBucket] at hnone
        rw [VersionedStore.deleteBucket] at hfails
        cases hA : A b with
        | none => rfl
        | some B =>
          rw [hA] at hnone hfails
          by_cases hempty : B.keys.isEmpty = true
          · simp [hempty] at hfails
          · simp [hempty, hA] at hnone

end TakenFrom

variable (d : DiskWorld site) (hpos : 0 < limit) (hlimit : limit ≤ UInt64.size)
  (hname : ObjectStore.isBucketName bucket = true)

include hpos hlimit hname

/-- What a program comes to on the store that is meant, it comes to on disk. -/
theorem run_of_meant {p : Program α} {a : α}
    (h : meant site.cloud.objects.pageSize limit bucket p A = some (a, A')) (w : d.State)
    (hw : TakenFrom site.cloud.objects top limit bucket t₀ A (d.files w)) :
    ∃ w', p.run d.handler w = (some a, w') ∧
      TakenFrom site.cloud.objects top limit bucket t₀ A' (d.files w') := by
  induction p generalizing A w with
  | done b =>
    cases h
    exact ⟨w, rfl, hw⟩
  | ask r next ih =>
    cases r with
    | store c =>
      rw [meant] at h
      split at h
      · rename_i hc
        have hanswers : site.cloud.objects.answer c (d.files w) = _ := d.answers (.store c) w
        obtain ⟨hanswer, hw'⟩ := hw.answer hpos hlimit hname hc
        rw [hanswers] at hanswer hw'
        rw [← hanswer] at h
        exact ih _ h _ hw'
      · cases h
    | _ => cases h
  | unfinished => cases h

/-- What it comes by, it comes by on disk. -/
theorem exists_moment_of_meantAt {p : Program α} {n : Nat}
    (h : meantAt site.cloud.objects.pageSize limit bucket n p A = some A') (w : d.State)
    (hw : TakenFrom site.cloud.objects top limit bucket t₀ A (d.files w)) :
    ∃ m ∈ p.moments d.handler w,
      TakenFrom site.cloud.objects top limit bucket t₀ A' (d.files m.before) := by
  induction p generalizing A w n with
  | done b => cases n <;> cases h
  | ask r next ih =>
    cases n with
    | zero =>
      cases h
      exact ⟨_, List.mem_cons_self, hw⟩
    | succ n =>
      cases r with
      | store c =>
        rw [meantAt] at h
        split at h
        · rename_i hc
          have hanswers : site.cloud.objects.answer c (d.files w) = _ := d.answers (.store c) w
          obtain ⟨hanswer, hw'⟩ := hw.answer hpos hlimit hname hc
          rw [hanswers] at hanswer hw'
          rw [← hanswer] at h
          obtain ⟨m, hm, hbefore⟩ := ih _ h _ hw'
          exact ⟨m, List.mem_cons_of_mem _ hm, hbefore⟩
        · cases h
      | _ => cases h
  | unfinished => cases n <;> cases h

end Rollout.Artifacts
