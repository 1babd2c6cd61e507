import Rollout.Proofs.Cloud.Deletion
import Rollout.Proofs.Cloud.Refinement
import Rollout.Proofs.Files.Around

/-!
Stores that stay in order. Whatever is done to a store, its indexes stay sound and its tree stays
tidy, even if contents are taken away that no index lists; and what is done to one bucket changes
what lies in the directory of that bucket, beside which at most files go away.
-/

namespace Rollout

open FileTree Outcome

/-! ## Indexes with less in them -/

namespace BucketIndex

variable {i i' : BucketIndex} {key key' id : String} {v : StoredVersion}

/-- Taking versions away keeps an index sound. -/
theorem Sound.of_fewer (h : i.Sound) (ho : i'.objects.Ordered)
    (hn : i'.nextVersion = i.nextVersion)
    (hv : ∀ key, ∀ v ∈ i'.versions key, v ∈ i.versions key) : i'.Sound where
  ordered := ho
  minted key v hmem := hn ▸ h.minted key v (hv key v hmem)
  apart key key' v hmem v' hmem' := h.apart key key' v (hv key v hmem) v' (hv key' v' hmem')

theorem mem_versions_dropKey (h : v ∈ (i.dropKey key).versions key') : v ∈ i.versions key' := by
  unfold versions dropKey at *
  rw [TextMap.get?_erase] at h
  split at h
  · cases h
  · exact h

theorem Sound.dropKey (h : i.Sound) (key : String) : (i.dropKey key).Sound :=
  h.of_fewer (h.ordered.erase _) rfl fun _ _ => mem_versions_dropKey

theorem Sound.dropVersion (h : i.Sound) (key id : String) : (i.dropVersion key id).Sound := by
  unfold BucketIndex.dropVersion
  split
  · exact h
  · rename_i versions hversions
    split
    · exact h.dropKey key
    · refine h.of_fewer (h.ordered.insert _ _) rfl fun key' v hv => ?_
      unfold BucketIndex.versions at hv ⊢
      rw [TextMap.get?_insert] at hv
      split at hv
      · rename_i hkey
        rw [← hkey, hversions]
        exact List.mem_of_mem_filter hv
      · exact hv

end BucketIndex

namespace Effect

variable {top : Location} {t t' : FileTree} {p : Path} {r : Except FileError Unit}

/-- Wherever its path leads, discarding takes away a file or nothing. -/
theorem discard_pruned (ht : t.Tidy top) (h : (Effect.discard p).perform t = (r, t')) :
    t'.Tidy top ∧ Pruned (fun _ => True) t t' := by
  have hstays : t.Tidy top ∧ Pruned (fun _ => True) t t := ⟨ht, .refl ..⟩
  simp only [perform, Disk.step] at h
  split at h
  · rename_i hstep
    cases h
    split at hstep
    · simp only [FileTree.remove, bind_eq_ok] at hstep
      obtain ⟨l, -, hstep⟩ := hstep
      split at hstep
      · cases hstep
      · cases hstep
      · rename_i e hdir he
        cases hstep
        have hne : l ≠ [] := by
          rintro rfl
          cases he
          exact hdir rfl
        exact ⟨ht.drop hne (by simpa [he] using hdir), (pruned_drop hne).mono fun _ _ => trivial⟩
    · cases hstep
      exact hstays
  · cases h
    exact hstays

theorem discards_pruned {ps : List Path} (ht : t.Tidy top)
    (h : performAll (ps.map .discard) t = (r, t')) :
    t'.Tidy top ∧ Pruned (fun _ => True) t t' := by
  induction ps generalizing t with
  | nil =>
    obtain ⟨rfl, -⟩ := performAll_nil h
    exact ⟨ht, .refl ..⟩
  | cons p ps ih =>
    rcases performAll_cons h with ⟨hfirst, -⟩ | ⟨t₁, hfirst, hrest⟩
    · exact discard_pruned ht hfirst
    · obtain ⟨ht₁, hpruned⟩ := discard_pruned ht hfirst
      obtain ⟨ht', hmore⟩ := ih ht₁ hrest
      exact ⟨ht', hpruned.trans hmore⟩

end Effect

namespace ObjectStore

variable {s : ObjectStore} {top : Location} {t t' : FileTree} {bucket : String} {dir : Path}
  {i : BucketIndex} {es : List Effect}

/-! ## Steady stores -/

/-- A store stays steady when something is taken away. -/
theorem Steady.of_pruned {S : Location → Prop} (h : s.Steady top t) (ht' : t'.Tidy top)
    (hpruned : Pruned S t t') : s.Steady top t' where
  tidy := ht'
  within := hpruned.work.symm ▸ h.within
  sound bucket dir i hread := by
    obtain ⟨hdir, hu, content, text, hentry, htext, hi⟩ :=
      (readIndex_eq_ok ht' (hpruned.work.symm ▸ h.within)).1 hread
    refine h.sound bucket dir i
      ((readIndex_eq_ok h.tidy h.within).2 ⟨hdir, hu, content, text, ?_, htext, hi⟩)
    rw [hpruned.work] at hentry
    rcases hpruned.entry (s.indexPlace t.workDir bucket) with hsame | ⟨-, hnone⟩
    · rw [← hsame, hentry]
    · rw [hnone] at hentry
      cases hentry

/-- A store that is steady, with the run in none of its buckets. -/
structure Settled (s : ObjectStore) (top : Location) (t : FileTree) : Prop where
  steady : s.Steady top t
  outside : ¬s.bucketsPlace t.workDir <+: t.workDir

/-- Nothing changed beside a bucket, but that files are gone there. -/
def Lessened (s : ObjectStore) (bucket : String) (t t' : FileTree) : Prop :=
  ∃ t₁, Around (· = s.bucketPlace t.workDir bucket) t t₁ ∧ Pruned (fun _ => True) t₁ t'

theorem Settled.of_lessened (h : s.Settled top t) (hs : s.Steady top t')
    (hl : s.Lessened bucket t t') : s.Settled top t' := by
  obtain ⟨t₁, haround, hpruned⟩ := hl
  exact ⟨hs, by rw [hpruned.work, haround.work]; exact h.outside⟩

theorem Lessened.refl (s : ObjectStore) (bucket : String) (t : FileTree) : s.Lessened bucket t t :=
  ⟨t, .refl .., .refl ..⟩

/-! ## Effects on one bucket -/

/-- The run is in no bucket. -/
theorem outside_bucket (h : ¬s.bucketsPlace t.workDir <+: t.workDir) (bucket : String) :
    ¬s.bucketPlace t.workDir bucket <+: t.workDir := by
  intro hin
  rw [bucketPlace_eq] at hin
  exact h ((List.prefix_append _ _).trans hin)

section Aims

variable (hs : Within t.workDir top s.root) (hdir : s.bucketDir bucket = .ok dir)

include hs hdir

theorem aims_index (i : BucketIndex) :
    (writeIndex dir i).Aims top (s.bucketPlace t.workDir bucket) t.workDir where
  below := (below_index hs hdir).1
  spot := (below_index hs hdir).2 ▸ bucketPlace_prefix_index _
  whole _ _ := nofun
  outside _ := nofun

theorem aims_content {id : String} (hid : Path.IsEntry id) (body : ByteArray) :
    (Effect.replace (blobPath dir id) body).Aims top (s.bucketPlace t.workDir bucket) t.workDir where
  below := (below_blob hs hdir hid).1
  spot := (below_blob hs hdir hid).2 ▸ bucketPlace_prefix_blob _ _
  whole _ _ := nofun
  outside _ := nofun

theorem aims_discard {id : String} (hid : Path.IsEntry id) :
    (Effect.discard (blobPath dir id)).Aims top (s.bucketPlace t.workDir bucket) t.workDir where
  below := (below_blob hs hdir hid).1
  spot := (below_blob hs hdir hid).2 ▸ bucketPlace_prefix_blob _ _
  whole _ _ := nofun
  outside _ := nofun

theorem aims_blobs :
    (Effect.makeDirs (dir.joinText "blobs")).Aims top (s.bucketPlace t.workDir bucket) t.workDir where
  below := (within_bucket hs hdir).1.toWithin.entry isEntry_blobs
  spot := by
    rw [Effect.path, isEntry_blobs.place_joinText, (within_bucket hs hdir).2]
    exact List.prefix_append _ _
  whole _ _ := nofun
  outside _ := nofun

theorem aims_removeTree (hout : ¬s.bucketsPlace t.workDir <+: t.workDir) :
    (Effect.removeTree dir).Aims top (s.bucketPlace t.workDir bucket) t.workDir where
  below := (within_bucket hs hdir).1
  spot := by
    rw [Effect.path, (within_bucket hs hdir).2]
  whole _ _ := nofun
  outside p hp := by
    cases hp
    rw [(within_bucket hs hdir).2]
    exact outside_bucket hout bucket

end Aims

/-- The ids of listed versions name entries of a directory. -/
theorem Steady.isEntry_id (h : s.Steady top t) (hread : s.readIndex t bucket = .ok (dir, i))
    {key : String} {v : StoredVersion} (hv : v ∈ i.versions key) : Path.IsEntry v.id := by
  obtain ⟨n, -, hid⟩ := (h.sound bucket dir i hread).minted key v hv
  exact hid ▸ isEntry_versionId n

theorem aims_of_createEffects (h : s.Steady top t) (hes : s.createEffects t bucket = .ok es) :
    ∀ e ∈ es, e.Aims top (s.bucketPlace t.workDir bucket) t.workDir := by
  simp only [createEffects, bind_eq_ok] at hes
  obtain ⟨dir, hdir, hes⟩ := hes
  split at hes
  · cases hes
    simp
  · cases hes
    simpa using ⟨aims_blobs h.within hdir, aims_index h.within hdir _⟩

theorem aims_of_versioningEffects (h : s.Steady top t)
    (hes : s.versioningEffects t bucket = .ok es) :
    ∀ e ∈ es, e.Aims top (s.bucketPlace t.workDir bucket) t.workDir := by
  simp only [versioningEffects, bind_eq_ok] at hes
  obtain ⟨⟨dir, i⟩, hread, hes⟩ := hes
  cases hes
  simpa using aims_index h.within ((readIndex_eq_ok h.tidy h.within).1 hread).1 _

theorem aims_of_putEffects (h : s.Steady top t) {key : String} {body : ByteArray}
    (hes : s.putEffects t bucket key body = .ok es) :
    ∀ e ∈ es, e.Aims top (s.bucketPlace t.workDir bucket) t.workDir := by
  simp only [putEffects, bind_eq_ok] at hes
  obtain ⟨⟨dir, i⟩, hread, hes⟩ := hes
  cases hes
  have hdir := ((readIndex_eq_ok h.tidy h.within).1 hread).1
  rw [List.forall_mem_cons, List.forall_mem_cons, List.forall_mem_map]
  refine ⟨aims_content h.within hdir (isEntry_versionId _) body, aims_index h.within hdir _,
    fun v hv => aims_discard h.within hdir ?_⟩
  unfold BucketIndex.displaced at hv
  split at hv
  · cases hv
  · exact h.isEntry_id hread hv

theorem aims_of_deleteEffects (h : s.Steady top t) {key : String}
    (hes : s.deleteEffects t bucket key = .ok es) :
    ∀ e ∈ es, e.Aims top (s.bucketPlace t.workDir bucket) t.workDir := by
  simp only [deleteEffects, bind_eq_ok] at hes
  obtain ⟨⟨dir, i⟩, hread, hes⟩ := hes
  have hdir := ((readIndex_eq_ok h.tidy h.within).1 hread).1
  dsimp only at hes
  split at hes
  · cases hes
    simpa using aims_index h.within hdir _
  · cases hes
    rw [List.forall_mem_cons, List.forall_mem_map]
    exact ⟨aims_index h.within hdir _,
      fun v hv => aims_discard h.within hdir (h.isEntry_id hread hv)⟩

theorem aims_of_deleteVersionEffects (h : s.Steady top t) {key id : String} (hid : Path.IsEntry id)
    (hes : s.deleteVersionEffects t bucket key id = .ok es) :
    ∀ e ∈ es, e.Aims top (s.bucketPlace t.workDir bucket) t.workDir := by
  simp only [deleteVersionEffects, bind_eq_ok] at hes
  obtain ⟨⟨dir, i⟩, hread, hes⟩ := hes
  cases hes
  have hdir := ((readIndex_eq_ok h.tidy h.within).1 hread).1
  simpa using ⟨aims_index h.within hdir _, aims_discard h.within hdir hid⟩

theorem aims_of_deleteBucketEffects (h : s.Settled top t)
    (hes : s.deleteBucketEffects t bucket = .ok es) :
    ∀ e ∈ es, e.Aims top (s.bucketPlace t.workDir bucket) t.workDir := by
  simp only [deleteBucketEffects, bind_eq_ok, throw_bind, guard_eq_ok] at hes
  obtain ⟨⟨dir, i⟩, hread, -, hes⟩ := hes
  cases hes
  have hdir := ((readIndex_eq_ok h.steady.tidy h.steady.within).1 hread).1
  simpa using aims_removeTree h.steady.within hdir h.outside

/-- An operation made of such effects changes what lies in the directory of the bucket. -/
theorem around_of_performing (h : s.Steady top t)
    {effects : FileTree → Except StoreError (List Effect)}
    (hes : ∀ es, effects t = .ok es →
      ∀ e ∈ es, e.Aims top (s.bucketPlace t.workDir bucket) t.workDir) :
    (performing effects t).2.Tidy top ∧
      Around (· = s.bucketPlace t.workDir bucket) t (performing effects t).2 := by
  rcases performing_eq (Prod.eta (performing effects t)).symm with ⟨hsame, -⟩ | ⟨es, r, he, hrun, -⟩
  · rw [hsame]
    exact ⟨h.tidy, .refl ..⟩
  · exact Effect.around_of_performAll (hes es he) h.tidy hrun

theorem Steady.createBucket_around (h : s.Steady top t) (bucket : String) :
    Around (· = s.bucketPlace t.workDir bucket) t (s.createBucket bucket t).2 :=
  (around_of_performing h fun _ => aims_of_createEffects h).2

theorem Steady.enableVersioning_around (h : s.Steady top t) (bucket : String) :
    Around (· = s.bucketPlace t.workDir bucket) t (s.enableVersioning bucket t).2 :=
  (around_of_performing h fun _ => aims_of_versioningEffects h).2

end ObjectStore

/-! ## Actions -/

/-- An action that removes versions by the names of entries only. -/
def StoreAction.Proper : StoreAction → Prop
  | .call (.deleteVersion _ _ id) => Path.IsEntry id
  | _ => True

namespace ObjectStore

variable {s : ObjectStore} {top : Location} {t t' : FileTree} {bucket : String} {dir : Path}
  {i i' : BucketIndex} {a : StoreAction}

/-- What is done to a bucket changes what lies in its directory. -/
theorem Settled.act_around (h : s.Settled top t) (ha : a.Proper) :
    Around (· = s.bucketPlace t.workDir a.bucket) t (s.act a t).2 := by
  have hs := h.steady
  cases a with
  | createBucket b => exact hs.createBucket_around b
  | enableVersioning b => exact hs.enableVersioning_around b
  | isEmpty b => exact .refl ..
  | call c =>
    cases c with
    | put b k body => exact (around_of_performing hs fun es => aims_of_putEffects hs).2
    | delete b k => exact (around_of_performing hs fun es => aims_of_deleteEffects hs).2
    | deleteVersion b k id =>
      exact (around_of_performing hs fun es => aims_of_deleteVersionEffects hs ha).2
    | deleteBucket b => exact (around_of_performing hs fun es => aims_of_deleteBucketEffects h).2
    | _ => exact .refl ..

/-- A new index, and then contents that go: the store stays steady. -/
theorem Steady.of_index_discards (h : s.Steady top t) (hread : s.readIndex t bucket = .ok (dir, i))
    (hsound : i'.Sound) (ps : List Path) {r : Except FileError Unit}
    (hrun : Effect.performAll (writeIndex dir i' :: ps.map .discard) t = (r, t')) :
    s.Steady top t' ∧ s.Lessened bucket t t' := by
  have hdir := ((readIndex_eq_ok h.tidy h.within).1 hread).1
  have hwritten {r₁ : Except FileError Unit} {t₁ : FileTree}
      (hfirst : (writeIndex dir i').perform t = (r₁, t₁)) :
      s.Steady top t₁ ∧ Around (· = s.bucketPlace t.workDir bucket) t t₁ := by
    refine ⟨?_, ((aims_index h.within hdir i').perform h.tidy hfirst).2⟩
    obtain ⟨hbelow, hplace⟩ := below_index h.within hdir
    obtain ⟨ht₁, htouched, hdone, hrest⟩ := Effect.replace_spec h.tidy hbelow hfirst
    by_cases hr₁ : r₁ = .ok ()
    · obtain ⟨-, hentry⟩ := hdone hr₁
      rw [hplace] at htouched hentry
      exact (h.kept_of_index ht₁ htouched hread hentry hsound (Nat.le_add_left _ _)).steady
    · exact (h.kept_of_dirs ht₁ (hrest hr₁) (fun _ => False) (fun _ _ => False) 0).steady
  rcases performAll_cons hrun with ⟨hfirst, -⟩ | ⟨t₁, hfirst, hrest⟩
  · obtain ⟨hsteady, haround⟩ := hwritten hfirst
    exact ⟨hsteady, _, haround, .refl ..⟩
  · obtain ⟨hsteady, haround⟩ := hwritten hfirst
    obtain ⟨ht', hpruned⟩ := Effect.discards_pruned hsteady.tidy hrest
    exact ⟨hsteady.of_pruned ht' hpruned, _, haround, hpruned⟩

/-- A store stays steady whatever is done to it. -/
theorem Settled.act (h : s.Settled top t) (a : StoreAction) :
    s.Steady top (s.act a t).2 ∧ s.Lessened a.bucket t (s.act a t).2 := by
  have hs := h.steady
  have hproper (ha : a.Proper) : s.Lessened a.bucket t (s.act a t).2 :=
    ⟨_, h.act_around ha, .refl ..⟩
  cases a with
  | createBucket b => exact ⟨(createBucket_spec hs rfl).steady, hproper trivial⟩
  | enableVersioning b => exact ⟨(enableVersioning_spec hs rfl).steady, hproper trivial⟩
  | isEmpty b => exact ⟨hs, hproper trivial⟩
  | call c =>
    cases c with
    | put b k body => exact ⟨(put_spec hs rfl).1.steady, hproper trivial⟩
    | delete b k =>
      refine ⟨?_, hproper trivial⟩
      show s.Steady top (s.delete b k t).2
      rcases performing_eq (Prod.eta (s.delete b k t)).symm with ⟨hsame, -⟩ | ⟨es, r, hes, hrun, -⟩
      · rw [hsame]
        exact hs
      simp only [deleteEffects, bind_eq_ok] at hes
      obtain ⟨⟨dir, i⟩, hread, hes⟩ := hes
      have hsound := hs.sound b dir i hread
      dsimp only at hes
      split at hes
      · cases hes
        exact (hs.of_index_discards hread (hsound.push k true) [] hrun).1
      · cases hes
        rw [show (i.versions k).map (fun v => Effect.discard (blobPath dir v.id)) =
          ((i.versions k).map fun v => blobPath dir v.id).map .discard by rw [List.map_map]; rfl]
          at hrun
        exact (hs.of_index_discards hread (hsound.dropKey k) _ hrun).1
    | deleteVersion b k id =>
      show s.Steady top (s.deleteVersion b k id t).2 ∧
        s.Lessened b t (s.deleteVersion b k id t).2
      rcases performing_eq (Prod.eta (s.deleteVersion b k id t)).symm with
        ⟨hsame, -⟩ | ⟨es, r, hes, hrun, -⟩
      · rw [hsame]
        exact ⟨hs, .refl ..⟩
      simp only [deleteVersionEffects, bind_eq_ok] at hes
      obtain ⟨⟨dir, i⟩, hread, hes⟩ := hes
      cases hes
      exact hs.of_index_discards hread ((hs.sound b dir i hread).dropVersion k id)
        [blobPath dir id] hrun
    | deleteBucket b =>
      refine ⟨?_, hproper trivial⟩
      show s.Steady top (s.deleteBucket b t).2
      have htidy : (s.deleteBucket b t).2.Tidy top :=
        (around_of_performing hs fun es => aims_of_deleteBucketEffects h).1
      rcases deleteBucket_eq hs.tidy hs.within (Prod.eta (s.deleteBucket b t)).symm with
        hgone | ⟨hsame, -⟩
      · rw [hgone] at htidy ⊢
        exact hs.of_pruned htidy (pruned_dropAll (bucketPlace_ne_nil _))
      · rw [hsame]
        exact hs
    | _ => exact ⟨hs, hproper trivial⟩

end ObjectStore

end Rollout
