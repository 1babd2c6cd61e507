import Rollout.Proofs.Record.Faithful
import Rollout.Proofs.Run.Succeeding
import Rollout.Run.Destroy

/-!
What destroying a stage takes away. A run that succeeds has taken the deployment bucket down, had
the stack deleted and forgotten the record, in this order; at every request before, the disk is on
its way there, and nothing else on it has changed.
-/

namespace Rollout.Destroy

open FileTree Outcome

/-- A disk on which stages can be destroyed: buckets as the store leaves them, records beside
them, stacks among the stacks, and the project out of reach of all three. -/
structure Layout (site : Site) (top : Location) (t : FileTree) : Prop where
  buckets : ∃ A, site.cloud.objects.Represents top UInt64.size A t
  provider : site.cloud.provider.objects = site.cloud.objects
  root : site.cloud.objects.root = site.cloud.provider.root
  records : Within t.workDir top site.records.stateDir
  apart : ∀ stage,
    ¬site.cloud.objects.bucketsPlace t.workDir <+: site.records.place t.workDir stage
  descriptor : t.Beyond top site.descriptors.descriptorPath
  contained : ∀ p, site.descriptors.load t = .ok p → ∀ stage : Stage,
    StackProvider.Contained (stage.stackName p.name)
  names : ∀ names, site.cloud.provider.stackNames t = .ok names → ∀ name ∈ names,
    StackProvider.Contained name

/-- The bucket that the stack of a stage exports has ids for the markers to come, and outlasts no
patience. -/
def Limited (site : Site) (patience : Nat) (stage : Stage) (t : FileTree) : Prop :=
  ∀ p bucket, site.descriptors.load t = .ok p →
    Lifecycle.Says site.cloud.provider t (bucketExport (stage.stackName p.name))
      (.ok (some bucket)) →
    ∀ dir i, site.cloud.objects.readIndex t bucket = .ok (dir, i) →
      i.nextVersion + (if i.versioned then i.currentKeys.length else 0) < idLimit ∧
        i.allVersions.length + i.currentKeys.length < patience

/-! ## What is taken away -/

section Taken

variable (site : Site) (w : Waiting) (stage : Stage) (stack : String) (t : FileTree)

/-- The disk without the deployment bucket of a stack, as far as it is known. -/
def withoutBucket : FileTree :=
  match Lifecycle.lookUp w site.cloud.provider t (bucketExport stack) with
  | some (.found bucket) => Artifacts.cleared site.cloud.objects bucket t
  | _ => t

/-- The disk without a stack and its deployment bucket. -/
def withoutStack : FileTree :=
  match site.cloud.provider.status t stack with
  | .ok st =>
    if st.isGone then t
    else (site.cloud.provider.delete stack (withoutBucket site w stack t)).2
  | .error _ => t

/-- The disk without a stage: without its stack, its deployment bucket and its record. -/
def withoutStage : FileTree :=
  (site.records.delete stage (withoutStack site w stack t)).2

end Taken

/-- The disk of a run that destroys a stage, at one moment or other. -/
inductive Underway (site : Site) (w : Waiting) (top : Location) (stage : Stage)
    (t₀ : FileTree) : FileTree → Prop where
  | begun : Underway site w top stage t₀ t₀
  | emptying {p : Project} {st : StackStatus} {bucket : String} {t : FileTree}
      (project : site.descriptors.load t₀ = .ok p)
      (stands : site.cloud.provider.status t₀ (stage.stackName p.name) = .ok st ∧
        st.isGone = false)
      (found : Lifecycle.lookUp w site.cloud.provider t₀ (bucketExport (stage.stackName p.name)) =
        some (.found bucket))
      (midway : Artifacts.Midway site.cloud.objects top w.patience bucket t₀ t) :
      Underway site w top stage t₀ t
  | withoutStack {p : Project} (project : site.descriptors.load t₀ = .ok p) :
      Underway site w top stage t₀ (withoutStack site w (stage.stackName p.name) t₀)
  | withoutStage {p : Project} (project : site.descriptors.load t₀ = .ok p) :
      Underway site w top stage t₀ (withoutStage site w stage (stage.stackName p.name) t₀)

/-- What came of a stack that was removed. -/
structure Removed (site : Site) (w : Waiting) (top : Location) (stack : String)
    (t : FileTree) : Prop where
  patience : 0 < w.patience
  found : ∃ found, Lifecycle.lookUp w site.cloud.provider t (bucketExport stack) = some found
  bucket : ∀ bucket,
    Lifecycle.lookUp w site.cloud.provider t (bucketExport stack) = some (.found bucket) →
      ObjectStore.isBucketName bucket = true ∧
        Artifacts.Midway site.cloud.objects top w.patience bucket t t ∧
        Artifacts.Midway site.cloud.objects top w.patience bucket t
          (Artifacts.cleared site.cloud.objects bucket t)
  deleted : (site.cloud.provider.delete stack (withoutBucket site w stack t)).1 = .ok ()
  gone : ∃ st, site.cloud.provider.status
    (site.cloud.provider.delete stack (withoutBucket site w stack t)).2 stack = .ok st ∧
      st.isFailure = false

/-- How a run that reports `r` found the stack of a stage, and what came of it. -/
def StackRemoved (site : Site) (w : Waiting) (top : Location) (stack : String) (t : FileTree)
    (r : DestroyReport) : Prop :=
  ∃ st, site.cloud.provider.status t stack = .ok st ∧ r.stackExisted = !st.isGone ∧
    (st.isGone = true ∧ r.bucket = none ∨
      st.isGone = false ∧ Removed site w top stack t ∧ ∀ bucket, r.bucket = some bucket ↔
        Lifecycle.lookUp w site.cloud.provider t (bucketExport stack) = some (.found bucket))

/-- What came of a run that succeeded. -/
structure Completed (site : Site) (w : Waiting) (top : Location) (stage : Stage) (t : FileTree)
    (p : Project) (r : DestroyReport) : Prop where
  project : site.descriptors.load t = .ok p
  stack : StackRemoved site w top (stage.stackName p.name) t r
  forgotten : (site.records.delete stage
    (withoutStack site w (stage.stackName p.name) t)).1 = .ok ()

variable {site : Site} {w : Waiting} {top : Location} {stage : Stage} {stack : String}
  {p : Project} {st : StackStatus} {t t' : FileTree} {r : DestroyReport}

theorem withoutStack_of_gone (h : site.cloud.provider.status t stack = .ok st)
    (hgone : st.isGone = true) : withoutStack site w stack t = t := by
  rw [withoutStack, h]
  exact if_pos hgone

theorem withoutStack_of_stands (h : site.cloud.provider.status t stack = .ok st)
    (hstands : st.isGone = false) : withoutStack site w stack t =
      (site.cloud.provider.delete stack (withoutBucket site w stack t)).2 := by
  simp [withoutStack, h, hstands]

/-! ## A run -/

section Run

variable (hlayout : Layout site top t) (hlimited : Limited site w.patience stage t)
  (hproject : site.descriptors.load t = .ok p)

include hlayout hlimited hproject

/-- The deployment bucket of a stage can be taken down. -/
theorem midway_of_found {bucket : String}
    (hfound : Lifecycle.lookUp w site.cloud.provider t (bucketExport (stage.stackName p.name)) =
      some (.found bucket)) :
    ∃ A, site.cloud.objects.Represents top UInt64.size A t ∧
      ∀ B, A bucket = some B → B.Manageable w.patience := by
  obtain ⟨A, hA⟩ := hlayout.buckets
  refine ⟨A, hA, fun B hB => ?_⟩
  have hlimits := hlimited p bucket hproject (Lifecycle.says_of_lookUp hfound) _ _
    (hA.readIndex (Nat.le_refl _) hB)
  rw [VersionedBucket.currentKeys_index, VersionedBucket.allVersions_index] at hlimits
  exact ⟨hlimits.1, hlimits.2⟩

theorem follows_removeBucket
    (hstands : site.cloud.provider.status t (stage.stackName p.name) = .ok st ∧ st.isGone = false)
    (hr : r.bucket = none) :
    (removeBucket w (stage.stackName p.name) r).Follows
      (site.onDiskWhile (Underway site w top stage t)) (fun r' t' =>
        t' = withoutBucket site w (stage.stackName p.name) t ∧ Underway site w top stage t t' ∧
        r'.stackExisted = r.stackExisted ∧ ∃ found,
          Lifecycle.lookUp w site.cloud.provider t (bucketExport (stage.stackName p.name)) =
            some found ∧
          (∀ bucket, r'.bucket = some bucket ↔ found = .found bucket) ∧
          ∀ bucket, found = .found bucket → ObjectStore.isBucketName bucket = true ∧
            Artifacts.Midway site.cloud.objects top w.patience bucket t t ∧
            Artifacts.Midway site.cloud.objects top w.patience bucket t
              (Artifacts.cleared site.cloud.objects bucket t)) t := by
  refine .bind ((Lifecycle.follows_findExport_lookUp w _).onDiskWhile
    (Lifecycle.idle_findExport ..) .begun) ?_
  rintro found t₁ ⟨rfl, hfound⟩
  cases found with
  | notFound attempts =>
    refine Run.follows_pure ⟨?_, .begun, rfl, _, hfound, fun bucket => ?_, nofun⟩
    · rw [withoutBucket, hfound]
    · refine iff_of_false (fun hbucket : r.bucket = some bucket => ?_) nofun
      rw [hr] at hbucket
      cases hbucket
  | found bucket =>
    obtain ⟨A, hA, hB⟩ := midway_of_found hlayout hlimited hproject hfound
    refine .bind ((Artifacts.follows_tearDown hA hB).onDiskWhile_mono fun t' h =>
      .emptying hproject hstands hfound h) ?_
    rintro removed t₂ ⟨hname, rfl, hmidway⟩
    have hunderway : Underway site w top stage t₁
        (Artifacts.cleared site.cloud.objects bucket t₁) :=
      .emptying hproject hstands hfound hmidway
    refine .bind ((Run.follows_onDisk_of_idle (Run.idle_emit id)).onDiskWhile
      (Run.idle_emit id) hunderway) ?_
    rintro _ t' rfl
    refine Run.follows_pure ⟨?_, hunderway, rfl, _, hfound, fun b => ?_, ?_⟩
    · rw [withoutBucket, hfound]
    · simp
    · rintro b ⟨⟩
      exact ⟨hname, Artifacts.midway_refl hA hB, hmidway⟩

omit hlayout hlimited in
theorem follows_removeStack
    (hstands : site.cloud.provider.status t (stage.stackName p.name) = .ok st ∧ st.isGone = false)
    (hunderway : Underway site w top stage t (withoutBucket site w (stage.stackName p.name) t)) :
    (removeStack w (stage.stackName p.name)).Follows
      (site.onDiskWhile (Underway site w top stage t)) (fun _ t' =>
        t' = withoutStack site w (stage.stackName p.name) t ∧ 0 < w.patience ∧
        (site.cloud.provider.delete (stage.stackName p.name)
          (withoutBucket site w (stage.stackName p.name) t)).1 = .ok () ∧
        ∃ st, site.cloud.provider.status t' (stage.stackName p.name) = .ok st ∧
          st.isFailure = false) (withoutBucket site w (stage.stackName p.name) t) := by
  have hdelete : (Lifecycle.delete (stage.stackName p.name)).Follows
      (site.onDiskWhile (Underway site w top stage t)) (fun _ t' =>
        t' = withoutStack site w (stage.stackName p.name) t ∧
        (site.cloud.provider.delete (stage.stackName p.name)
          (withoutBucket site w (stage.stackName p.name) t)).1 = .ok ())
      (withoutBucket site w (stage.stackName p.name) t) := by
    refine Run.follows_request (r := .stack (.delete (stage.stackName p.name))) hunderway ?_
    intro a t' ha x hx
    have ha : site.cloud.provider.delete (stage.stackName p.name)
      (withoutBucket site w (stage.stackName p.name) t) = (a, t') := ha
    rw [withoutStack_of_stands hstands.1 hstands.2, ha]
    exact ⟨rfl, hx⟩
  refine .bind hdelete ?_
  rintro _ t₁ ⟨rfl, hdeleted⟩
  have hpoll : (Lifecycle.pollUntilTerminal w (stage.stackName p.name)).Follows
      (site.onDiskWhile (Underway site w top stage t)) (fun st t' =>
        t' = withoutStack site w (stage.stackName p.name) t ∧ 0 < w.patience ∧
        site.cloud.provider.status t' (stage.stackName p.name) = .ok st ∧ st.isFailure = false)
      (withoutStack site w (stage.stackName p.name) t) := by
    refine Run.Follows.onDiskWhile ?_ (Lifecycle.idle_pollUntilTerminal ..)
      (.withoutStack hproject)
    by_cases hpatience : 0 < w.patience
    · refine (Lifecycle.follows_pollUntilTerminal w _).mono ?_
      rintro st t' ⟨rfl, hst, hfailure⟩
      exact ⟨rfl, hpatience, hst, hfailure⟩
    · -- without patience a run does not get past here
      have hzero : w.patience = 0 := by omega
      refine .bind (Run.follows_onDisk_of_idle Run.idle_now) ?_
      rintro now t' rfl
      rw [hzero]
      exact Run.follows_unfinished
  refine .bind hpoll ?_
  rintro st' t₂ ⟨rfl, hpatience, hst', hfailure⟩
  refine ((Run.follows_onDisk_of_idle (Run.idle_emit id)).onDiskWhile (Run.idle_emit id)
    (.withoutStack hproject)).mono ?_
  rintro _ t' rfl
  exact ⟨rfl, hpatience, hdeleted, st', hst', hfailure⟩

theorem follows_removeAll (hexisted : r.stackExisted = false) (hr : r.bucket = none) :
    (removeAll w (stage.stackName p.name) r).Follows
      (site.onDiskWhile (Underway site w top stage t)) (fun r' t' =>
        t' = withoutStack site w (stage.stackName p.name) t ∧
          StackRemoved site w top (stage.stackName p.name) t r') t := by
  refine .bind ((Lifecycle.follows_status _).onDiskWhile (Lifecycle.idle_status _) .begun) ?_
  rintro st t₁ ⟨rfl, hst⟩
  cases hgone : st.isGone with
  | true =>
    refine Run.follows_pure ⟨(withoutStack_of_gone hst hgone).symm, st, hst, ?_, ?_⟩
    · rw [hexisted, hgone]
      rfl
    · exact .inl ⟨hgone, hr⟩
  | false =>
    refine .bind (follows_removeBucket hlayout hlimited hproject ⟨hst, hgone⟩ hr) ?_
    rintro r' t₂ ⟨rfl, hunderway, hexisted', found, hfound, hresolved, hbucket⟩
    refine .bind (follows_removeStack hproject ⟨hst, hgone⟩ hunderway) ?_
    rintro _ t₃ ⟨rfl, hpatience, hdeleted, hend⟩
    refine Run.follows_pure ⟨rfl, st, hst, ?_, .inr ⟨hgone, ⟨hpatience, ⟨found, hfound⟩, ?_,
      hdeleted, ?_⟩, ?_⟩⟩
    · rw [hexisted', hgone]
      rfl
    · intro bucket h
      rw [hfound] at h
      exact hbucket bucket (Option.some.inj h)
    · rwa [withoutStack_of_stands hst hgone] at hend
    · intro bucket
      rw [hresolved bucket, hfound, Option.some_inj]

end Run

/-- A run that succeeds has destroyed the stage. -/
theorem follows_destroy (s : Settings) (patience : Nat) (hlayout : Layout site top t)
    (hlimited : Limited site patience stage t) :
    (destroy s patience stage).Follows
      (site.onDiskWhile (Underway site (s.waiting patience) top stage t)) (fun r t' =>
        ∃ p, Completed site (s.waiting patience) top stage t p r ∧
          t' = withoutStage site (s.waiting patience) stage (stage.stackName p.name) t) t := by
  refine .bind (Deploy.follows_loadProject.onDiskWhile
    (Run.only_ofProgram ⟨trivial, fun _ => trivial⟩) .begun) ?_
  rintro p t₁ ⟨rfl, hproject⟩
  refine .bind ((Run.follows_onDisk_of_idle (Run.idle_emit id)).onDiskWhile
    (Run.idle_emit id) .begun) ?_
  rintro _ t₂ rfl
  refine .bind (follows_removeAll hlayout hlimited hproject rfl rfl) ?_
  rintro r t₃ ⟨rfl, hstack⟩
  have hforget : (Tracking.forget stage).Follows
      (site.onDiskWhile (Underway site (s.waiting patience) top stage t₂)) (fun _ t' =>
        t' = withoutStage site (s.waiting patience) stage (stage.stackName p.name) t₂ ∧
        (site.records.delete stage
          (withoutStack site (s.waiting patience) (stage.stackName p.name) t₂)).1 = .ok ())
      (withoutStack site (s.waiting patience) (stage.stackName p.name) t₂) := by
    refine Run.follows_request (r := .record (.delete stage)) (.withoutStack hproject) ?_
    intro a t' ha x hx
    have ha : site.records.delete stage
      (withoutStack site (s.waiting patience) (stage.stackName p.name) t₂) = (a, t') := ha
    rw [withoutStage, ha]
    exact ⟨rfl, hx⟩
  refine .bind hforget ?_
  rintro _ t₄ ⟨rfl, hforgotten⟩
  refine .bind ((Run.follows_onDisk_of_idle (Run.idle_emit id)).onDiskWhile
    (Run.idle_emit id) (.withoutStage hproject)) ?_
  rintro _ t₅ rfl
  exact Run.follows_pure ⟨p, ⟨hproject, hstack, hforgotten⟩, rfl⟩

/-! ## What is left -/

/-- Where destroying a stage takes something away. -/
def Taken (site : Site) (work : Location) (stage : Stage) (stack : String) (l : Location) : Prop :=
  site.cloud.objects.bucketsPlace work <+: l ∨ l = site.cloud.provider.stackPlace work stack ∨
    l = site.records.place work stage

theorem Layout.within (h : Layout site top t) : Within t.workDir top site.cloud.provider.root := by
  obtain ⟨A, hA⟩ := h.buckets
  exact h.root ▸ hA.within

theorem Layout.tidy (h : Layout site top t) : t.Tidy top := by
  obtain ⟨A, hA⟩ := h.buckets
  exact hA.tidy

theorem Layout.sameRoot (h : Layout site top t) :
    site.cloud.provider.objects.root = site.cloud.provider.root := by
  rw [h.provider, h.root]

theorem Layout.touched_beside (hlayout : Layout site top t) {bucket : String}
    (h : SameBeside (site.cloud.objects.bucketPlace t.workDir bucket) t t') :
    Touched top (top <+: ·) t t' := by
  have hspot : top <+: site.cloud.objects.bucketPlace t.workDir bucket := by
    rw [ObjectStore.bucketPlace_eq, ObjectStore.bucketsPlace, List.append_assoc, hlayout.root]
    exact hlayout.within.below.trans (List.prefix_append _ _)
  exact ⟨h.work, fun l hl => .inl (h.entry (ObjectStore.bucketPlace_ne_nil _)
    fun hin => hl (hspot.trans hin))⟩

theorem pruned_cleared (bucket : String) :
    Pruned (site.cloud.objects.bucketsPlace t.workDir <+: ·) t
      (Artifacts.cleared site.cloud.objects bucket t) := by
  unfold Artifacts.cleared
  split
  · refine (pruned_dropAll (ObjectStore.bucketPlace_ne_nil _)).mono fun l hl => ?_
    rw [ObjectStore.bucketPlace_eq] at hl
    exact (List.prefix_append _ _).trans hl
  · exact .refl ..

/-- A bucket that was taken down is not there. -/
theorem readIndex_cleared {patience : Nat} {bucket : String}
    (hname : ObjectStore.isBucketName bucket = true)
    (h : Artifacts.Midway site.cloud.objects top patience bucket t
      (Artifacts.cleared site.cloud.objects bucket t)) :
    site.cloud.objects.readIndex (Artifacts.cleared site.cloud.objects bucket t) bucket =
      .error (.noSuchBucket bucket) := by
  obtain ⟨A, hA, -⟩ := h.buckets
  refine hA.readIndex_of_absent hname ?_
  -- were it there, it could be taken down once more
  cases hB : A bucket with
  | none => rfl
  | some B =>
    have hexists : site.cloud.objects.bucketExists
        (Artifacts.cleared site.cloud.objects bucket t) bucket = true := by
      rw [hA.bucketExists hname, hB]
      rfl
    have hsame := h.cleared
    rw [Artifacts.cleared, if_pos hexists] at hsame
    have hdir := hA.dir hB
    rw [← hsame, entry?_dropAll (ObjectStore.bucketPlace_ne_nil _)] at hdir
    simp [FileTree.dropAll] at hdir

/-- The disk between the bucket and the stack. -/
theorem Removed.withoutBucket_spec (h : Removed site w top stack t) (hlayout : Layout site top t) :
    (∃ A, site.cloud.objects.Represents top UInt64.size A (withoutBucket site w stack t)) ∧
      Pruned (site.cloud.objects.bucketsPlace t.workDir <+: ·) t (withoutBucket site w stack t) := by
  obtain ⟨found, hfound⟩ := h.found
  cases found with
  | notFound attempts =>
    rw [withoutBucket, hfound]
    exact ⟨hlayout.buckets, .refl ..⟩
  | found bucket =>
    obtain ⟨-, -, hmidway⟩ := h.bucket bucket hfound
    obtain ⟨A, hA, -⟩ := hmidway.buckets
    rw [withoutBucket, hfound]
    exact ⟨⟨A, hA⟩, pruned_cleared bucket⟩

/-- The disk after the stack. -/
theorem Removed.withoutStack_spec (h : Removed site w top stack t) (hlayout : Layout site top t)
    (hstack : StackProvider.Contained stack) (stage : Stage) {t' : FileTree}
    (ht' : (site.cloud.provider.delete stack (withoutBucket site w stack t)).2 = t') :
    t'.Tidy top ∧ site.cloud.provider.status t' stack = .ok .absent ∧
      Pruned (Taken site t.workDir stage stack) (withoutBucket site w stack t) t' := by
  obtain ⟨⟨A, hA⟩, hpruned⟩ := h.withoutBucket_spec hlayout
  obtain ⟨st, hst, hfailure⟩ := h.gone
  rw [ht'] at hst
  obtain ⟨htidy, hload, hpruned'⟩ := StackProvider.gone_of_delete (hlayout.provider.symm ▸ hA)
    (Nat.le_refl _) hlayout.sameRoot hstack
    (Prod.ext h.deleted ht') hst hfailure
  refine ⟨htidy, ?_, hpruned'.mono fun l hl => ?_⟩
  · rw [StackProvider.status, hload]
  · rw [hpruned.work, hlayout.provider] at hl
    exact hl.imp id .inl

theorem Taken.below {l : Location} (hlayout : Layout site top t)
    (hstack : StackProvider.Contained stack) (h : Taken site t.workDir stage stack l) :
    top <+: l := by
  rcases h with h | rfl | rfl
  · refine (hlayout.root ▸ hlayout.within.below).trans ((List.prefix_append _ _).trans h)
  · exact (StackProvider.below_stack hlayout.within hstack).below
  · exact (RecordStore.below_record hlayout.records stage).below

/-- The project is out of reach. -/
theorem load_of_taken (hlayout : Layout site top t) (hstack : StackProvider.Contained stack)
    (ht' : t'.Tidy top) (h : Pruned (Taken site t.workDir stage stack) t t') :
    site.descriptors.load t' = site.descriptors.load t :=
  Deploy.load_eq_of_beyond hlayout.descriptor ht'
    (h.touched.mono fun _ hl => hl.below hlayout hstack)

/-- Whatever happens to a bucket, the same is found out about a stack. -/
theorem reads_of_beside (hlayout : Layout site top t) (hstack : StackProvider.Contained stack)
    {bucket : String} (ht' : t'.Tidy top)
    (h : SameBeside (site.cloud.objects.bucketPlace t.workDir bucket) t t') :
    site.descriptors.load t' = site.descriptors.load t ∧
      site.cloud.provider.status t' stack = site.cloud.provider.status t stack ∧
      Lifecycle.lookUp w site.cloud.provider t' (bucketExport stack) =
        Lifecycle.lookUp w site.cloud.provider t (bucketExport stack) := by
  have htouched := hlayout.touched_beside h
  have hroot := hlayout.sameRoot
  rw [← hlayout.provider] at h
  refine ⟨Deploy.load_eq_of_beyond hlayout.descriptor ht' htouched, ?_, ?_⟩
  · exact StackProvider.status_beside hlayout.tidy ht' hlayout.within hroot h hstack
  · exact Lifecycle.lookUp_congr (StackProvider.listExports_beside hlayout.tidy ht'
      hlayout.within hroot h hlayout.names)

/-- What happens to a bucket leaves a disk on which stages can be destroyed. -/
theorem Layout.beside (hlayout : Layout site top t) {A : VersionedStore} {bucket : String}
    (hA : site.cloud.objects.Represents top UInt64.size A t')
    (h : SameBeside (site.cloud.objects.bucketPlace t.workDir bucket) t t') :
    Layout site top t' := by
  have htouched := hlayout.touched_beside h
  have hload := Deploy.load_eq_of_beyond hlayout.descriptor hA.tidy htouched
  refine ⟨⟨A, hA⟩, hlayout.provider, hlayout.root, h.work ▸ hlayout.records,
    h.work ▸ hlayout.apart, hlayout.descriptor.of_touched hA.tidy htouched, fun p hp => ?_, ?_⟩
  · exact hlayout.contained p (hload ▸ hp)
  · rw [← hlayout.provider] at h
    rw [StackProvider.stackNames_beside hlayout.tidy hA.tidy hlayout.within hlayout.sameRoot h]
    exact hlayout.names

namespace Completed

variable (h : Completed site w top stage t p r) (hlayout : Layout site top t)

include h hlayout

theorem contained : StackProvider.Contained (stage.stackName p.name) :=
  hlayout.contained p h.project stage

theorem withoutStack_spec :
    (withoutStack site w (stage.stackName p.name) t).Tidy top ∧
      Pruned (Taken site t.workDir stage (stage.stackName p.name)) t
        (withoutStack site w (stage.stackName p.name) t) ∧
      ∃ st, site.cloud.provider.status (withoutStack site w (stage.stackName p.name) t)
        (stage.stackName p.name) = .ok st ∧ st.isGone = true := by
  obtain ⟨st, hst, -, ⟨hgone, -⟩ | ⟨hstands, hremoved, -⟩⟩ := h.stack
  · rw [withoutStack_of_gone hst hgone]
    exact ⟨hlayout.tidy, .refl .., st, hst, hgone⟩
  · rw [withoutStack_of_stands hst hstands]
    obtain ⟨-, hpruned⟩ := hremoved.withoutBucket_spec hlayout
    obtain ⟨htidy, hstatus, hpruned'⟩ :=
      hremoved.withoutStack_spec hlayout (h.contained hlayout) stage rfl
    exact ⟨htidy, (hpruned.mono fun _ => .inl).trans hpruned', .absent, hstatus, rfl⟩

omit hlayout in
theorem forgets : site.records.delete stage (withoutStack site w (stage.stackName p.name) t) =
    (.ok (), withoutStage site w stage (stage.stackName p.name) t) :=
  Prod.ext h.forgotten rfl

/-- The record goes, and nothing else with it. -/
theorem withoutStage_spec :
    (withoutStage site w stage (stage.stackName p.name) t).Tidy top ∧
      Pruned (· = site.records.place t.workDir stage)
        (withoutStack site w (stage.stackName p.name) t)
        (withoutStage site w stage (stage.stackName p.name) t) ∧
      FileTree.exists? (withoutStage site w stage (stage.stackName p.name) t)
        (site.records.path stage) = false := by
  obtain ⟨htidy, hpruned, -⟩ := h.withoutStack_spec hlayout
  have hforgets := h.forgets
  have hrecords := hpruned.work.symm ▸ hlayout.records
  have hpruned' := RecordStore.pruned_delete htidy hrecords hforgets
  rw [hpruned.work] at hpruned'
  exact ⟨(RecordStore.delete_spec htidy hrecords hforgets).1, hpruned',
    RecordStore.missing_of_delete htidy hrecords hforgets⟩

theorem pruned : Pruned (Taken site t.workDir stage (stage.stackName p.name)) t
    (withoutStage site w stage (stage.stackName p.name) t) := by
  obtain ⟨-, hpruned, -⟩ := h.withoutStack_spec hlayout
  obtain ⟨-, hpruned', -⟩ := h.withoutStage_spec hlayout
  refine hpruned.trans (hpruned'.mono ?_)
  rintro l rfl
  exact .inr (.inr rfl)

theorem gone : ∃ st, site.cloud.provider.status
    (withoutStage site w stage (stage.stackName p.name) t) (stage.stackName p.name) = .ok st ∧
      st.isGone = true := by
  obtain ⟨htidy, hpruned, st, hst, hgone⟩ := h.withoutStack_spec hlayout
  obtain ⟨htidy', hpruned', -⟩ := h.withoutStage_spec hlayout
  refine ⟨st, ?_, hgone⟩
  rw [← hst, StackProvider.status, StackProvider.status, StackProvider.load_congr htidy htidy'
    (hpruned.work.symm ▸ hlayout.within) (h.contained hlayout) hpruned'.work (hpruned'.same ?_)]
  intro heq
  refine RecordStore.not_inStack_place site.records site.cloud.provider t.workDir stage
    (stage.stackName p.name) (.inl ?_)
  rw [← heq, hpruned.work]

/-- Nothing is left of the deployment bucket that was resolved. -/
theorem bucket_gone {bucket : String} (hbucket : r.bucket = some bucket) :
    site.cloud.objects.readIndex (withoutStage site w stage (stage.stackName p.name) t) bucket =
      .error (.noSuchBucket bucket) := by
  obtain ⟨st, hst, -, ⟨-, hnone⟩ | ⟨hstands, hremoved, hresolved⟩⟩ := h.stack
  · rw [hnone] at hbucket
    cases hbucket
  have hfound := (hresolved bucket).1 hbucket
  obtain ⟨hname, -, hmidway⟩ := hremoved.bucket bucket hfound
  obtain ⟨⟨A, hA⟩, -⟩ := hremoved.withoutBucket_spec hlayout
  obtain ⟨htidy, -, hpruned⟩ := hremoved.withoutStack_spec hlayout (h.contained hlayout) stage
    (withoutStack_of_stands hst hstands).symm
  obtain ⟨htidy', hpruned', -⟩ := h.withoutStage_spec hlayout
  have hmissing := readIndex_cleared hname hmidway
  have hsame : withoutBucket site w (stage.stackName p.name) t =
      Artifacts.cleared site.cloud.objects bucket t := by
    rw [withoutBucket, hfound]
  rw [← hsame, ObjectStore.readIndex_of_missing hname] at hmissing
  rw [ObjectStore.readIndex_of_missing hname]
  have hbelow := (ObjectStore.below_index hA.within (ObjectStore.bucketDir_of_name hname)).1
  refine hpruned'.not_exists htidy htidy' (hbelow.of_work hpruned.work) ?_
  exact hpruned.not_exists hA.tidy htidy hbelow hmissing

/-- What belongs to another stage is not taken. -/
theorem not_taken {other : Stage} (hother : other ≠ stage) :
    ¬Taken site t.workDir stage (stage.stackName p.name)
        (site.cloud.provider.stackPlace t.workDir (other.stackName p.name)) ∧
      ¬Taken site t.workDir stage (stage.stackName p.name)
        (site.records.place t.workDir other) := by
  constructor
  · rintro (hin | heq | heq)
    · rw [← hlayout.provider] at hin
      exact StackProvider.not_bucket_stackPlace hlayout.sameRoot
        (hlayout.contained p h.project other) hin
    · exact hother (StackProvider.stackPlace_inj heq)
    · exact RecordStore.not_inStack_place site.records site.cloud.provider t.workDir stage
        (other.stackName p.name) (.inl heq.symm)
  · rintro (hin | heq | heq)
    · exact hlayout.apart other hin
    · exact RecordStore.not_inStack_place site.records site.cloud.provider t.workDir other
        (stage.stackName p.name) (.inl heq)
    · exact hother (RecordStore.place_inj heq)

end Completed

end Rollout.Destroy
