import Rollout.Proofs.Record.Faithful
import Rollout.Proofs.Run.FleetSafety
import Rollout.Proofs.Run.Interleaved
import Rollout.Proofs.Run.Resumption
import Rollout.Proofs.Run.Scheduling
import Rollout.Proofs.Run.Trust

/-!
The disk as the host of a fleet. What the rules of a fleet demand of the answers to a run, a cloud
and records on one disk keep to: of the objects and the records that follows from how the store and
the records answer, and of the rest from what lies on the machine of the run.
-/

namespace Rollout

open FileTree Outcome

namespace DiskCloud

/-- The log is no record. -/
theorem LogsAtRoot.ne_place {c : DiskCloud} {work : Location} (h : c.LogsAtRoot)
    (records : RecordStore) (stage : Stage) :
    c.hooks.log.place work ≠ records.place work stage := by
  intro heq
  have hlast := RecordStore.lastChar?_place records work stage
  rw [← heq, h.place, RecordStore.lastChar?, List.getLast?_concat] at hlast
  exact absurd hlast (by decide)

end DiskCloud

namespace Fleet

variable {ι μ α : Type} {F : Fleet ι} {post : Post ι μ} {cloud : DiskCloud}
  {records : μ → RecordStore} {top : Location} {A : VersionedStore} {s : Shared μ}
  {t t' : FileTree} {S : Location → Prop}

/-! ## What a disk has of what runs share -/

/-- What runs share, as it is on a disk: the current objects of the deployment bucket, and the
record of the stage on each machine, as far as it can be loaded. -/
structure Shows (F : Fleet ι) (cloud : DiskCloud) (records : μ → RecordStore) (s : Shared μ)
    (t : FileTree) : Prop where
  objects (key : String) : s.objects key = cloud.objects.content t F.bucket key
  records (m : μ) (r : Record) : (records m).load t F.stage = .ok r → r = s.records m

/-- The name of the stack that a run deploys to. -/
def stackOf (F : Fleet ι) (post : Post ι μ) : String :=
  F.stage.stackName (F.compilation post.compilation).project.name

/-- A disk that a run of a fleet is on: the cloud has the buckets `A`, the state directories of the
machines lie apart, and no record is among the buckets. -/
structure Houses (F : Fleet ι) (post : Post ι μ) (cloud : DiskCloud) (records : μ → RecordStore)
    (top : Location) (A : VersionedStore) (t : FileTree) : Prop where
  buckets : cloud.objects.Represents top UInt64.size A t
  nameable : cloud.objects.Nameable UInt64.size F.bucket
  settled : (post.settings.site cloud).Settled top t
  logs : cloud.LogsAtRoot
  stack : StackProvider.Contained (F.stackOf post)
  own : records post.machine = (post.settings.site cloud).records
  within (m : μ) : Within t.workDir top (records m).stateDir
  apart (m : μ) (stage : Stage) : m ≠ post.machine →
    (records post.machine).place t.workDir stage ≠ (records m).place t.workDir F.stage
  aside (m : μ) :
    ¬cloud.objects.bucketsPlace t.workDir <+: (records m).place t.workDir F.stage ∧
      ¬(records m).place t.workDir F.stage <+: cloud.objects.bucketsPlace t.workDir

/-- What lies on the machine of a run: a build of the run's compilation, of whose files none goes
where an artifact goes. The stack exports the bucket of the fleet. -/
structure Builds (F : Fleet ι) (post : Post ι μ) (cloud : DiskCloud) (t : FileTree) : Prop where
  project (p : Project) : (post.settings.site cloud).descriptors.load t = .ok p →
    p = (F.compilation post.compilation).project
  fingerprint (f : FunctionSpec) : (post.settings.site cloud).build.fingerprint t f =
    (F.compilation post.compilation).fingerprint f
  artifact (artifact : String) (body : ByteArray) :
    t.read (post.settings.buildDir.joinText artifact) = .ok body →
      body = (F.compilation post.compilation).artifact artifact
  files : ∀ u ∈ (F.compilation post.compilation).project.fileUploadsFor F.stage,
    u.bucket = F.bucket → ∀ found us, t.uploadSource (post.settings.projectRoot.join u.source) =
      .ok found → Artifacts.pendingUploads (post.settings.projectRoot.join u.source)
        (Artifacts.trimTarget u.target) found = .ok us → ∀ v ∈ us, F.Aside v.key
  exported (token : Option String) (page : ExportPage) :
    cloud.provider.listExports t token = .ok page → ∀ e ∈ page.exports,
      e.name = bucketExport (F.stackOf post) → e.value = F.bucket

/-- What a request has to be for the rules to speak of its answer: what is asked of the store is
what the store is meant for, a stack is that of the run, and a record is of the current format. -/
def Suits (F : Fleet ι) (post : Post ι μ) (cloud : DiskCloud) (t : FileTree) : Request → Prop
  | .store c => cloud.objects.Allows UInt64.size t (.call c)
  | .stack (.create name _) => name = F.stackOf post
  | .stack (.update name _) => name = F.stackOf post
  | .stack (.delete name) => name = F.stackOf post
  | .record (.save _ r) => r.format = Record.currentFormat ∧ r.functions.Ordered
  | _ => True

/-- A request that suits, and what a disk answers that a run of a fleet is on. -/
def Serves (F : Fleet ι) (cloud : DiskCloud) (records : μ → RecordStore) (top : Location)
    (post : Post ι μ) (r : Request) (t : FileTree) (a : r.Answer) (t' : FileTree) : Prop :=
  (∃ A, F.Houses post cloud records top A t) ∧ F.Builds post cloud t ∧ F.Suits post cloud t r ∧
    (post.settings.site cloud).Answers r t a t'

/-! ## The store -/

variable {bucket key : String}

theorem emptyIfMissing_ok {a : α} : F.EmptyIfMissing bucket s (.ok a) := by
  rintro b ⟨⟩

section Meant

variable (hs : ∀ key, s.objects key = A.object F.bucket key)

include hs

theorem bare_of_missing (h : A F.bucket = none) : s.Bare := by
  intro key
  rw [hs, VersionedStore.object, h]
  rfl

/-- Only of a bucket without objects the store says that it is missing. -/
theorem emptyIfMissing_look {α : Type} (f : VersionedBucket → α) :
    F.EmptyIfMissing bucket s (A.look bucket f) := by
  rintro b hmissing rfl
  rw [VersionedStore.look] at hmissing
  split at hmissing
  · cases hmissing
  · rename_i hnone
    exact bare_of_missing hs hnone

/-- A bucket that changes in one key alters that key. -/
theorem alters_change {f : VersionedBucket → VersionedBucket}
    (hf : ∀ B k, key ≠ k → (f B).get k = B.get k) :
    ∃ s', F.Alters bucket key s s' ∧ F.EmptyIfMissing bucket s' (A.change bucket f).1 ∧
      s'.records = s.records ∧
      ∀ k, s'.objects k = (A.change bucket f).2.object F.bucket k := by
  cases hA : A bucket with
  | none =>
    rw [VersionedStore.change, hA]
    refine ⟨s, .inl rfl, ?_, rfl, hs⟩
    rintro b - rfl
    exact bare_of_missing hs hA
  | some B =>
    have hok : (A.change bucket f).1 = .ok () := by rw [VersionedStore.change_of_some hA]
    rw [hok]
    by_cases hbucket : bucket = F.bucket
    · subst hbucket
      refine ⟨{ s with objects := Function.update s.objects key ((f B).get key) },
        .inr ⟨rfl, _, rfl⟩, emptyIfMissing_ok, rfl, fun k => ?_⟩
      rw [VersionedStore.object_change hA (hf B), ← funext hs]
    · exact ⟨s, .inl rfl, emptyIfMissing_ok, rfl,
        fun k => by rw [VersionedStore.object_change_of_ne hbucket, hs]⟩

/-- The store that is meant answers as the rules of a fleet demand. -/
theorem answers_meant [DecidableEq μ] (post : Post ι μ) (size : Nat) (c : StoreCall) :
    ∃ s', F.Answers post (.store c) s (A.answer size c).1 s' ∧ s'.records = s.records ∧
      ∀ k, s'.objects k = (A.answer size c).2.object F.bucket k := by
  cases c with
  | put bucket key body =>
    show ∃ s', ((s' = s ∧ ((A.change bucket (·.put key body)).1 = .ok () → bucket ≠ F.bucket)) ∨
      (bucket = F.bucket ∧ s' = s.put key body)) ∧ s'.records = s.records ∧
        ∀ k, s'.objects k = (A.change bucket (·.put key body)).2.object F.bucket k
    cases hA : A bucket with
    | none =>
      rw [VersionedStore.change, hA]
      exact ⟨s, .inl ⟨rfl, by rintro ⟨⟩⟩, rfl, hs⟩
    | some B =>
      by_cases hbucket : bucket = F.bucket
      · subst hbucket
        refine ⟨s.put key body, .inr ⟨rfl, rfl⟩, rfl, fun k => ?_⟩
        rw [VersionedStore.object_change hA fun k hk => VersionedBucket.get_put_of_ne hk body,
          B.get_put, Shared.put_objects, funext hs]
      · exact ⟨s, .inl ⟨rfl, fun _ => hbucket⟩, rfl,
          fun k => by rw [VersionedStore.object_change_of_ne hbucket, hs]⟩
  | get bucket key =>
    refine ⟨s, ⟨rfl, ?_⟩, rfl, hs⟩
    rintro found hfound rfl
    have hfound : A.look F.bucket (·.get key) = .ok found := hfound
    rw [VersionedStore.look] at hfound
    split at hfound
    · rename_i B hA
      cases hfound
      rw [hs, VersionedStore.object, hA]
      rfl
    · cases hfound
  | url bucket key => exact ⟨s, rfl, rfl, hs⟩
  | listObjects bucket token => exact ⟨s, ⟨rfl, emptyIfMissing_look hs _⟩, rfl, hs⟩
  | delete bucket key =>
    obtain ⟨s', halters, hempty, hrest⟩ :=
      alters_change hs fun B k hk => VersionedBucket.get_delete_of_ne hk
    exact ⟨s', ⟨halters, hempty⟩, hrest⟩
  | listVersions bucket cursor => exact ⟨s, ⟨rfl, emptyIfMissing_look hs _⟩, rfl, hs⟩
  | deleteVersion bucket key id =>
    obtain ⟨s', halters, hempty, hrest⟩ :=
      alters_change hs fun B k hk => VersionedBucket.get_deleteRevision_of_ne hk id
    exact ⟨s', ⟨halters, hempty⟩, hrest⟩
  | deleteBucket bucket =>
    show ∃ s', (((s' = s ∧ ((A.deleteBucket bucket).1 = .ok () → bucket ≠ F.bucket)) ∨
      (bucket = F.bucket ∧ s' = s.cleared)) ∧
        F.EmptyIfMissing bucket s' (A.deleteBucket bucket).1) ∧ s'.records = s.records ∧
        ∀ k, s'.objects k = (A.deleteBucket bucket).2.object F.bucket k
    unfold VersionedStore.deleteBucket
    cases hA : A bucket with
    | none =>
      refine ⟨s, ⟨.inl ⟨rfl, by rintro ⟨⟩⟩, ?_⟩, rfl, hs⟩
      rintro b - rfl
      exact bare_of_missing hs hA
    | some B =>
      cases hempty : B.keys.isEmpty with
      | false =>
        simp only [hempty]
        exact ⟨s, ⟨.inl ⟨rfl, by rintro ⟨⟩⟩, by rintro b ⟨⟩⟩, rfl, hs⟩
      | true =>
        simp only [hempty, if_true]
        -- it is only taken down without a key, so there was nothing to clear
        by_cases hbucket : bucket = F.bucket
        · subst hbucket
          refine ⟨s.cleared, ⟨.inr ⟨rfl, rfl⟩, emptyIfMissing_ok⟩, rfl, fun k => ?_⟩
          rw [VersionedStore.object, Function.update_self]
          rfl
        · refine ⟨s, ⟨.inl ⟨rfl, fun _ => hbucket⟩, emptyIfMissing_ok⟩, rfl, fun k => ?_⟩
          rw [hs, VersionedStore.object, VersionedStore.object,
            Function.update_of_ne (Ne.symm hbucket)]

end Meant

/-- A store on disk has the content of the store that is meant. -/
theorem content_eq_object {objects : ObjectStore}
    (h : objects.Represents top UInt64.size A t) (hname : ObjectStore.isBucketName bucket = true)
    (key : String) : objects.content t bucket key = A.object bucket key := by
  rw [ObjectStore.content, h.get (Nat.le_refl _) hname, VersionedStore.look, VersionedStore.object]
  cases A bucket with
  | none => rfl
  | some B => rfl

theorem room_of_represents {objects : ObjectStore} (h : objects.Represents top UInt64.size A t) :
    objects.Room t 0 := by
  refine ⟨by decide, fun bucket dir i hread => ?_⟩
  have hname := ObjectStore.isBucketName_of_readable ⟨_, hread⟩
  cases hA : A bucket with
  | none =>
    rw [h.readIndex_of_absent hname hA] at hread
    cases hread
  | some B =>
    rw [h.readIndex (Nat.le_refl _) hA] at hread
    cases hread
    exact (h.held bucket B hA).room

/-- What the store may be asked removes versions by the names of directory entries. -/
theorem proper_of_allows {objects : ObjectStore} {a : StoreAction} (h : objects.Steady top t)
    (ha : objects.Allows UInt64.size t a) : a.Proper := by
  cases a with
  | call c =>
    cases c with
    | deleteVersion bucket key id =>
      obtain ⟨-, dir, i, hread, v, hv, rfl⟩ := ha
      exact h.isEntry_id hread hv
    | _ => trivial
  | _ => trivial

namespace Houses

variable (hh : F.Houses post cloud records top A t)

include hh

theorem steady : cloud.objects.Steady top t := hh.settled.steady

theorem provider : cloud.provider.objects = cloud.objects := hh.settled.provider

theorem rooted : cloud.provider.objects.root = cloud.provider.root := hh.settled.rooted

/-- Whatever becomes of the buckets, the rest of a disk that a run is on stays as it is. -/
theorem of_represents {A' : VersionedStore}
    (h' : cloud.objects.Represents top UInt64.size A' t') (hwork : t'.workDir = t.workDir) :
    F.Houses post cloud records top A' t' where
  buckets := h'
  nameable := hh.nameable
  settled := ⟨h'.steady (Nat.le_refl _), hh.settled.provider, hh.settled.root,
    hwork ▸ hh.settled.records⟩
  logs := hh.logs
  stack := hh.stack
  own := hh.own
  within m := hwork ▸ hh.within m
  apart := hwork ▸ hh.apart
  aside := hwork ▸ hh.aside

/-- A record is not in a bucket, and a bucket not in a record. -/
theorem aside_bucket (m : μ) (bucket : String) :
    ¬cloud.objects.bucketPlace t.workDir bucket <+: (records m).place t.workDir F.stage ∧
      ¬(records m).place t.workDir F.stage <+: cloud.objects.bucketPlace t.workDir bucket := by
  obtain ⟨hnot, hnot'⟩ := hh.aside m
  rw [ObjectStore.bucketPlace_eq]
  refine ⟨fun h => hnot ((List.prefix_append _ _).trans h), fun h => ?_⟩
  rcases List.prefix_concat_iff.1 h with heq | h
  · exact hnot (heq ▸ List.prefix_append _ _)
  · exact hnot' h

end Houses

section Answers

variable (hh : F.Houses post cloud records top A t) (hs : F.Shows cloud records s t)

include hh hs

/-- What runs share is the same if the objects and the records were left alone. -/
theorem Shows.of_kept {K : String → String → Prop} (hkept : cloud.objects.Kept top S K 0 t t')
    (hK : ∀ key, ¬K F.bucket key) (hS : ∀ m, ¬S ((records m).place t.workDir F.stage)) :
    F.Shows cloud records s t' where
  objects key := by
    rw [hs.objects, hkept.content_eq (room_of_represents hh.buckets) (hK key)]
  records m r hload :=
    hs.records m r (RecordStore.load_of_touched hh.steady.tidy hkept.steady.tidy
      (hh.within m) hkept.touched (hS m) hload)

/-- What runs share stays when a stack goes: of the buckets that go with it none has an object. -/
theorem Shows.of_delete {r : Except ProviderError Unit}
    (hrun : cloud.provider.delete (F.stackOf post) t = (r, t')) : F.Shows cloud records s t' := by
  have hbuckets {doc : StackDoc} {r₁ : Except ProviderError Unit} {t₁ : FileTree}
      (hdelete : cloud.provider.deleteBuckets (TextMap.values doc.buckets) t = (r₁, t₁)) :
      (∃ A₁, F.Houses post cloud records top A₁ t₁) ∧ F.Shows cloud records s t₁ := by
    obtain ⟨⟨A₁, h₁, hobjects⟩, hpruned⟩ :=
      StackProvider.deleteBuckets_spec (hh.provider.symm ▸ hh.buckets) (Nat.le_refl _) _ hdelete
    rw [hh.provider] at h₁ hpruned
    refine ⟨⟨A₁, hh.of_represents h₁ hpruned.work⟩, fun key => ?_, fun m r hload => ?_⟩
    · rw [hs.objects, content_eq_object hh.buckets hh.nameable.name,
        content_eq_object h₁ hh.nameable.name, hobjects]
    · exact hs.records m r (RecordStore.load_of_touched hh.steady.tidy h₁.tidy
        (hh.within m) hpruned.touched (hh.aside m).1 hload)
  -- a filled bucket keeps the stack, and then only its document changes
  rcases StackProvider.delete_cases hrun with ⟨rfl, -⟩ | ⟨doc, -, hremoves⟩
  · exact hs
  cases hremoves with
  | filled _ hsave =>
    have hkept := (StackProvider.save_spec (hh.provider.symm ▸ hh.steady) hh.rooted hh.stack).1
      _ _ hsave
    rw [hh.provider] at hkept
    exact hs.of_kept hh hkept (fun _ => id) fun m => RecordStore.not_inStack_place _ _ _ _ _
  | stuck _ hdelete => exact (hbuckets hdelete).2
  | @emptied _ _ t₁ _ _ hdelete hremove _ =>
    obtain ⟨⟨A₁, hh₁⟩, hs₁⟩ := hbuckets hdelete
    have hbelow := StackProvider.below_stack hh₁.settled.within hh.stack
    obtain ⟨ht', hpruned, -⟩ := Effect.remove_spec hh₁.steady.tidy hbelow hremove
    have hout : ∀ l, l = cloud.provider.stackPlace t₁.workDir (F.stackOf post) →
        ¬cloud.objects.InStore t₁.workDir l := by
      rintro l rfl
      rw [← hh₁.provider]
      exact StackProvider.not_inStore_stackPlace hh₁.rooted hh.stack
    exact hs₁.of_kept hh₁ (hh₁.steady.kept_of_beside ht' hpruned.touched hout) (fun _ => id)
      fun m heq => RecordStore.not_inStack_place (records m) cloud.provider _ _ _ (.inl heq)

variable [DecidableEq μ]

/-- The store on disk answers as the rules of a fleet demand. -/
theorem answers_store {c : StoreCall} {a : Except StoreError c.Result}
    (hc : cloud.objects.Allows UInt64.size t (.call c)) (ha : cloud.objects.answer c t = (a, t')) :
    ∃ s', F.Answers post (.store c) s a s' ∧ F.Shows cloud records s' t' := by
  have hsteady := hh.buckets.steady (Nat.le_refl _)
  have hsettled : cloud.objects.Settled top t := ⟨hsteady, hh.buckets.outside⟩
  obtain ⟨hreply, h'⟩ := hh.buckets.act (by decide) (Nat.le_refl _) (.call c) hc
  have haround := hsettled.act_around (proper_of_allows hsteady hc)
  rw [show cloud.objects.act (.call c) t = (a, t') from ha] at hreply h' haround
  have hobjects (key : String) : s.objects key = A.object F.bucket key := by
    rw [hs.objects, content_eq_object hh.buckets hh.nameable.name]
  -- the buckets that the disk represents say what becomes of the objects, and the records stand
  -- beside the bucket of the call
  obtain ⟨s', hanswers, hrecords, hobjects'⟩ :=
    answers_meant hobjects post cloud.objects.pageSize c
  have hreply : a = (A.answer cloud.objects.pageSize c).1 := hreply
  refine ⟨s', hreply ▸ hanswers, fun key => ?_, fun m r hload => ?_⟩
  · rw [hobjects', content_eq_object h' hh.nameable.name]
    rfl
  · rw [hrecords]
    refine hs.records m r ?_
    rwa [RecordStore.load_congr hsteady.tidy h'.tidy (hh.within m) haround.work
      (haround.entry _ fun l hl => hl ▸ hh.aside_bucket m _)] at hload

/-- What runs share after the record of a stage has changed on the machine of a run. -/
theorem Shows.recorded {stage : Stage} {rec : Record}
    (hkept : cloud.objects.Kept top (· = (records post.machine).place t.workDir stage)
      (fun _ _ => False) 0 t t') (hload : (records post.machine).load t' stage = .ok rec) :
    ∃ s', (s' = s ∧ stage ≠ F.stage ∨ stage = F.stage ∧ s' = s.save post.machine rec) ∧
      F.Shows cloud records s' t' := by
  by_cases hstage : stage = F.stage
  · subst hstage
    refine ⟨s.save post.machine rec, .inr ⟨rfl, rfl⟩, fun key => ?_, fun m r hr => ?_⟩
    · rw [Shared.save_objects, hs.objects, hkept.content_eq (room_of_represents hh.buckets) id]
    · rw [Shared.save_records]
      by_cases hm : m = post.machine
      · subst hm
        rw [hload] at hr
        rw [Function.update_self]
        exact (Except.ok.inj hr).symm
      · rw [Function.update_of_ne hm]
        exact hs.records m r (RecordStore.load_of_touched hh.steady.tidy hkept.steady.tidy
          (hh.within m) hkept.touched (fun heq => hh.apart m _ hm heq.symm) hr)
  · refine ⟨s, .inl ⟨rfl, hstage⟩, hs.of_kept hh hkept (fun _ => id) fun m heq => ?_⟩
    by_cases hm : m = post.machine
    · subst hm
      exact hstage (RecordStore.place_inj heq).symm
    · exact hh.apart m stage hm heq.symm

/-- The records on disk answer as the rules of a fleet demand. -/
theorem answers_record {c : RecordCall} {a : Except RecordError c.Result}
    (hc : F.Suits post cloud t (.record c))
    (ha : (records post.machine).answer c t = (a, t')) :
    ∃ s', F.Answers post (.record c) s a s' ∧ F.Shows cloud records s' t' := by
  have hsteady := hh.steady
  have hwithin := hh.within post.machine
  cases c with
  | load stage =>
    obtain ⟨rfl, rfl⟩ := Prod.mk.inj ha
    refine ⟨s, ⟨rfl, ?_⟩, hs⟩
    rintro r hr rfl
    exact hs.records _ r hr
  | save stage rec =>
    obtain ⟨ht', htouched, hdone, hfailed⟩ := RecordStore.save_spec hsteady.tidy hwithin ha
    have hkept := RecordStore.kept_of_save hsteady ht' htouched
    cases a with
    | error e =>
      exact ⟨s, .inl ⟨rfl, by rintro ⟨⟩⟩, hs.of_kept hh (hsteady.kept_of_dirs ht' (hfailed ⟨e, rfl⟩)
        (fun _ => False) (fun _ _ => False) 0) (fun _ => id) fun _ => id⟩
    | ok _ =>
      obtain ⟨husable, hentry⟩ := hdone rfl
      have hwithin' : Within t'.workDir top (records post.machine).stateDir :=
        htouched.work ▸ hwithin
      have hload := RecordStore.load_of_entry ht' hwithin' husable
        (show t'.entry? ((records post.machine).place t'.workDir stage) = _ by
          rw [htouched.work, hentry]) hc.1 hc.2
      obtain ⟨s', hcase, hs'⟩ := hs.recorded hh hkept hload
      exact ⟨s', hcase.imp (fun h => ⟨h.1, fun _ => h.2⟩) id, hs'⟩
  | delete stage =>
    -- what is not there loads as the empty record
    rcases RecordStore.load_of_delete hsteady.tidy hwithin ha with hload | ⟨rfl, hfailed⟩
    · have hpruned := RecordStore.pruned_delete hsteady.tidy hwithin ha
      have hkept := hsteady.kept_of_beside (RecordStore.delete_spec hsteady.tidy hwithin ha).1
        (S := (· = (records post.machine).place t.workDir stage))
        hpruned.touched
        (by rintro l rfl; exact RecordStore.not_inStore_place _ cloud.objects t.workDir stage)
      obtain ⟨s', hcase, hs'⟩ := hs.recorded hh hkept hload
      exact ⟨s', hcase.imp (fun h => ⟨h.1, fun _ => h.2⟩) id, hs'⟩
    · exact ⟨s, .inl ⟨rfl, fun hok => absurd hok hfailed⟩, hs⟩

/-- Whatever is asked of it that suits, the disk answers a run as the rules of a fleet demand. -/
theorem answers_of_suits (hb : F.Builds post cloud t) {r : Request} {a : r.Answer}
    (hr : F.Suits post cloud t r) (ha : (post.settings.site cloud).Answers r t a t') :
    ∃ s', F.Answers post r s a s' ∧ F.Shows cloud records s' t' := by
  have hin {name : String}
      (hkept : cloud.objects.Kept top (cloud.provider.InStack t.workDir name) (fun _ _ => False) 0
        t t') : F.Shows cloud records s t' :=
    hs.of_kept hh hkept (fun _ => id) fun m =>
      RecordStore.not_inStack_place (records m) cloud.provider t.workDir F.stage name
  cases r with
  | store c => exact answers_store hh hs hr ha
  | stack c =>
    cases c with
    | create name body =>
      obtain rfl : name = F.stackOf post := hr
      exact ⟨s, rfl, hin (Site.kept_of_create hh.settled hh.stack ha)⟩
    | update name url =>
      obtain rfl : name = F.stackOf post := hr
      exact ⟨s, rfl, hin (Site.kept_of_update hh.settled hh.stack ha)⟩
    | delete name =>
      obtain rfl : name = F.stackOf post := hr
      exact ⟨s, rfl, hs.of_delete hh ha⟩
    | status name =>
      obtain rfl : t = t' := (Prod.mk.inj ha).2
      exact ⟨s, rfl, hs⟩
    | listExports token =>
      obtain ⟨hlist, rfl⟩ := Prod.mk.inj ha
      exact ⟨s, ⟨rfl, fun page hpage => hb.exported token page (hlist.trans hpage)⟩, hs⟩
  | hook name =>
    obtain rfl : (cloud.hooks.invoke name t).2 = t' := (Prod.mk.inj ha).2
    obtain ⟨ht', htouched⟩ := HookInvoker.invoke_spec hh.steady.tidy
      (hh.logs.below hh.settled.within) (Prod.eta (cloud.hooks.invoke name t)).symm
    refine ⟨s, rfl, hs.of_kept hh (hh.steady.kept_of_beside ht' htouched ?_)
      (fun _ => id) fun m heq => hh.logs.ne_place _ _ heq.symm⟩
    rintro l rfl
    exact hh.logs.not_inStore hh.settled.root
  | record c => exact answers_record hh hs hr (hh.own ▸ ha)
  | onMachine c =>
    obtain ⟨rfl, rfl⟩ := ha
    cases c with
    | project => exact ⟨s, ⟨rfl, hb.project⟩, hs⟩
    | template kind stage => exact ⟨s, rfl, hs⟩
    | fingerprint f => exact ⟨s, ⟨rfl, hb.fingerprint f⟩, hs⟩
    | read path =>
      refine ⟨s, ⟨rfl, ?_⟩, hs⟩
      rintro artifact body rfl
      exact hb.artifact artifact body
    | source path =>
      refine ⟨s, ⟨rfl, ?_⟩, hs⟩
      rintro u hu hbucket rfl
      exact hb.files u hu hbucket
  | control c =>
    obtain rfl : t' = t := ha
    cases c <;> exact ⟨s, rfl, hs⟩

end Answers

theorem answers_of_serves [DecidableEq μ] {r : Request} {a : r.Answer}
    (hs : F.Shows cloud records s t) (h : F.Serves cloud records top post r t a t') :
    ∃ s', F.Answers post r s a s' ∧ F.Shows cloud records s' t' := by
  obtain ⟨⟨A, hh⟩, hb, hr, ha⟩ := h
  exact answers_of_suits hh hs hb hr ha

/-! ## Runs on a disk -/

/-- A step of a run on a disk: what the disk answers to a request that suits, or the decision. -/
inductive Steps (F : Fleet ι) (cloud : DiskCloud) (records : μ → RecordStore) (top : Location)
    (party : Party ι μ) : FileTree → Phase → FileTree → Prop where
  | deciding {r : Request} {next : r.Answer → Program (Except Failure Deploy.Prepared)}
      {a : r.Answer} {t t' : FileTree} :
    party.phase = .deciding (.ask r next) → F.Serves cloud records top party.post r t a t' →
      Steps F cloud records top party t (.deciding (next a)) t'
  | decide {p : Deploy.Prepared} {t : FileTree} :
    party.phase = .deciding (.done (.ok p)) →
      Steps F cloud records top party t (.decided p
        (Deploy.proceed party.post.settings party.waiting (party.options F) p).run) t
  | decided {p : Deploy.Prepared} {r : Request}
      {next : r.Answer → Program (Except Failure DeployReport)} {a : r.Answer} {t t' : FileTree} :
    party.phase = .decided p (.ask r next) → F.Serves cloud records top party.post r t a t' →
      Steps F cloud records top party t (.decided p (next a)) t'

/-- What runs make of a disk on which there was nothing of theirs, whatever the order of their
requests. -/
inductive Hosted (F : Fleet ι) (cloud : DiskCloud) (records : μ → RecordStore) (top : Location) :
    FileTree → List (Party ι μ) → Prop where
  | start {t : FileTree} : F.Shows cloud records .empty t → Hosted F cloud records top t []
  | join {t : FileTree} {parties : List (Party ι μ)} (post : Post ι μ) (patience : Nat)
      (skipHooks : Bool) :
    Hosted F cloud records top t parties →
      Hosted F cloud records top t (F.begin post patience skipHooks :: parties)
  | step {t t' : FileTree} {before after : List (Party ι μ)} {party : Party ι μ} {phase : Phase} :
    Hosted F cloud records top t (before ++ party :: after) →
      F.Steps cloud records top party t phase t' →
        Hosted F cloud records top t' (before ++ { party with phase } :: after)

variable [DecidableEq μ] {party : Party ι μ} {parties : List (Party ι μ)} {phase : Phase}

/-- A step on a disk is a step of the fleet. -/
theorem Steps.moves (h : F.Steps cloud records top party t phase t')
    (hs : F.Shows cloud records s t) :
    ∃ s', F.Moves party s phase s' ∧ F.Shows cloud records s' t' := by
  cases h with
  | deciding heq ha =>
    obtain ⟨s', ha, hs'⟩ := answers_of_serves hs ha
    exact ⟨s', .deciding heq ha, hs'⟩
  | decide heq => exact ⟨s, .decide heq, hs⟩
  | decided heq ha =>
    obtain ⟨s', ha, hs'⟩ := answers_of_serves hs ha
    exact ⟨s', .decided heq ha, hs'⟩

/-- What runs make of a disk, runs of the fleet lead to. -/
theorem Hosted.reached (h : F.Hosted cloud records top t parties) :
    ∃ s, F.Shows cloud records s t ∧ F.Reached ⟨s, parties⟩ := by
  induction h with
  | start hs => exact ⟨.empty, hs, .start⟩
  | join post patience skipHooks _ ih =>
    obtain ⟨s, hs, hreached⟩ := ih
    exact ⟨s, hs, hreached.join post patience skipHooks⟩
  | step _ hstep ih =>
    obtain ⟨s, hs, hreached⟩ := ih
    obtain ⟨s', hmoves, hs'⟩ := hstep.moves hs
    exact ⟨s', hs', hreached.move hmoves⟩

/-- However runs came in between each other on a disk, what a record of theirs says is genuine: the
artifacts of its functions are in the bucket, as they were built. -/
theorem Hosted.vouched (h : F.Hosted cloud records top t parties) {m : μ} {r : Record}
    {timestamp : String} (hload : (records m).load t F.stage = .ok r)
    (htimestamp : r.timestamp = some timestamp) :
    ∃ s, F.Shows cloud records s t ∧ F.Vouched s r := by
  obtain ⟨s, hs, hreached⟩ := h.reached
  obtain rfl := hs.records m r hload
  exact ⟨s, hs, (sound_of_reached hreached).1.vouched m timestamp htimestamp id⟩

/-! ## One run on a disk -/

/-- Whether a program that nothing comes between may end so on a disk. -/
def EndsOn (F : Fleet ι) (cloud : DiskCloud) (records : μ → RecordStore) (top : Location)
    (post : Post ι μ) : Program α → FileTree → α → FileTree → Prop
  | .done a, t, b, t' => b = a ∧ t' = t
  | .ask r next, t, b, t' => ∃ a t₁, F.Serves cloud records top post r t a t₁ ∧
    F.EndsOn cloud records top post (next a) t₁ b t'
  | .unfinished, _, _, _ => False

/-- How a program ends on a disk, it ends by the rules of the fleet. -/
theorem EndsOn.ends {p : Program α} {b : α} (h : F.EndsOn cloud records top post p t b t')
    (hs : F.Shows cloud records s t) :
    ∃ s', F.Ends post p s b s' ∧ F.Shows cloud records s' t' := by
  induction p generalizing s t with
  | done a =>
    obtain ⟨rfl, rfl⟩ := h
    exact ⟨s, ⟨rfl, rfl⟩, hs⟩
  | ask r next ih =>
    obtain ⟨a, t₁, ha, hend⟩ := h
    obtain ⟨s₁, ha, hs₁⟩ := answers_of_serves hs ha
    obtain ⟨s', hend, hs'⟩ := ih a hend hs₁
    exact ⟨s', ⟨a, s₁, ha, hend⟩, hs'⟩
  | unfinished => exact h.elim

end Fleet

/-! ## A fleet on a disk -/

namespace Fleet.OnDisk

open Destroy.Sample

/-- The build that lies on the disk. -/
def compilation : Compilation where
  project := project
  artifact artifact := (bare.read (settings.buildDir.joinText artifact)).toOption.getD .empty
  fingerprint := site.build.fingerprint bare

/-- A fleet of one compilation. -/
def fleet : Fleet Unit where
  stage := Destroy.Sample.stage
  bucket := "b"
  compilation _ := compilation
  valid _ := by decide
  distinct _ _ _ := rfl
  noSlash _ := by decide

/-- A run on the only machine. -/
def runner : Post Unit Unit := ⟨(), (), settings⟩

/-- The records of the machine. -/
def records (_ : Unit) : RecordStore := site.records

theorem allExports_bare : (site.cloud.provider.allExports bare).toOption =
    some [⟨"p-d-DeploymentBucketName", "b"⟩] := by
  decide +kernel

theorem place_records (stage : Stage) :
    site.records.place bare.workDir stage = ["t", "s", "records", stage.name ++ ".lock"] := by
  rw [RecordStore.place, RecordStore.path, (RecordStore.isEntry_lock stage).place_joinText,
    RecordStore.isEntry_records.place_joinText]
  rfl

theorem houses : fleet.Houses runner site.cloud records top VersionedStore.empty bare where
  buckets := represents_bare
  nameable := nameable
  settled := ⟨represents_bare.steady (Nat.le_refl _), rfl, rfl, layout_bare.records⟩
  logs := ⟨rfl⟩
  stack := StackProvider.contained_stackName (show '/' ∉ "p".toList by decide) Destroy.Sample.stage
  own := rfl
  within _ := layout_bare.records
  apart _ _ h := absurd rfl h
  aside _ := by
    rw [show (records _).place bare.workDir fleet.stage = _ from place_records _]
    show ¬["t", "c", "buckets"] <+: _ ∧ ¬_ <+: ["t", "c", "buckets"]
    simp

theorem builds : fleet.Builds runner site.cloud bare where
  project p hp := by
    rw [show (runner.settings.site site.cloud).descriptors.load bare = .ok project from
      load_bare] at hp
    exact (Except.ok.inj hp).symm
  fingerprint _ := rfl
  artifact artifact body hbody := by
    rw [show runner.settings = settings from rfl] at hbody
    simp [fleet, compilation, hbody, Except.toOption]
  files := by simp [fleet, compilation, project, Project.fileUploadsFor]
  exported token page hpage e he _ := by
    rw [StackProvider.listExports, Outcome.ok_of_toOption allExports_bare, Outcome.ok_bind] at hpage
    obtain ⟨start, -, hpage⟩ := Outcome.bind_eq_ok.1 hpage
    cases hpage
    have he := List.mem_of_mem_take (List.mem_of_mem_drop he)
    rw [List.mem_singleton.1 he]
    rfl

theorem shows : Shows fleet site.cloud records .empty bare where
  objects key := by
    rw [content_eq_object represents_bare (by decide)]
    rfl
  records _ r hload := by
    have habsent : bare.entry? (site.records.place bare.workDir fleet.stage) = none := by
      rw [place_records]
      decide
    rw [show (records _).load bare fleet.stage = _ from RecordStore.load_of_missing
      (RecordStore.missing_of_absent tidy_bare layout_bare.records habsent)] at hload
    exact (Except.ok.inj hload).symm

/-- A run that begins there and is told of its project. -/
example : ∃ rest s, Shows fleet site.cloud records s bare ∧
    fleet.Reached ⟨s, [{ fleet.begin runner 5 true with phase := .deciding rest }]⟩ := by
  have hbegun : fleet.Hosted site.cloud records top bare ([] ++ [fleet.begin runner 5 true]) :=
    (Hosted.start shows).join runner 5 true
  have htold : fleet.Serves site.cloud records top runner (.onMachine .project) bare
      (.ok project) bare :=
    ⟨⟨_, houses⟩, builds, trivial, load_bare, rfl⟩
  exact ⟨_, (hbegun.step (.deciding rfl htold)).reached⟩

end Fleet.OnDisk

end Rollout
