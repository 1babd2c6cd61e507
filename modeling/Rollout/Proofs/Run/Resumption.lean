import Rollout.Proofs.Run.Destruction
import Rollout.Proofs.Run.Meant

/-!
Destroying a stage that has been destroyed in part. At whatever request a run was cut off, a second
one finds out the same about what is left, and goes on from there to the same end.
-/

namespace Rollout.Destroy

open FileTree Outcome

section

variable {site : Site} {w : Waiting} {top : Location} {stage : Stage} {p : Project}
  {st : StackStatus} {t t' : FileTree} {r : DestroyReport}

/-! ## Destroying again -/

section Again

variable {d : DiskWorld site} {t₁ t₂ t₃ : FileTree}

theorem succeeds_loadProject (h : site.descriptors.load t = .ok p) :
    Deploy.loadProject.Succeeds d (fun p' t' => p' = p ∧ t' = t) t := by
  refine Run.succeeds_request (r := .onMachine .project) ?_
  rintro a t' ⟨rfl, rfl⟩
  exact ⟨p, h, rfl, rfl⟩

theorem succeeds_forget (h : site.records.delete stage t = (.ok (), t')) :
    (Tracking.forget stage).Succeeds d (fun _ t'' => t'' = t') t := by
  refine Run.succeeds_request (r := .record (.delete stage)) fun a t'' ha => ⟨(), ?_⟩
  have ha : site.records.delete stage t = (a, t'') := ha
  rw [h] at ha
  cases ha
  exact ⟨rfl, rfl⟩

theorem succeeds_of_removeAll {s : Settings} {patience : Nat} {Q : DestroyReport → Prop}
    (hproject : site.descriptors.load t = .ok p)
    (hremove : (removeAll (s.waiting patience) (stage.stackName p.name)
      ⟨stage.stackName p.name, stage, false, none, 0, []⟩).Succeeds d
        (fun r t' => Q r ∧ t' = t₁) t)
    (hforget : site.records.delete stage t₁ = (.ok (), t₂)) :
    (destroy s patience stage).Succeeds d (fun r t' => Q r ∧ t' = t₂) t := by
  refine (succeeds_loadProject hproject).bind ?_
  rintro p t ⟨rfl, rfl⟩
  refine (Run.succeeds_emit (Q := fun _ t' => t' = t) rfl).bind ?_
  rintro _ t rfl
  refine hremove.bind ?_
  rintro r t₁ ⟨hr, rfl⟩
  refine (succeeds_forget hforget).bind ?_
  rintro _ t₂ rfl
  refine (Run.succeeds_emit (Q := fun _ t' => t' = t₂) rfl).bind ?_
  rintro _ _ rfl
  exact Run.succeeds_pure ⟨hr, rfl⟩

/-- Where the stack is gone, the record is forgotten and that is all. -/
theorem succeeds_of_gone {s : Settings} {patience : Nat}
    (hproject : site.descriptors.load t = .ok p)
    (hst : site.cloud.provider.status t (stage.stackName p.name) = .ok st)
    (hgone : st.isGone = true) (hforget : site.records.delete stage t = (.ok (), t')) :
    (destroy s patience stage).Succeeds d
      (fun r t'' => r.stackExisted = false ∧ t'' = t') t := by
  refine succeeds_of_removeAll hproject ?_ hforget
  refine (Lifecycle.succeeds_status hst (Q := fun st' t' => st' = st ∧ t' = t) ⟨rfl, rfl⟩).bind ?_
  rintro _ _ ⟨rfl, rfl⟩
  simp only [hgone, if_true]
  exact Run.succeeds_pure ⟨rfl, rfl⟩

/-- Where the stack stands, its bucket is taken down from where it is, and the rest follows. -/
theorem succeeds_of_stands {s : Settings} {patience : Nat} {found : ExportLookup}
    (hd : d.Undisturbed) (hpatience : 0 < patience)
    (hproject : site.descriptors.load t = .ok p)
    (hst : site.cloud.provider.status t (stage.stackName p.name) = .ok st)
    (hstands : st.isGone = false)
    (hfound : Lifecycle.lookUp (s.waiting patience) site.cloud.provider t
      (bucketExport (stage.stackName p.name)) = some found)
    (hbucket : ∀ bucket, found = .found bucket →
      (Artifacts.tearDown patience bucket).Succeeds d (fun _ t' => t' = t₁) t)
    (hnone : ∀ attempts, found = .notFound attempts → t₁ = t)
    (hdelete : site.cloud.provider.delete (stage.stackName p.name) t₁ = (.ok (), t₂))
    (hgone : site.cloud.provider.status t₂ (stage.stackName p.name) = .ok .absent)
    (hforget : site.records.delete stage t₂ = (.ok (), t₃)) :
    (destroy s patience stage).Succeeds d (fun _ t' => t' = t₃) t := by
  refine Run.Succeeds.mono (succeeds_of_removeAll (Q := fun _ => True) hproject ?_ hforget)
    fun _ _ h => h.2
  refine (Lifecycle.succeeds_status hst (Q := fun st' t' => st' = st ∧ t' = t) ⟨rfl, rfl⟩).bind ?_
  rintro st t ⟨rfl, rfl⟩
  simp only [hstands]
  have hremove (r : DestroyReport) : (removeBucket (s.waiting patience) (stage.stackName p.name)
      r).Succeeds d (fun _ t' => t' = t₁) t := by
    refine (Lifecycle.succeeds_findExport hd hfound).bind ?_
    rintro found t ⟨rfl, rfl⟩
    cases found with
    | notFound attempts => exact Run.succeeds_pure (hnone attempts rfl).symm
    | found bucket =>
      refine (hbucket bucket rfl).bind ?_
      rintro n t₁ rfl
      refine (Run.succeeds_emit (Q := fun _ t' => t' = t₁) rfl).bind ?_
      rintro _ t₁ rfl
      exact Run.succeeds_pure rfl
  refine (hremove _).bind ?_
  rintro r t₁ rfl
  have hstack : (removeStack (s.waiting patience) (stage.stackName p.name)).Succeeds d
      (fun _ t' => t' = t₂) t₁ := by
    have hdeleted : (Lifecycle.delete (stage.stackName p.name)).Succeeds d
        (fun _ t' => t' = t₂) t₁ := by
      refine Run.succeeds_request (r := .stack (.delete (stage.stackName p.name)))
        fun a t' ha => ⟨(), ?_⟩
      have ha : site.cloud.provider.delete (stage.stackName p.name) t₁ = (a, t') := ha
      rw [hdelete] at ha
      cases ha
      exact ⟨rfl, rfl⟩
    refine hdeleted.bind ?_
    rintro _ _ rfl
    refine (Lifecycle.succeeds_pollUntilTerminal hd hpatience hgone).bind ?_
    rintro _ _ rfl
    exact Run.succeeds_emit rfl
  refine hstack.bind ?_
  rintro _ _ rfl
  exact Run.succeeds_pure ⟨trivial, rfl⟩

/-- Where the stack stands, a run comes to taking down its bucket. -/
theorem comesTo_tearDown {s : Settings} {patience : Nat} {bucket : String}
    (hd : d.Undisturbed) (hproject : site.descriptors.load t = .ok p)
    (hst : site.cloud.provider.status t (stage.stackName p.name) = .ok st)
    (hstands : st.isGone = false)
    (hfound : Lifecycle.lookUp (s.waiting patience) site.cloud.provider t
      (bucketExport (stage.stackName p.name)) = some (.found bucket)) :
    (destroy s patience stage).ComesTo d t (Artifacts.tearDown patience bucket) t := by
  refine (succeeds_loadProject hproject).comesTo ?_
  rintro p t ⟨rfl, rfl⟩
  refine (Run.succeeds_emit (Q := fun _ t' => t' = t) rfl).comesTo ?_
  rintro _ t rfl
  refine Run.ComesTo.bind ?_
  refine (Lifecycle.succeeds_status hst (Q := fun st' t' => st' = st ∧ t' = t)
    ⟨rfl, rfl⟩).comesTo ?_
  rintro st t ⟨rfl, rfl⟩
  simp only [hstands]
  refine Run.ComesTo.bind ?_
  refine (Lifecycle.succeeds_findExport hd hfound).comesTo ?_
  rintro _ t ⟨rfl, rfl⟩
  exact Run.ComesTo.bind (Run.ComesTo.refl _ _)

namespace Completed

variable {s : Settings} {patience : Nat}
  (h : Completed site (s.waiting patience) top stage t p r) (hlayout : Layout site top t)

include h hlayout

/-- A stage that was destroyed can be destroyed again, and stays as it is. -/
theorem again : (destroy s patience stage).Succeeds d
    (fun r' t' => r'.stackExisted = false ∧
      t' = withoutStage site (s.waiting patience) stage (stage.stackName p.name) t)
    (withoutStage site (s.waiting patience) stage (stage.stackName p.name) t) := by
  obtain ⟨htidy, -, hmissing⟩ := h.withoutStage_spec hlayout
  obtain ⟨st, hst, hgone⟩ := h.gone hlayout
  have hproject := load_of_taken hlayout (h.contained hlayout) htidy (h.pruned hlayout)
  exact succeeds_of_gone (hproject.trans h.project) hst hgone
    (RecordStore.delete_of_missing hmissing)

/-- Once the stack is gone, only the record is left to forget. -/
theorem resumes_withoutStack : (destroy s patience stage).Succeeds d
    (fun _ t' => t' = withoutStage site (s.waiting patience) stage (stage.stackName p.name) t)
    (withoutStack site (s.waiting patience) (stage.stackName p.name) t) := by
  obtain ⟨htidy, hpruned, st, hst, hgone⟩ := h.withoutStack_spec hlayout
  have hproject := load_of_taken hlayout (h.contained hlayout) htidy hpruned
  exact (succeeds_of_gone (hproject.trans h.project) hst hgone h.forgets).mono fun _ _ hr => hr.2

/-- As long as the stack stands, its bucket is taken down from wherever it is. -/
theorem resumes_stands (hd : d.Undisturbed) (hsize : 0 < site.cloud.objects.pageSize)
    (hst : site.cloud.provider.status t (stage.stackName p.name) = .ok st)
    (hstands : st.isGone = false)
    (hremoved : Removed site (s.waiting patience) top (stage.stackName p.name) t)
    (hfrom : t' = t ∨ ∃ bucket, Lifecycle.lookUp (s.waiting patience) site.cloud.provider t
      (bucketExport (stage.stackName p.name)) = some (.found bucket) ∧
        Artifacts.Midway site.cloud.objects top patience bucket t t') :
    (destroy s patience stage).Succeeds d
      (fun _ t'' => t'' = withoutStage site (s.waiting patience) stage (stage.stackName p.name) t)
      t' := by
  have hcontained := h.contained hlayout
  obtain ⟨-, hgone, -⟩ := hremoved.withoutStack_spec hlayout hcontained stage
    (withoutStack_of_stands hst hstands).symm
  have hdelete : site.cloud.provider.delete (stage.stackName p.name)
      (withoutBucket site (s.waiting patience) (stage.stackName p.name) t) =
        (.ok (), withoutStack site (s.waiting patience) (stage.stackName p.name) t) :=
    Prod.ext hremoved.deleted (withoutStack_of_stands hst hstands).symm
  obtain ⟨found, hfound⟩ := hremoved.found
  cases found with
  | notFound attempts =>
    obtain rfl : t' = t := by
      rcases hfrom with heq | ⟨bucket, hfound', -⟩
      · exact heq
      · rw [hfound] at hfound'
        cases hfound'
    exact succeeds_of_stands hd hremoved.patience h.project hst hstands hfound
      (by rintro _ ⟨⟩) (fun _ _ => by rw [withoutBucket, hfound]) hdelete hgone h.forgets
  | found bucket =>
    obtain ⟨hname, hbegun, -⟩ := hremoved.bucket bucket hfound
    have hmidway : Artifacts.Midway site.cloud.objects top patience bucket t t' := by
      rcases hfrom with rfl | ⟨bucket', hfound', hmidway⟩
      · exact hbegun
      · rw [hfound] at hfound'
        cases hfound'
        exact hmidway
    obtain ⟨A, hA, -⟩ := hmidway.buckets
    obtain ⟨hload, hstatus, hlookUp⟩ :=
      reads_of_beside (w := s.waiting patience) hlayout hcontained hA.tidy hmidway.beside
    refine succeeds_of_stands hd hremoved.patience (hload.trans h.project)
      (hstatus.trans hst) hstands (hlookUp.trans hfound) ?_ (by rintro _ ⟨⟩) hdelete hgone h.forgets
    rintro b ⟨⟩ v hv
    obtain ⟨n, v', hrun, hend⟩ :=
      Artifacts.outcome_of_midway d hsize hremoved.patience hname (hv ▸ hmidway)
    exact ⟨n, v', hrun, by rw [hend, withoutBucket, hfound]⟩

/-- Wherever the run is cut off, the stage can be destroyed from there. -/
theorem resumes (hd : d.Undisturbed) (hsize : 0 < site.cloud.objects.pageSize)
    (hunderway : Underway site (s.waiting patience) top stage t t') :
    (destroy s patience stage).Succeeds d
      (fun _ t'' => t'' = withoutStage site (s.waiting patience) stage (stage.stackName p.name) t)
      t' := by
  have hsame {p' : Project} (hp' : site.descriptors.load t = .ok p') : p' = p := by
    rw [h.project] at hp'
    exact (Except.ok.inj hp').symm
  obtain ⟨st, hst, -, ⟨hgone, -⟩ | ⟨hstands, hremoved, -⟩⟩ := h.stack
  · have hbegun := h.resumes_withoutStack hlayout (d := d)
    cases hunderway with
    | begun => rwa [withoutStack_of_gone hst hgone] at hbegun
    | emptying hproject hstands =>
      obtain rfl := hsame hproject
      rw [hst] at hstands
      obtain ⟨hst', hstands⟩ := hstands
      cases hst'
      rw [hgone] at hstands
      cases hstands
    | withoutStack hproject =>
      obtain rfl := hsame hproject
      exact hbegun
    | withoutStage hproject =>
      obtain rfl := hsame hproject
      exact (h.again hlayout).mono fun _ _ hr => hr.2
  · cases hunderway with
    | begun => exact h.resumes_stands hlayout hd hsize hst hstands hremoved (.inl rfl)
    | emptying hproject _ hfound hmidway =>
      obtain rfl := hsame hproject
      exact h.resumes_stands hlayout hd hsize hst hstands hremoved (.inr ⟨_, hfound, hmidway⟩)
    | withoutStack hproject =>
      obtain rfl := hsame hproject
      exact h.resumes_withoutStack hlayout
    | withoutStage hproject =>
      obtain rfl := hsame hproject
      exact (h.again hlayout).mono fun _ _ hr => hr.2

end Completed

end Again

/-! ## Every run -/

/-- What a run that destroyed a stage has done. Its report says whether there was a stack, and
which bucket that stack exported. -/
structure Destroyed (site : Site) (w : Waiting) (stage : Stage) (p : Project) (t t' : FileTree)
    (r : DestroyReport) : Prop where
  existed : ∃ st, site.cloud.provider.status t (stage.stackName p.name) = .ok st ∧
    r.stackExisted = !st.isGone
  resolved : r.stackExisted = true → ∀ bucket, r.bucket = some bucket ↔
    Lifecycle.lookUp w site.cloud.provider t (bucketExport (stage.stackName p.name)) =
      some (.found bucket)
  stack : ∃ st, site.cloud.provider.status t' (stage.stackName p.name) = .ok st ∧ st.isGone = true
  bucket : ∀ bucket, r.bucket = some bucket → ∀ c : StoreCall, c.GoesTo bucket →
    site.cloud.objects.answer c t' = (.error (.noSuchBucket bucket), t')
  record : t'.exists? (site.records.path stage) = false
  others : ∀ other, other ≠ stage →
    t'.entry? (site.cloud.provider.stackPlace t.workDir (other.stackName p.name)) =
        t.entry? (site.cloud.provider.stackPlace t.workDir (other.stackName p.name)) ∧
      t'.entry? (site.records.place t.workDir other) = t.entry? (site.records.place t.workDir other)

theorem Completed.destroyed (h : Completed site w top stage t p r) (hlayout : Layout site top t) :
    Destroyed site w stage p t (withoutStage site w stage (stage.stackName p.name) t) r where
  existed := by
    obtain ⟨st, hst, hexisted, -⟩ := h.stack
    exact ⟨st, hst, hexisted⟩
  resolved hexists := by
    obtain ⟨st, -, hexisted, ⟨hgone, -⟩ | ⟨-, -, hresolved⟩⟩ := h.stack
    · rw [hexisted, hgone] at hexists
      cases hexists
    · exact hresolved
  stack := h.gone hlayout
  bucket _ hbucket _ hc := ObjectStore.answer_of_error (h.bucket_gone hlayout hbucket) hc
  record := (h.withoutStage_spec hlayout).2.2
  others other hother := by
    obtain ⟨hstack, hrecord⟩ := h.not_taken hlayout hother
    have hpruned := h.pruned hlayout
    exact ⟨hpruned.same hstack, hpruned.same hrecord⟩

/-- Destroying delivers what it reports, can be done twice, and can be resumed. After a run that
succeeds, the stack is gone with its bucket and the record, and nothing of another stage has
changed; a second run succeeds and changes nothing; and if the first is cut off at any of its
requests, a run on what it has left succeeds and leaves what the first would have left. -/
theorem destroy_resumable (d : DiskWorld site) (w₀ : d.State) (s : Settings) (patience : Nat)
    (stage : Stage) (hsize : 0 < site.cloud.objects.pageSize)
    (hlayout : Layout site top (d.files w₀)) (hlimited : Limited site patience stage (d.files w₀))
    {r : DestroyReport}
    (hrun : ((destroy s patience stage).outcome d.handler w₀).1 = some (.ok r)) :
    (∃ p, site.descriptors.load (d.files w₀) = .ok p ∧
      Destroyed site (s.waiting patience) stage p (d.files w₀)
        (d.files ((destroy s patience stage).outcome d.handler w₀).2) r) ∧
    ∀ d' : DiskWorld site, d'.Undisturbed →
      (destroy s patience stage).Succeeds d' (fun r' t' => r'.stackExisted = false ∧
          t' = d.files ((destroy s patience stage).outcome d.handler w₀).2)
        (d.files ((destroy s patience stage).outcome d.handler w₀).2) ∧
      ∀ m ∈ (destroy s patience stage).moments d.handler w₀,
        (destroy s patience stage).Succeeds d'
          (fun _ t' => t' = d.files ((destroy s patience stage).outcome d.handler w₀).2)
          (d.files m.before) := by
  obtain ⟨hmoments, hend⟩ := d.files_of_follows w₀ (follows_destroy s patience hlayout hlimited)
  obtain ⟨p, hcompleted, hfiles⟩ := hend r hrun
  rw [hfiles]
  refine ⟨⟨p, hcompleted.project, hcompleted.destroyed hlayout⟩, fun d' hd' => ?_⟩
  refine ⟨hcompleted.again hlayout, fun m hm => ?_⟩
  exact hcompleted.resumes hlayout hd' hsize (hmoments m hm)

end

namespace Sample

theorem isStageName_d : isStageName "d" = true := by decide

/-- A stage. -/
def stage : Stage := ⟨"d", isStageName_d⟩

/-- Its project. -/
def project : Project := ⟨"p", "1", [], [], [], [], true, none⟩

/-- A disk with the project and the stack of the stage, which exports a bucket that is not there. -/
def bare : FileTree where
  workDir := []
  locks := []
  entries := [(["t"], .dir), (["t", "c"], .dir), (["t", "c", "buckets"], .dir),
    (["t", "c", "stacks"], .dir),
    (["t", "c", "stacks", "p-d.json"], .file (Json.obj [("status", .str ""),
      ("template", .obj [("Outputs", .obj [("B", .obj [("Value", .str "b"),
        ("Export", .obj [("Name", .str "p-d-DeploymentBucketName")])])])])]).compact.toUTF8),
    (["d"], .dir),
    (["d", "project.json"], .file (Json.obj [("project_name", .str "p"),
      ("compilation_timestamp", .str "1")]).compact.toUTF8)]

/-- The disk with the bucket. -/
def disk (B : VersionedBucket) : FileTree :=
  { bare with entries := bare.entries ++ [(["t", "c", "buckets", "b"], .dir),
    (["t", "c", "buckets", "b", "index.json"], .file (ObjectStore.indexBytes B.index)),
    (["t", "c", "buckets", "b", "blobs"], .dir)] }

def settings : Settings :=
  ⟨.ofString "/", stage, .ofString "/", .ofString "d", .ofString "t/s", 1, .standard, .standard⟩

/-- A site that lists two versions to a page. -/
def site : Site := settings.site (.atRootWith bare (.ofString "t/c") 2 1 [])

/-- What lies below the cloud and the records. -/
def top : Location := ["t"]

/-- A course on which no run is asked to stop. -/
def course : Course := ⟨fun _ => false, fun _ => 0, fun _ jobs => .inOrder jobs⟩

theorem undisturbed : (site.during course).Undisturbed := fun _ => rfl

/-- The disk without the stack. -/
def empty : FileTree := (site.cloud.provider.delete "p-d" bare).2

theorem found_bare : (site.descriptors.load bare).toOption = some project ∧
    (site.cloud.provider.status bare "p-d").toOption = some (.other "") ∧
    Lifecycle.lookUp (settings.waiting 5) site.cloud.provider bare (bucketExport "p-d") =
      some (.found "b") ∧
    (site.cloud.provider.stackNames bare).toOption = some ["p-d"] ∧
    (site.cloud.provider.delete "p-d" bare).1.isOk = true ∧
    (site.cloud.provider.status empty "p-d").toOption = some .absent ∧
    (site.records.delete stage empty).1.isOk = true := by
  decide +kernel

theorem eq_of_isOk {ε : Type} {r : Except ε Unit} (h : r.isOk = true) : r = .ok () := by
  cases r with
  | error e => cases h
  | ok u => rfl

theorem load_bare : site.descriptors.load bare = .ok project := ok_of_toOption found_bare.1

theorem stackName_project : stage.stackName project.name = "p-d" := by decide

theorem status_bare : site.cloud.provider.status bare "p-d" = .ok (.other "") :=
  ok_of_toOption found_bare.2.1

theorem entries_bare : ∀ x ∈ bare.entries, x.2 = .dir ∨ ∃ content, x.2 = .file content := by
  simp [bare]

theorem tidy_bare : bare.Tidy top where
  wf := .of_entries (by decide) (by decide)
  free _ target _ := ne_link_of_entries entries_bare target
  base := by decide

theorem within : Within [] top site.cloud.objects.root := ⟨by decide, by decide⟩

theorem represents_bare :
    site.cloud.objects.Represents top UInt64.size VersionedStore.empty bare where
  tidy := tidy_bare
  within := within
  clear := tidy_bare.wf.clear (by decide)
  outside := by decide
  held _ _ h := by cases h
  absent bucket _ _ := by
    show bare.entry? ["t", "c", "buckets", bucket] = none
    simp [bare, FileTree.entry?, lookup]

theorem layout_bare : Layout site top bare where
  buckets := ⟨_, represents_bare⟩
  provider := rfl
  root := rfl
  records := ⟨by decide, by decide⟩
  apart other h := by
    rw [RecordStore.place, RecordStore.path, (RecordStore.isEntry_lock other).place_joinText,
      RecordStore.isEntry_records.place_joinText] at h
    have hnames : ["t", "c", "buckets"] <+: ["t", "s", "records", other.name ++ ".lock"] := h
    simp at hnames
  descriptor := .of_beside (by decide) (fun _ target _ => ne_link_of_entries entries_bare target)
    (by decide)
  contained p hp other := by
    rw [load_bare] at hp
    cases hp
    exact StackProvider.contained_stackName (by decide) other
  names names hnames name hname := by
    rw [ok_of_toOption found_bare.2.2.2.1] at hnames
    cases hnames
    rw [List.mem_singleton.1 hname]
    exact StackProvider.contained_stackName (show '/' ∉ "p".toList by decide) stage

theorem beside_disk (B : VersionedBucket) :
    SameBeside (site.cloud.objects.bucketPlace [] "b") bare (disk B) := rfl

theorem nameable : site.cloud.objects.Nameable UInt64.size "b" := by
  have hlast : Usable (ObjectStore.blobPath (site.cloud.objects.dirPath "b")
      (versionId (UInt64.size - 1))) := ⟨by decide, by decide, by decide, by decide⟩
  exact .of_last (by decide) hlast

/-- The store on the disk, if the bucket has nothing in it but markers. -/
theorem represents_disk {B : VersionedBucket} (hsound : B.Sound) (hroom : B.minted < UInt64.size)
    (hmarkers : ∀ key, ∀ r ∈ B.revisions key, r.body = none) :
    site.cloud.objects.Represents top UInt64.size
      (Function.update VersionedStore.empty "b" (some B)) (disk B) := by
  have hbeside := beside_disk B
  have htidy : (disk B).Tidy top := by
    refine ⟨.of_entries ?_ rfl, fun _ target _ => ne_link_of_entries ?_ target, rfl⟩
    · simp only [disk, bare, List.cons_append, List.nil_append, List.forall_mem_cons]
      exact ⟨rfl, rfl, rfl, rfl, rfl, rfl, rfl, rfl, rfl, rfl, nofun⟩
    · simp [disk, bare]
  refine represents_bare.of_beside htidy rfl (fun l hl =>
    .inl (hbeside.entry (ObjectStore.bucketPlace_ne_nil _) hl)) ?_ nofun
  rintro B' ⟨⟩
  refine ⟨nameable, hsound, hroom, rfl, rfl, fun key r hr body hbody => ?_, fun n => ?_⟩
  · rw [hmarkers key r hr] at hbody
    cases hbody
  · show FileTree.entry? (disk B) ["t", "c", "buckets", "b", "blobs", versionId n] ≠ some .dir
    simp [disk, bare, FileTree.entry?, lookup]

/-- A bucket that keeps versions, with nothing left of two keys but markers. -/
def marked (minted : Nat) (ns ms : List Nat) : VersionedBucket :=
  ⟨true, minted, [("a", ns.map fun n => ⟨n, none⟩), ("b", ms.map fun n => ⟨n, none⟩)]⟩

theorem revisions_marked (minted : Nat) (ns ms : List Nat) (key : String) :
    (marked minted ns ms).revisions key =
      (if key = "a" then ns else if key = "b" then ms else []).map fun n => ⟨n, none⟩ := by
  unfold VersionedBucket.revisions marked
  by_cases ha : key = "a"
  · simp [TextMap.get?, ha]
  · by_cases hb : key = "b"
    · simp [TextMap.get?, hb]
    · simp [TextMap.get?, ha, hb, Ne.symm ha, Ne.symm hb]

theorem mem_revisions_marked {minted : Nat} {ns ms : List Nat} {key : String} {r : Revision}
    (h : r ∈ (marked minted ns ms).revisions key) :
    r.body = none ∧ (key = "a" ∧ r.number ∈ ns ∨ key = "b" ∧ r.number ∈ ms) := by
  rw [revisions_marked, List.mem_map] at h
  obtain ⟨n, hn, rfl⟩ := h
  refine ⟨rfl, ?_⟩
  split at hn
  · exact .inl ⟨‹_›, hn⟩
  split at hn
  · exact .inr ⟨‹_›, hn⟩
  · cases hn

theorem sound_marked {minted : Nat} {ns ms : List Nat} (hns : ns ≠ []) (hms : ms ≠ [])
    (hrising : (ns ++ ms).Pairwise (· < ·)) (hminted : ∀ n ∈ ns ++ ms, n ≤ minted) :
    (marked minted ns ms).Sound := by
  obtain ⟨hns', hms', hacross⟩ := List.pairwise_append.1 hrising
  constructor
  · simp [marked, TextMap.Ordered]
    decide
  · simp [marked, hns, hms]
  · intro key
    rw [revisions_marked, List.pairwise_map]
    split
    · exact hns'
    split
    · exact hms'
    · exact .nil
  · intro key r hr
    refine hminted r.number (List.mem_append.2 ?_)
    exact (mem_revisions_marked hr).2.imp And.right And.right
  · intro key key' r hr r' hr' heq
    obtain ⟨-, ⟨rfl, hn⟩ | ⟨rfl, hn⟩⟩ := mem_revisions_marked hr <;>
      obtain ⟨-, ⟨rfl, hn'⟩ | ⟨rfl, hn'⟩⟩ := mem_revisions_marked hr'
    · rfl
    · have := hacross _ hn _ hn'
      omega
    · have := hacross _ hn' _ hn
      omega
    · rfl
  · rintro ⟨⟩

theorem represents_marked {minted : Nat} {ns ms : List Nat} (hns : ns ≠ []) (hms : ms ≠ [])
    (hrising : (ns ++ ms).Pairwise (· < ·)) (hminted : ∀ n ∈ ns ++ ms, n ≤ minted)
    (hroom : minted < UInt64.size) :
    site.cloud.objects.Represents top UInt64.size
      (Function.update VersionedStore.empty "b" (some (marked minted ns ms)))
      (disk (marked minted ns ms)) :=
  represents_disk (sound_marked hns hms hrising hminted) hroom
    fun _ _ hr => (mem_revisions_marked hr).1

/-- The store on the disk. -/
def store (B : VersionedBucket) : VersionedStore :=
  Function.update VersionedStore.empty "b" (some B)

theorem delete_bare : site.cloud.provider.delete "p-d" bare = (.ok (), empty) := by
  rw [empty, ← eq_of_isOk found_bare.2.2.2.2.1]
  exact (Prod.eta _).symm

theorem status_empty : site.cloud.provider.status empty "p-d" = .ok .absent :=
  ok_of_toOption found_bare.2.2.2.2.2.1

theorem forget_empty : site.records.delete stage empty =
    (.ok (), (site.records.delete stage empty).2) := by
  rw [← eq_of_isOk found_bare.2.2.2.2.2.2]
  exact (Prod.eta _).symm

/-- What is found out on a disk that differs from the bare one in its bucket. -/
theorem found_beside {t : FileTree} (ht : t.Tidy top)
    (h : SameBeside (site.cloud.objects.bucketPlace [] "b") bare t) :
    site.descriptors.load t = .ok project ∧
      site.cloud.provider.status t "p-d" = .ok (.other "") ∧
      Lifecycle.lookUp (settings.waiting 5) site.cloud.provider t (bucketExport "p-d") =
        some (.found "b") := by
  obtain ⟨hload, hstatus, hlookUp⟩ := reads_of_beside (w := settings.waiting 5) layout_bare
    (stackName_project ▸ layout_bare.contained project load_bare stage) ht h
  exact ⟨hload.trans load_bare, hstatus.trans status_bare, hlookUp.trans found_bare.2.2.1⟩

theorem takenFrom_disk {B : VersionedBucket} {w : FileTree × Nat}
    (h : site.cloud.objects.Represents top UInt64.size (store B) (disk B)) (hw : w.1 = disk B) :
    Artifacts.TakenFrom site.cloud.objects top UInt64.size "b" (disk B) (store B)
      ((site.during course).files w) := by
  have hfiles : (site.during course).files w = disk B := hw
  rw [hfiles]
  exact .start h (Function.update_self ..)

section Meant

variable {B : VersionedBucket} {A : VersionedStore}
  (h : site.cloud.objects.Represents top UInt64.size (store B) (disk B))

include h

/-- If the bucket is taken down on the store that is meant, the stage is destroyed. -/
theorem succeeds_disk {n : Nat}
    (hmeant : Artifacts.meant 2 UInt64.size "b" (Artifacts.emptyAndDelete 5 "b").run (store B) =
      some (.ok n, A)) (hgone : A "b" = none) :
    (destroy settings 5 stage).Succeeds (site.during course) (fun _ _ => True) (disk B) := by
  obtain ⟨hload, hstatus, hlookUp⟩ := found_beside h.tidy (beside_disk B)
  have htear : (Artifacts.tearDown 5 "b").Succeeds (site.during course) (fun _ t' => t' = bare)
      (disk B) := by
    intro w hw
    obtain ⟨w', hrun, htaken⟩ := Artifacts.run_of_meant (site.during course) (by decide)
      (Nat.le_refl _) (by decide) hmeant w (takenFrom_disk h hw)
    exact ⟨n, w', Artifacts.outcome_tearDown hrun, htaken.gone hgone⟩
  rw [← stackName_project] at hstatus hlookUp
  refine Run.Succeeds.mono (succeeds_of_stands undisturbed (by decide) hload hstatus rfl hlookUp
    ?_ nofun (stackName_project ▸ delete_bare) (stackName_project ▸ status_empty) forget_empty)
    fun _ _ _ => trivial
  rintro _ ⟨⟩
  exact htear

/-- If it is not, and is not on a store that is come by, the stage is not destroyed from there. -/
theorem fails_disk {n : Nat} {A' : VersionedStore}
    (hat : Artifacts.meantAt 2 UInt64.size "b" n (Artifacts.emptyAndDelete 5 "b").run (store B) =
      some A)
    (hmeant : Artifacts.meant 2 UInt64.size "b" (Artifacts.emptyAndDelete 5 "b").run A =
      some (.error (.bucketNotEmpty "b"), A')) (w : FileTree × Nat) (hw : w.1 = disk B) :
    ∃ m ∈ (destroy settings 5 stage).moments (site.during course).handler w,
      ((destroy settings 5 stage).outcome (site.during course).handler m.before).1 =
        some (.error (.bucketTeardown "b" (.bucketNotEmpty "b"))) := by
  have hfound {t : FileTree} (ht : t.Tidy top)
      (hbeside : SameBeside (site.cloud.objects.bucketPlace [] "b") bare t) :
      (destroy settings 5 stage).ComesTo (site.during course) t (Artifacts.tearDown 5 "b") t := by
    obtain ⟨hload, hstatus, hlookUp⟩ := found_beside ht hbeside
    rw [← stackName_project] at hstatus hlookUp
    exact comesTo_tearDown undisturbed hload hstatus rfl hlookUp
  obtain ⟨w', hw', hmoments, -⟩ := hfound h.tidy (beside_disk B) w hw
  obtain ⟨m, hm, htaken⟩ := Artifacts.exists_moment_of_meantAt (site.during course) (by decide)
    (Nat.le_refl _) (by decide) hat w' (takenFrom_disk h hw')
  refine ⟨m, hmoments m ?_, ?_⟩
  · show m ∈ ((Artifacts.emptyAndDelete 5 "b").run.bind _).moments _ w'
    rw [Program.moments_bind]
    exact List.mem_append_left _ hm
  · obtain ⟨v, hv, -, hfails⟩ := hfound htaken.represents.tidy
      ((beside_disk B).trans htaken.beside) m.before rfl
    obtain ⟨v', hrun, -⟩ := Artifacts.run_of_meant (site.during course) (by decide)
      (Nat.le_refl _) (by decide) hmeant v (hv ▸ htaken)
    rw [hfails _ _ (Artifacts.outcome_tearDown hrun)]

end Meant

/-- A bucket with one marker of each key. -/
def short : VersionedBucket := marked 2 [1] [2]

/-- A bucket that has given out an id too wide to stand in order. -/
def long : VersionedBucket := marked 1000000000000 [1, 2] [999999999999, 1000000000000]

theorem represents_short :
    site.cloud.objects.Represents top UInt64.size (store short) (disk short) :=
  represents_marked (by decide) (by decide) (by decide) (by decide) (by decide)

theorem represents_long :
    site.cloud.objects.Represents top UInt64.size (store long) (disk long) :=
  represents_marked (by decide) (by decide) (by decide) (by decide) (by decide)

theorem meant_short : (Artifacts.meant 2 UInt64.size "b" (Artifacts.emptyAndDelete 5 "b").run
    (store short)).map (fun x => (x.1, (x.2 "b").isNone)) = some (.ok 2, true) := by
  decide +kernel

theorem meant_long : (Artifacts.meant 2 UInt64.size "b" (Artifacts.emptyAndDelete 5 "b").run
    (store long)).map (fun x => (x.1, (x.2 "b").isNone)) = some (.ok 4, true) := by
  decide +kernel

theorem meantAt_long : ((Artifacts.meantAt 2 UInt64.size "b" 3
    (Artifacts.emptyAndDelete 5 "b").run (store long)).bind fun A =>
      (Artifacts.meant 2 UInt64.size "b" (Artifacts.emptyAndDelete 5 "b").run A).map Prod.fst) =
    some (.error (.bucketNotEmpty "b")) := by
  decide +kernel

theorem limited_short : Limited site 5 stage (disk short) := by
  intro p bucket hload hsays dir i hread
  obtain ⟨hproject, -, hlookUp⟩ := found_beside represents_short.tidy (beside_disk short)
  cases hproject.symm.trans hload
  rw [stackName_project] at hsays
  cases Lifecycle.Says.unique (Lifecycle.says_of_lookUp hlookUp) hsays
  have hindex := represents_short.readIndex (Nat.le_refl _)
    (show store short "b" = some short from Function.update_self ..)
  cases hindex.symm.trans hread
  decide

end Sample

open Sample in
theorem destroy_resumable_sample :
    0 < site.cloud.objects.pageSize ∧ Layout site top (disk short) ∧
    Limited site 5 stage (disk short) ∧
    ∃ r, ((destroy settings 5 stage).outcome (site.during course).handler (disk short, 0)).1 =
        some (.ok r) ∧
      (∃ p, site.descriptors.load (disk short) = .ok p ∧
        Destroyed site (settings.waiting 5) stage p (disk short) ((site.during course).files
          ((destroy settings 5 stage).outcome (site.during course).handler (disk short, 0)).2)
          r) ∧
      ∀ d' : DiskWorld site, d'.Undisturbed →
        (destroy settings 5 stage).Succeeds d' (fun r' t' => r'.stackExisted = false ∧
            t' = (site.during course).files
              ((destroy settings 5 stage).outcome (site.during course).handler (disk short, 0)).2)
          ((site.during course).files
            ((destroy settings 5 stage).outcome (site.during course).handler (disk short, 0)).2) ∧
        ∀ m ∈ (destroy settings 5 stage).moments (site.during course).handler (disk short, 0),
          (destroy settings 5 stage).Succeeds d'
            (fun _ t' => t' = (site.during course).files
              ((destroy settings 5 stage).outcome (site.during course).handler (disk short, 0)).2)
            ((site.during course).files m.before) := by
  have hlayout : Layout site top (disk short) :=
    layout_bare.beside represents_short (beside_disk short)
  obtain ⟨⟨n, A⟩, hmeant, hx⟩ := Option.map_eq_some_iff.1 meant_short
  obtain ⟨rfl, hgone⟩ := Prod.ext_iff.1 hx
  obtain ⟨r, w', hrun, -⟩ := succeeds_disk represents_short hmeant (Option.isNone_iff_eq_none.1 hgone)
    (disk short, 0) rfl
  have hok : ((destroy settings 5 stage).outcome (site.during course).handler
      (disk short, 0)).1 = some (.ok r) := congrArg Prod.fst hrun
  exact ⟨by decide, hlayout, limited_short, r, hok,
    destroy_resumable (site.during course) (disk short, 0) settings 5 stage (by decide) hlayout
      limited_short hok⟩

open Sample in
/-- Once ids are too wide to stand in order, a run that is cut off may leave a bucket that no later
run takes down: what comes after the cut is listed before it. -/
theorem not_resumable_beyond_ids : ∃ r,
    ((destroy settings 5 stage).outcome (site.during course).handler (disk long, 0)).1 =
      some (.ok r) ∧
    ∃ m ∈ (destroy settings 5 stage).moments (site.during course).handler (disk long, 0),
      ((destroy settings 5 stage).outcome (site.during course).handler m.before).1 =
        some (.error (.bucketTeardown "b" (.bucketNotEmpty "b"))) := by
  obtain ⟨⟨n, A⟩, hmeant, hx⟩ := Option.map_eq_some_iff.1 meant_long
  obtain ⟨rfl, hgone⟩ := Prod.ext_iff.1 hx
  obtain ⟨r, w', hrun, -⟩ := succeeds_disk represents_long hmeant (Option.isNone_iff_eq_none.1 hgone)
    (disk long, 0) rfl
  obtain ⟨A₁, hat, hrest⟩ := Option.bind_eq_some_iff.1 meantAt_long
  obtain ⟨⟨_, A₂⟩, hfails, rfl⟩ := Option.map_eq_some_iff.1 hrest
  exact ⟨r, congrArg Prod.fst hrun, fails_disk represents_long hat hfails (disk long, 0) rfl⟩

end Rollout.Destroy
