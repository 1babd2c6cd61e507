import Rollout.Proofs.Run.Commit
import Rollout.Proofs.Run.Evaluation

/-!
Commit safety of a deploy, whatever it is told on its way and wherever it ends.
-/

namespace Rollout

open FileTree

namespace Deploy

/-- How many functions of a stage the descriptor lists, if it can be read. -/
def activeCount (project : Except Failure Project) (stage : Stage) : Nat :=
  match project with
  | .ok p => (p.active stage).length
  | .error _ => 0

/-! ## A disk to deploy from -/

namespace Sample

/-- A project with one function. -/
def project : Project :=
  ⟨"p", "1", [⟨"f", "a", ["dev"], "@", []⟩], [], [], [], true, none⟩

/-- Its descriptor. -/
def descriptor : Json :=
  .obj [("project_name", .str "p"), ("compilation_timestamp", .str "1"),
    ("functions", .arr [.obj [("entry_point", .str "f"), ("artifact", .str "a"),
      ("stages", .strs ["dev"]), ("version_token", .str "@")]])]

/-- A stack that exports its deployment bucket. -/
def stack : Json :=
  .obj [("status", .str ""), ("template", .obj [("Outputs", .obj [("B", .obj [("Value", .str "b"),
    ("Export", .obj [("Name", .str "p-dev-DeploymentBucketName")])])])])]

/-- The record of an earlier deploy of the same compilation. -/
def record : Record := ⟨Record.currentFormat, some "1", [("f", ⟨⟨"1/a"⟩, some (.ofText "0")⟩)]⟩

/-- The index of a bucket with the artifact of that deploy. -/
def index : BucketIndex := BucketIndex.empty.push "1/a" ⟨BucketIndex.empty.nextId, false⟩

/-- Its document. -/
def indexDocument : Json :=
  .obj [("next_version", .nat 1),
    ("objects", .obj [("1/a", .arr [.obj [("id", .str "v000000000001")]])])]

/-- The template that the stack is updated to. -/
def template : Json := .obj [("Code", .str "@")]

/-- A file with a given text. -/
def file (text : String) : Entry := .file text.toUTF8

/-- A file with a document. -/
def document (v : Json) : Entry := file v.compact

/-- A disk after that deploy. The artifact has been built anew since. -/
def disk : FileTree where
  workDir := ["w"]
  locks := []
  entries := [(["w"], .dir), (["w", "build"], .dir), (["w", "build", "a"], file "2"),
    (["w", "build", "liftoff"], .dir),
    (["w", "build", "liftoff", "project.json"], document descriptor),
    (["w", "build", "liftoff", "stack-create-dev.json"], file ""),
    (["w", "build", "liftoff", "stack-update-dev.json"], document template),
    (["w", ".liftoff"], .dir), (["w", ".liftoff", "records"], .dir),
    (["w", ".liftoff", "records", "dev.lock"], file record.text),
    (["w", ".liftoff", "cloud"], .dir), (["w", ".liftoff", "cloud", "stacks"], .dir),
    (["w", ".liftoff", "cloud", "stacks", "p-dev.json"], document stack),
    (["w", ".liftoff", "cloud", "buckets"], .dir),
    (["w", ".liftoff", "cloud", "buckets", "b"], .dir),
    (["w", ".liftoff", "cloud", "buckets", "b", "index.json"], document indexDocument),
    (["w", ".liftoff", "cloud", "buckets", "b", "blobs"], .dir),
    (["w", ".liftoff", "cloud", "buckets", "b", "blobs", "v000000000001"], file "1")]

/-- The default directories. -/
def settings : Settings :=
  ⟨.ofString ".", .dev, .ofString "build", .ofString "build/liftoff", .ofString ".liftoff", 1,
    .standard, .standard⟩

/-- The cloud in its default directory. -/
def cloud : DiskCloud := .atRoot disk (.ofString ".liftoff/cloud")

/-- What lies below the default state directory. -/
def top : Location := ["w", ".liftoff"]

theorem disk_spec : ((settings.site cloud).descriptors.load disk).toOption = some project ∧
    BucketIndex.parse? indexDocument.compact = some index ∧
    cloud.objects.content disk "b" "1/a" = some "1".toUTF8 := by
  rw [ObjectStore.content, Documents.get_quick, Documents.project_quick,
    Documents.index_compact_quick]
  decide +kernel

theorem load_disk : (settings.site cloud).descriptors.load disk = .ok project :=
  Outcome.ok_of_toOption disk_spec.1

theorem entries_disk : ∀ x ∈ disk.entries, x.2 = .dir ∨ ∃ content, x.2 = .file content := by
  simp [disk, file, document]

theorem tidy : disk.Tidy top where
  wf := .of_entries (by decide) (by decide)
  free _ target _ := ne_link_of_entries entries_disk target
  base := by decide

theorem within : Within disk.workDir top cloud.objects.root where
  plain := by decide
  below := by decide

theorem readIndex_disk {bucket : String} {dir : Path} {i : BucketIndex}
    (h : cloud.objects.readIndex disk bucket = .ok (dir, i)) :
    i = index := by
  obtain ⟨-, -, content, text, hentry, htext, hparse⟩ :=
    (ObjectStore.readIndex_eq_ok tidy within).1 h
  have honly : ∀ x ∈ disk.entries, x.1.getLast? = some "index.json" → x.2 = document indexDocument := by
    simp [disk]
  rcases mem_entries hentry with ⟨-, he⟩ | hmem
  · cases he
  cases honly _ hmem (by simp [ObjectStore.indexPlace])
  rw [Text.fromUTF8?_toUTF8] at htext
  cases htext
  rw [disk_spec.2.1] at hparse
  exact (Option.some.inj hparse).symm

theorem beyond {p : Path} (hplain : p.Plain) (hout : ¬top <+: p.place disk.workDir) :
    disk.Beyond top p :=
  .of_beside hplain (fun _ target _ => ne_link_of_entries entries_disk target) hout

theorem layout : Layout settings cloud top .dev disk where
  settled :=
    { steady := ⟨tidy, within, fun _ _ _ h => by
        rw [readIndex_disk h]
        exact BucketIndex.Sound.empty.push "1/a" false⟩
      provider := rfl
      root := rfl
      records := ⟨by decide, by decide⟩ }
  descriptor := beyond (by decide) (by decide)
  template := beyond (by decide) (by decide)
  artifacts p hp f hf := by
    obtain rfl : project = p := Except.ok.inj (load_disk.symm.trans hp)
    obtain rfl : f = ⟨"f", "a", ["dev"], "@", []⟩ := by
      simpa [project, Project.active, FunctionSpec.isActiveIn, Stage.dev] using hf
    exact beyond (by decide) (by decide)
  stack p hp := by
    obtain rfl : project = p := Except.ok.inj (load_disk.symm.trans hp)
    exact ⟨by decide, by decide⟩

theorem room : cloud.objects.Room disk
    (activeCount ((settings.site cloud).descriptors.load disk) .dev + 2) := by
  rw [load_disk]
  refine ⟨by decide, fun bucket dir i h => ?_⟩
  rw [readIndex_disk h]
  decide

theorem load_record : (settings.site cloud).records.load disk .dev = .ok record :=
  RecordStore.load_of_entry tidy ⟨by decide, by decide⟩
    ⟨by decide, by decide, by decide, by decide⟩ rfl rfl (List.pairwise_singleton ..)

/-- A world in which a run is asked to stop once its uploads are under way. -/
def stopping : DiskWorld (settings.site cloud) :=
  (settings.site cloud).during
    ⟨fun n => decide (14 ≤ n), fun _ => 0, fun _ jobs => .inOrder jobs⟩

/-- That world before a run. -/
def before : stopping.State := (disk, 0)

/-- What a run in it is asked to do. -/
def options : DeployOptions := ⟨.dev, true⟩

theorem stopping_quick : stopping.handler = Documents.quick.during (settings.site cloud)
    ⟨fun n => decide (14 ≤ n), fun _ => 0, fun _ jobs => .inOrder jobs⟩ :=
  Documents.during_quick ..

/-- The run that is asked to stop fails when it has replaced the artifact; without that, it commits. -/
theorem runs_spec :
    (∀ m ∈ (deploy settings 10 options).moments stopping.handler before, ¬m.request.IsSave) ∧
      ((deploy settings 10 options).outcome stopping.handler before).1.map Except.isOk =
        some false ∧
      cloud.objects.content
        (stopping.files ((deploy settings 10 options).outcome stopping.handler before).2)
        "b" "1/a" = some "2".toUTF8 ∧
      Event.recordCommitted "1" ∈ ((deploy settings 10 options).outcome
        (settings.site cloud).handler (.start disk)).2.events := by
  rw [stopping_quick, ObjectStore.content, Documents.get_quick, Documents.handler_quick]
  decide +kernel

end Sample

variable {s : Settings} {cloud : DiskCloud} {stage : Stage} {p : Prepared} {t t' : FileTree}
  {top : Location} {K : String → String → Prop} {n : Nat}

/-! ## The parts of a run -/

theorem exists_stack {project : Except Failure Project}
    (h : ∀ p, project = .ok p → StackProvider.Contained (stage.stackName p.name)) :
    ∃ stack, StackProvider.Contained stack ∧
      ∀ p, project = .ok p → stage.stackName p.name = stack := by
  cases project with
  | ok p => exact ⟨_, h p rfl, fun _ hp => by cases hp; rfl⟩
  | error e => exact ⟨"", ⟨by decide, by decide⟩, nofun⟩

/-- A part of a deploy before its commit, as far as it came. -/
theorem untouched_of_careful (hlayout : Layout s cloud top stage t) {stack : String}
    (hstack : StackProvider.Contained stack) {N : Nat} (hroom : cloud.objects.Room t N)
    (h : Careful (s.site cloud) top stack K N t n t') :
    Untouched s cloud stage K t t' ∧ Layout s cloud top stage t' ∧
      ∀ m, cloud.objects.Room t (N + m) → cloud.objects.Room t' m := by
  obtain ⟨hn, hkept⟩ := h
  refine ⟨untouched_of_kept hlayout hkept (hroom.mono (by omega))
    (RecordStore.not_inStack_place _ cloud.provider t.workDir stage stack),
    hlayout.of_kept hkept fun l hl => inStack_below hlayout hstack hl, fun m hm => ?_⟩
  exact (hkept.room m (hm.mono (by omega))).1

theorem not_installs_markerKey {project : Except Failure Project}
    (hplanned : Planned stage project p) (b : String) : ¬Installs p b markerKey := by
  rintro ⟨-, hkey | hkey⟩
  · obtain ⟨u, hu, hkey⟩ := List.mem_map.1 hkey
    rw [(hplanned.artifact hu).1] at hkey
    exact mint_ne _ _ (by decide) hkey
  · exact absurd hkey (by decide)

theorem deploy_eq (s : Settings) (patience : Nat) (options : DeployOptions) :
    deploy s patience options =
      prepare (s.waiting patience) options.stage >>= fun p =>
        install s (s.waiting patience) options.stage p >>= fun a =>
          Tracking.commit options.stage p.plan.record p.bucket >>= fun _ =>
            Run.emit (.recordCommitted p.project.timestamp) >>= fun _ =>
              finish s (s.waiting patience) options p a := by
  simp [deploy, apply_eq]

/-- The keys that a deploy stores objects under before its commit, if it comes to have a plan. -/
def PlanInstalls (planned : Option (Except Failure Prepared)) (bucket key : String) : Prop :=
  ∃ p, planned = some (.ok p) ∧ Installs p bucket key

theorem load_eq_of_touched (h : Layout s cloud top stage t) (ht : t'.Tidy top)
    (htouched : Touched top (top <+: ·) t t') :
    (s.site cloud).descriptors.load t' = (s.site cloud).descriptors.load t :=
  load_eq_of_beyond h.descriptor ht htouched

/-- The first part of a deploy leaves everything as it was, and its plan is that of its project. -/
theorem prepare_touches_nothing (d : DiskWorld (s.site cloud)) (w₀ : d.State) (w : Waiting)
    (hlayout : Layout s cloud top stage (d.files w₀)) (hroom : cloud.objects.Room (d.files w₀) 0) :
    (∀ m ∈ (prepare w stage).moments d.handler w₀,
      (Untouched s cloud stage (fun _ _ => False) (d.files w₀) (d.files m.before) ∧
        ¬m.request.Announces) ∧ ¬m.Saved) ∧
    Untouched s cloud stage (fun _ _ => False) (d.files w₀)
      (d.files ((prepare w stage).outcome d.handler w₀).2) ∧
    ∀ p w₁, (prepare w stage).outcome d.handler w₀ = (some (.ok p), w₁) →
      Planned stage ((s.site cloud).descriptors.load (d.files w₀)) p ∧
      Layout s cloud top stage (d.files w₁) ∧
      (s.site cloud).descriptors.load (d.files w₁) = (s.site cloud).descriptors.load (d.files w₀) ∧
      ∀ n, cloud.objects.Room (d.files w₀) n → cloud.objects.Room (d.files w₁) n := by
  obtain ⟨stack, hstack, hname⟩ := exists_stack hlayout.stack
  obtain ⟨hmoments, n, hend, hplanned⟩ := run_of_cautious d hlayout.settled hstack
    (fun t ht h => load_eq_of_touched hlayout ht h)
    (follows_prepare (K := fun _ _ => False) (n := 0) w stage hname)
  have hcareful {n : Nat} {t : FileTree}
      (h : Careful (s.site cloud) top stack (fun _ _ => False) 0 (d.files w₀) n t) :=
    untouched_of_careful hlayout hstack hroom h
  refine ⟨fun m hm => ?_, (hcareful hend).1, fun p w₁ hout => ?_⟩
  · obtain ⟨⟨hsave, hsilent⟩, ⟨n, hbefore⟩, -⟩ := hmoments m hm
    exact ⟨⟨(hcareful hbefore).1, hsilent⟩, fun h => hsave (Moment.isSave_of_saved h)⟩
  rw [hout] at hend hplanned
  obtain ⟨-, hlayout₁, hroom₁⟩ := hcareful hend
  refine ⟨(hplanned p rfl).1, hlayout₁, ?_, fun n hn => hroom₁ n (by rwa [Nat.zero_add])⟩
  exact load_eq_of_touched hlayout hend.2.steady.tidy
    (hend.2.touched.mono fun l hl => inStack_below hlayout hstack hl)

/-- The second part of a deploy up to its commit touches nothing but what it installs, and has
installed its plan when it comes to its end. -/
theorem install_touches (d : DiskWorld (s.site cloud)) (w₁ : d.State) (w : Waiting)
    {project : Except Failure Project} (hlayout : Layout s cloud top stage (d.files w₁))
    (hproject : (s.site cloud).descriptors.load (d.files w₁) = project)
    (hplanned : Planned stage project p)
    (hroom : cloud.objects.Room (d.files w₁) (p.plan.uploads.length + 2)) :
    (∀ m ∈ (install s w stage p).moments d.handler w₁,
      (Untouched s cloud stage (Installs p) (d.files w₁) (d.files m.before) ∧
        ¬m.request.Announces) ∧ ¬m.Saved) ∧
    Untouched s cloud stage (Installs p) (d.files w₁)
      (d.files ((install s w stage p).outcome d.handler w₁).2) ∧
    ∀ a w₂, (install s w stage p).outcome d.handler w₁ = (some (.ok a), w₂) →
      Installed s cloud stage p (d.files w₂) ∧ Layout s cloud top stage (d.files w₂) ∧
      (s.site cloud).descriptors.load (d.files w₂) = project ∧
      cloud.objects.Room (d.files w₂) 1 := by
  have hstack := hlayout.contained hproject hplanned
  obtain ⟨hmoments, n, hend, -⟩ := run_of_cautious d hlayout.settled hstack
    (fun t ht h => (load_eq_of_touched hlayout ht h).trans hproject)
    (follows_install s w stage p (Nat.le_refl _))
  obtain ⟨-, t₂, ht₂, hinstalled⟩ := (follows_install_onDisk (w := w) hlayout hproject hplanned
    hroom).run (h := d.handler) (s := w₁) (I := fun t w => d.files w = t)
    (fun t w r h _ => ⟨_, h ▸ d.answers r w, rfl⟩) rfl
  have hcareful {n : Nat} {t : FileTree} (h : Careful (s.site cloud) top p.stack (Installs p)
      (p.plan.uploads.length + 1) (d.files w₁) n t) :=
    untouched_of_careful hlayout hstack (hroom.mono (by omega)) h
  refine ⟨fun m hm => ?_, (hcareful hend).1, fun a w₂ hout => ?_⟩
  · obtain ⟨⟨hsave, hsilent⟩, ⟨n, hbefore⟩, -⟩ := hmoments m hm
    exact ⟨⟨(hcareful hbefore).1, hsilent⟩, fun h => hsave (Moment.isSave_of_saved h)⟩
  rw [hout] at hend ht₂ hinstalled
  obtain ⟨-, hlayout₂, hroom₂⟩ := hcareful hend
  obtain rfl := ht₂
  refine ⟨hinstalled a rfl, hlayout₂, ?_, hroom₂ 1 hroom⟩
  exact (load_eq_of_touched hlayout hend.2.steady.tidy
    (hend.2.touched.mono fun l hl => inStack_below hlayout hstack hl)).trans hproject

/-- Before it saves its record a deploy touches what it installs, and nothing else. -/
theorem deploy_touches (d : DiskWorld (s.site cloud)) (w₀ : d.State) (patience : Nat)
    (options : DeployOptions) (hlayout : Layout s cloud top options.stage (d.files w₀))
    (hroom : cloud.objects.Room (d.files w₀)
      (activeCount ((s.site cloud).descriptors.load (d.files w₀)) options.stage + 2)) :
    CommitsSafely
      (fun w => Untouched s cloud options.stage
        (PlanInstalls ((prepare (s.waiting patience) options.stage).outcome d.handler w₀).1)
        (d.files w₀) (d.files w))
      (fun w => ∃ p,
        ((prepare (s.waiting patience) options.stage).outcome d.handler w₀).1 = some (.ok p) ∧
        Committed s cloud options.stage p (d.files w))
      ((deploy s patience options).moments d.handler w₀)
      ((deploy s patience options).outcome d.handler w₀).2 := by
  obtain ⟨hmoments, hend, hprepared⟩ := prepare_touches_nothing d w₀ (s.waiting patience) hlayout
    (hroom.mono (by omega))
  rw [deploy_eq]
  rcases Run.bind_cases d.handler (prepare (s.waiting patience) options.stage) _ w₀ with
    ⟨p, w₁, hout, hall, hlast⟩ | ⟨-, hall, hlast, -⟩
  swap
  · rw [hall, hlast]
    refine .of_silent (fun m hm => ?_) (hend.mono fun _ _ => False.elim)
    exact ⟨(hmoments m hm).1.1.mono fun _ _ => False.elim, (hmoments m hm).1.2⟩
  rw [hall, hlast]
  refine .append (fun m hm => ?_) ?_
  · exact ⟨⟨(hmoments m hm).1.1.mono fun _ _ => False.elim, (hmoments m hm).1.2⟩,
      (hmoments m hm).2⟩
  -- from the plan to the commit
  obtain ⟨hplanned, hlayout₁, hproject₁, hroom₁⟩ := hprepared p w₁ hout
  rw [hout] at hend ⊢
  have hplan {t : FileTree} (h : Untouched s cloud options.stage (Installs p) (d.files w₁) t) :
      Untouched s cloud options.stage (PlanInstalls (some (.ok p))) (d.files w₀) t :=
    (hend.mono fun _ _ => False.elim).trans (h.mono fun _ _ hin => ⟨p, rfl, hin⟩)
  have hlength : p.plan.uploads.length + 2 ≤
      activeCount ((s.site cloud).descriptors.load (d.files w₀)) options.stage + 2 := by
    rw [hplanned.project, activeCount]
    have := hplanned.length_uploads_le
    omega
  obtain ⟨hmoments₁, hend₁, hinstalled⟩ := install_touches d w₁ (s.waiting patience) hlayout₁
    hproject₁ hplanned (hroom₁ _ (hroom.mono hlength))
  rcases Run.bind_cases d.handler (install s (s.waiting patience) options.stage p) _ w₁ with
    ⟨a, w₂, hout₁, hall, hlast⟩ | ⟨-, hall, hlast, -⟩
  swap
  · rw [hall, hlast]
    exact .of_silent (fun m hm => ⟨hplan (hmoments₁ m hm).1.1, (hmoments₁ m hm).1.2⟩) (hplan hend₁)
  rw [hall, hlast]
  refine .append (fun m hm => ?_) ?_
  · exact ⟨⟨hplan (hmoments₁ m hm).1.1, (hmoments₁ m hm).1.2⟩, (hmoments₁ m hm).2⟩
  -- the commit and what follows it
  obtain ⟨hin, hlayout₂, hproject₂, hroom₂⟩ := hinstalled a w₂ hout₁
  rw [hout₁] at hend₁
  exact (commit_safely d hlayout₂ hproject₂ hplanned hin hroom₂
    (silent_finish s (s.waiting patience) options p a)).mono
    (fun _ h => (hplan hend₁).trans h) fun _ h => ⟨p, rfl, h⟩

/-- A deploy commits safely, whatever it is told on its way: unless it saved a record, the record
of the stage and all markers are in the end what they were, markers do not change before the
record is saved, and when the commit is announced, the artifacts, the template, the record and
the marker of the plan are in place. -/
theorem deploy_commits_safely (d : DiskWorld (s.site cloud)) (w₀ : d.State) (patience : Nat)
    (options : DeployOptions) (hlayout : Layout s cloud top options.stage (d.files w₀))
    (hroom : cloud.objects.Room (d.files w₀)
      (activeCount ((s.site cloud).descriptors.load (d.files w₀)) options.stage + 2)) :
    CommitsSafely
      (fun w => Untouched s cloud options.stage (fun _ key => key ≠ markerKey)
        (d.files w₀) (d.files w))
      (fun w => ∃ p,
        ((prepare (s.waiting patience) options.stage).outcome d.handler w₀).1 = some (.ok p) ∧
        Committed s cloud options.stage p (d.files w))
      ((deploy s patience options).moments d.handler w₀)
      ((deploy s patience options).outcome d.handler w₀).2 := by
  obtain ⟨-, -, hprepared⟩ := prepare_touches_nothing d w₀ (s.waiting patience) hlayout
    (hroom.mono (by omega))
  refine (deploy_touches d w₀ patience options hlayout hroom).mono (fun w h => h.mono ?_)
    fun _ h => h
  rintro b key ⟨p, hout, hin⟩ rfl
  obtain ⟨hplanned, -⟩ := hprepared p _ (Prod.ext hout rfl)
  exact not_installs_markerKey hplanned b hin

/-- The run of the sample does announce its commit. -/
theorem deploy_commits_safely_sample :
    Layout Sample.settings Sample.cloud Sample.top .dev Sample.disk ∧
      Sample.cloud.objects.Room Sample.disk
        (activeCount ((Sample.settings.site Sample.cloud).descriptors.load Sample.disk) .dev + 2) ∧
      Event.recordCommitted "1" ∈ ((deploy Sample.settings 10 Sample.options).outcome
        (Sample.settings.site Sample.cloud).handler (.start Sample.disk)).2.events ∧
      CommitsSafely
        (fun w => Untouched Sample.settings Sample.cloud .dev (fun _ key => key ≠ markerKey)
          Sample.disk w.files)
        (fun w => ∃ p, ((prepare (Sample.settings.waiting 10) .dev).outcome
            (Sample.settings.site Sample.cloud).handler (.start Sample.disk)).1 = some (.ok p) ∧
          Committed Sample.settings Sample.cloud .dev p w.files)
        ((deploy Sample.settings 10 Sample.options).moments
          (Sample.settings.site Sample.cloud).handler (.start Sample.disk))
        ((deploy Sample.settings 10 Sample.options).outcome
          (Sample.settings.site Sample.cloud).handler (.start Sample.disk)).2 :=
  ⟨Sample.layout, Sample.room, Sample.runs_spec.2.2.2,
    deploy_commits_safely (Sample.settings.site Sample.cloud).world
      (.start Sample.disk) 10 Sample.options Sample.layout Sample.room⟩

/-- A deploy that saved no record leaves the record of its stage as it was, and the content of
every key but those that its own plan installs: those of its uploads and that of the rendered
template. -/
theorem failed_deploy_keeps_contents (d : DiskWorld (s.site cloud)) (w₀ : d.State)
    (patience : Nat) (options : DeployOptions)
    (hlayout : Layout s cloud top options.stage (d.files w₀))
    (hroom : cloud.objects.Room (d.files w₀)
      (activeCount ((s.site cloud).descriptors.load (d.files w₀)) options.stage + 2))
    (hfailed : ∀ m ∈ (deploy s patience options).moments d.handler w₀, ¬m.Saved) :
    Untouched s cloud options.stage
      (PlanInstalls ((prepare (s.waiting patience) options.stage).outcome d.handler w₀).1)
      (d.files w₀) (d.files ((deploy s patience options).outcome d.handler w₀).2) :=
  (deploy_touches d w₀ patience options hlayout hroom).failed hfailed

theorem failed_deploy_keeps_contents_sample :
    (∀ m ∈ (deploy Sample.settings 10 Sample.options).moments
        Sample.stopping.handler Sample.before, ¬m.Saved) ∧
      Untouched Sample.settings Sample.cloud Sample.options.stage
        (PlanInstalls ((prepare (Sample.settings.waiting 10) Sample.options.stage).outcome
          Sample.stopping.handler Sample.before).1)
        (Sample.stopping.files Sample.before)
        (Sample.stopping.files ((deploy Sample.settings 10 Sample.options).outcome
          Sample.stopping.handler Sample.before).2) :=
  have hfailed m hm h := Sample.runs_spec.1 m hm (Moment.isSave_of_saved h)
  ⟨hfailed, failed_deploy_keeps_contents Sample.stopping Sample.before 10 Sample.options
    Sample.layout Sample.room hfailed⟩

/-- A failed deploy may replace the bytes that the surviving record vouches for: those of a
function that is redeployed in the compilation it was recorded in. -/
theorem failed_deploy_replaces_recorded :
    (Sample.settings.site Sample.cloud).records.load Sample.disk .dev = .ok Sample.record ∧
      Sample.record.functions = [("f", ⟨⟨"1/a"⟩, some (.ofText "0")⟩)] ∧
      (∀ m ∈ (deploy Sample.settings 10 Sample.options).moments
        Sample.stopping.handler Sample.before, ¬m.request.IsSave) ∧
      ((deploy Sample.settings 10 Sample.options).outcome
        Sample.stopping.handler Sample.before).1.map Except.isOk = some false ∧
      Sample.cloud.objects.content Sample.disk "b" "1/a" = some "1".toUTF8 ∧
      Sample.cloud.objects.content
        (Sample.stopping.files ((deploy Sample.settings 10 Sample.options).outcome
          Sample.stopping.handler Sample.before).2) "b" "1/a" = some "2".toUTF8 := by
  exact ⟨Sample.load_record, rfl, Sample.runs_spec.1, Sample.runs_spec.2.1,
    Sample.disk_spec.2.2, Sample.runs_spec.2.2.1⟩

end Deploy

end Rollout
