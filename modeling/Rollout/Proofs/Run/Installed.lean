import Rollout.Proofs.Run.Cautious

/-!
What a deploy has installed when it comes to its commit: the artifacts of its plan are in the
deployment bucket, with the bytes that the build left, and its stack has the rendered template.
-/

namespace Rollout

open FileTree

namespace Run

variable {site : Site} {t : FileTree} {α : Type} {Q : α → FileTree → Prop}

theorem follows_onDisk_of_idle {p : Run α} (h : p.Only Request.Idle) :
    p.Follows site.onDisk (fun _ t' => t' = t) t := by
  refine h.follows (R := (· = t)) ?_ rfl
  rintro t' r rfl hr
  exact ⟨trivial, fun a t'' ha => Site.answers_idle hr ha⟩

end Run

namespace Lifecycle

variable {site : Site} {t : FileTree}

/-- A wait that succeeds ends with a status that is no failure. -/
theorem follows_pollFrom (poll : PollPolicy) (name : String) (started rounds : Nat) :
    (pollFrom poll name started rounds).Follows site.onDisk
      (fun status t' => t' = t ∧ site.cloud.provider.status t name = .ok status ∧
        status.isFailure = false) t := by
  induction rounds with
  | zero => exact Run.follows_unfinished
  | succ rounds ih =>
    refine .bind (Run.follows_onDisk_of_idle Run.idle_checkCancelled) ?_
    rintro _ t' rfl
    refine .bind (Run.follows_ofProgram ⟨trivial, ?_⟩)
      (Q := fun status t'' => t'' = t' ∧ site.cloud.provider.status t' name = .ok status) ?_
    · rintro a t'' ha status rfl
      obtain ⟨hstatus, rfl⟩ := Prod.mk.inj ha
      exact ⟨rfl, hstatus⟩
    rintro status t'' ⟨rfl, hstatus⟩
    by_cases hterminal : status.isTerminal
    · simp only [hterminal, if_true]
      by_cases hfailure : status.isFailure
      · simp only [hfailure, if_true]
        exact Run.follows_throw _
      · simp only [hfailure]
        exact Run.follows_pure ⟨rfl, hstatus, by simpa using hfailure⟩
    · simp only [hterminal]
      refine .bind (Run.follows_onDisk_of_idle Run.idle_now) ?_
      rintro now t' rfl
      by_cases htimeout : poll.timeout ≤ now - started
      · simp only [htimeout, if_true]
        exact Run.follows_throw _
      · simp only [htimeout, if_false]
        refine .bind (Run.follows_onDisk_of_idle (Run.idle_sleep _)) ?_
        rintro _ t'' rfl
        exact ih

theorem follows_pollUntilTerminal (w : Waiting) (name : String) :
    (pollUntilTerminal w name).Follows site.onDisk
      (fun status t' => t' = t ∧ site.cloud.provider.status t name = .ok status ∧
        status.isFailure = false) t := by
  refine .bind (Run.follows_onDisk_of_idle Run.idle_now) ?_
  rintro now t' rfl
  exact follows_pollFrom ..

end Lifecycle

namespace Deploy

variable {s : Settings} {cloud : DiskCloud} {stage : Stage} {p : Prepared} {t t' t₁ : FileTree}
  {top : Location} {w : Waiting}

/-! ## Uploads -/

/-- What the uploads of a batch have left when some are done and some still to come. -/
structure Uploading (cloud : DiskCloud) (top : Location) (p : Prepared) (us : List PendingUpload)
    (t₁ : FileTree) (done rest : List PendingUpload) (t : FileTree) : Prop where
  kept : ∃ n, n + rest.length ≤ us.length ∧
    cloud.objects.Kept top (cloud.provider.InStack t₁.workDir p.stack) (Installs p) n t₁ t
  rest : ∀ u ∈ rest, u ∈ us
  done : ∀ u ∈ done, u ∈ us ∧ ∃ bytes, t₁.read u.path = .ok bytes ∧
    cloud.objects.content t p.bucket u.key = some bytes

/-- Where paths of uploads lead, however far a deploy has come. -/
theorem read_eq_of_kept (hset : (s.site cloud).Settled top t₁)
    (hstack : StackProvider.Contained p.stack) {path : Path} (hbeyond : t₁.Beyond top path) {n : Nat}
    (hkept : cloud.objects.Kept top (cloud.provider.InStack t₁.workDir p.stack) (Installs p) n t₁ t) :
    t.read path = t₁.read path :=
  hbeyond.read_eq hkept.steady.tidy (hkept.touched.mono fun _ hl =>
    StackProvider.InStack.below hset.rooted hset.within hstack hl)

theorem batch_onDisk (hset : (s.site cloud).Settled top t₁)
    (hstack : StackProvider.Contained p.stack) (us : List PendingUpload)
    (hroom : cloud.objects.Room t₁ (us.length + 2))
    (hbeyond : ∀ u ∈ us, t₁.Beyond top u.path) (hkeys : ∀ u ∈ us, u.key ∈ p.plan.uploadKeys)
    (hpaths : ∀ u ∈ us, ∀ v ∈ us, u.key = v.key → u.path = v.path) :
    Artifacts.Batch (s.site cloud).onDisk p.bucket (Uploading cloud top p us t₁) where
  upload := by
    rintro done u rest t ⟨⟨n, hn, hkept⟩, hrest, hdone⟩
    rw [List.length_cons] at hn
    have hu := hrest u List.mem_cons_self
    have hrest' : ∀ v ∈ rest, v ∈ us := fun v hv => hrest v (List.mem_cons_of_mem _ hv)
    rw [Artifacts.uploadFile_run]
    refine ⟨trivial, ?_⟩
    rintro a t' ⟨hread, rfl⟩
    have hread : t₁.read u.path = a := by
      rw [← read_eq_of_kept hset hstack (hbeyond u hu) hkept]
      exact hread
    cases a with
    | error e => exact ⟨⟨n, by omega, hkept⟩, hrest', hdone⟩
    | ok body =>
      refine ⟨trivial, ?_⟩
      rintro r t'' hput
      have hput : cloud.objects.put p.bucket u.key body t' = (r, t'') := hput
      have hroom' : cloud.objects.Room t' 1 :=
        (hkept.room 1 (hroom.mono (by omega))).1
      have hkept' := Site.kept_put hset hkept hput ⟨rfl, .inl (hkeys u hu)⟩
      have hdone' : ∀ v ∈ done, v ∈ us ∧ ∃ bytes, t₁.read v.path = .ok bytes ∧
          cloud.objects.content t'' p.bucket v.key = some bytes := by
        intro v hv
        obtain ⟨hvus, bytes, hbytes, hcontent⟩ := hdone v hv
        refine ⟨hvus, bytes, hbytes, ?_⟩
        refine ObjectStore.content_of_put_before hkept.steady hroom' hput hcontent fun hkey => ?_
        rw [hpaths v hvus u hu hkey, hread] at hbytes
        cases hbytes
        rfl
      cases r with
      | error e => exact ⟨⟨n + 1, by omega, hkept'⟩, hrest', hdone'⟩
      | ok _ =>
        refine ⟨⟨n + 1, by omega, hkept'⟩, hrest', fun v hv => ?_⟩
        rcases List.mem_cons.1 hv with rfl | hv
        · exact ⟨hu, body, hread, (ObjectStore.content_of_put hkept.steady hroom' hput).2⟩
        · exact hdone' v hv
  tell := by
    rintro done rest t c hJ hc
    refine ⟨trivial, ?_⟩
    rintro a t' rfl
    exact hJ

/-- Every upload that failed or not, a batch that succeeded has all artifacts in the bucket. -/
theorem follows_uploads (hset : (s.site cloud).Settled top t)
    (hstack : StackProvider.Contained p.stack)
    (hroom : cloud.objects.Room t (p.plan.uploads.length + 2))
    (hminted : ∀ u ∈ p.plan.uploads, u.version = .mint p.project.timestamp u.artifact)
    (hbeyond : ∀ u ∈ p.plan.uploads, t.Beyond top (s.buildDir.joinText u.artifact)) :
    (Artifacts.uploadAll p.bucket s.uploadConcurrency (pendingUploads s.buildDir p.plan)).Follows
      (s.site cloud).onDisk (fun _ t' =>
        cloud.objects.Kept top (cloud.provider.InStack t.workDir p.stack) (Installs p)
          p.plan.uploads.length t t' ∧
        ∀ u ∈ p.plan.uploads, ∃ bytes, t'.read (s.buildDir.joinText u.artifact) = .ok bytes ∧
          cloud.objects.content t' p.bucket u.version.key = some bytes) t := by
  have hlength : (pendingUploads s.buildDir p.plan).length = p.plan.uploads.length := by
    rw [pendingUploads, List.length_map]
  refine .mono ((batch_onDisk hset hstack (pendingUploads s.buildDir p.plan)
    (by rw [hlength]; exact hroom) ?_ ?_ ?_).follows_uploadAll fun us hus =>
      ⟨⟨0, ?_, ?_⟩, ?_, fun u hu => (by cases hu)⟩) ?_
  · intro u hu
    obtain ⟨v, hv, rfl⟩ := List.mem_map.1 hu
    exact hbeyond v hv
  · intro u hu
    obtain ⟨v, hv, rfl⟩ := List.mem_map.1 hu
    exact List.mem_map.2 ⟨v, hv, rfl⟩
  · -- one key is that of one artifact
    intro u hu v hv hkey
    obtain ⟨u', hu', rfl⟩ := List.mem_map.1 hu
    obtain ⟨v', hv', rfl⟩ := List.mem_map.1 hv
    have hartifact : u'.artifact = v'.artifact := by
      simp only [hminted u' hu', hminted v' hv', FunctionVersion.mint] at hkey
      simpa using hkey
    simp only [hartifact]
  · exact Nat.le_of_eq (by rw [Nat.zero_add, hus.length_eq])
  · exact .refl hset.steady ..
  · exact fun u hu => hus.mem_iff.1 hu
  rintro _ t' ⟨done, ⟨⟨n, hn, hkept⟩, -, hdone⟩, hall⟩
  rw [List.length_nil, Nat.add_zero, hlength] at hn
  refine ⟨hkept.mono (fun _ => id) (fun _ _ => id) hn, fun u hu => ?_⟩
  obtain ⟨-, bytes, hread, hcontent⟩ := hdone _ (hall _ (List.mem_map.2 ⟨u, hu, rfl⟩))
  refine ⟨bytes, ?_, hcontent⟩
  rw [read_eq_of_kept hset hstack (hbeyond u hu) hkept]
  exact hread

/-! ## The template -/

/-- The keys that a run keeps for itself are those of no artifact. -/
theorem mint_ne (timestamp artifact : String) {key : String} (hkey : '/' ∉ key.toList) :
    (FunctionVersion.mint timestamp artifact).key ≠ key := by
  rintro rfl
  exact hkey (by simp [FunctionVersion.mint])

/-- A template is stored as it was rendered, under the key its URL is made for. -/
theorem follows_uploadTemplate (hset : (s.site cloud).Settled top t)
    (hroom : cloud.objects.Room t 1) :
    (uploadTemplate p.bucket stage p.plan.tokens).Follows (s.site cloud).onDisk (fun url t' =>
      cloud.objects.Kept top (cloud.objects.InBucket t.workDir p.bucket)
        (fun b key => b = p.bucket ∧ key = templateKey) 1 t t' ∧
      url = ObjectStore.objectUrl p.bucket templateKey ∧
      ∃ text, (s.site cloud).descriptors.template t .update stage = .ok text ∧
        cloud.objects.content t' p.bucket templateKey =
          some (p.plan.tokens.render text).toUTF8) t := by
  refine .bind (Run.follows_ofProgram ⟨trivial, ?_⟩) (Q := fun text t' => t' = t ∧
    (s.site cloud).descriptors.template t .update stage = .ok text) ?_
  · rintro a t' ⟨ha, rfl⟩ text rfl
    exact ⟨rfl, ha⟩
  rintro text t' ⟨rfl, htext⟩
  refine .bind (.bind (Run.follows_ofProgram ⟨trivial, ?_⟩) (Q := fun _ t'' =>
    cloud.objects.put p.bucket templateKey (p.plan.tokens.render text).toUTF8 t' = (.ok (), t'')) ?_)
    (Q := fun url t'' => url = ObjectStore.objectUrl p.bucket templateKey ∧
      cloud.objects.put p.bucket templateKey (p.plan.tokens.render text).toUTF8 t' = (.ok (), t'')) ?_
  · rintro a t'' hput _ rfl
    exact hput
  · rintro _ t'' hput
    refine Run.follows_ofProgram ⟨trivial, ?_⟩
    rintro a t₁ ha url rfl
    obtain ⟨hurl, rfl⟩ := Prod.mk.inj ha
    exact ⟨(Except.ok.inj hurl).symm, hput⟩
  rintro url t'' ⟨rfl, hput⟩
  refine .bind (Run.follows_onDisk_of_idle (Run.idle_emit id)) ?_
  rintro _ t₁ rfl
  exact Run.follows_pure ⟨(ObjectStore.put_spec hset.steady hput).1, rfl, text, htext,
    (ObjectStore.content_of_put hset.steady hroom hput).2⟩

/-- A stack that was updated has the template that its URL leads to. -/
theorem follows_updateStack (hset : (s.site cloud).Settled top t)
    (hstack : StackProvider.Contained p.stack) {text : String}
    (htext : cloud.objects.content t p.bucket templateKey = some text.toUTF8) :
    (updateStack w p.stack (ObjectStore.objectUrl p.bucket templateKey)).Follows
      (s.site cloud).onDisk (fun _ t' =>
        cloud.objects.Kept top (cloud.provider.InStack t.workDir p.stack) (fun _ _ => False) 0 t t' ∧
        ∃ value doc, Json.parse? text = some value ∧
          cloud.provider.load t' p.stack = .ok (some doc) ∧
          (value.integersOnly = true → doc.template = value)) t := by
  refine .bind (Run.follows_ofProgram ⟨trivial, ?_⟩) (Q := fun outcome t' =>
    cloud.provider.update p.stack (ObjectStore.objectUrl p.bucket templateKey) t =
      (.ok outcome, t')) ?_
  · rintro a t' hupdate outcome rfl
    exact hupdate
  rintro outcome t' hupdate
  have hkept := Site.kept_of_update hset hstack hupdate
  have hsteady : cloud.provider.objects.Steady top t := hset.provider.symm ▸ hset.steady
  obtain ⟨template, hupdated⟩ := StackProvider.update_spec hsteady hset.rooted hstack hupdate
  have hparse : Json.parse? text = some template := by
    refine hupdated.parse_eq ?_
    rwa [show cloud.provider.objects = cloud.objects from hset.provider]
  have hdone (hstatus : outcome = .updating → ∃ status,
      cloud.provider.status t' p.stack = .ok status ∧ status.isFailure = false) :
      cloud.objects.Kept top (cloud.provider.InStack t.workDir p.stack) (fun _ _ => False) 0 t t' ∧
        ∃ value doc, Json.parse? text = some value ∧
          cloud.provider.load t' p.stack = .ok (some doc) ∧
          (value.integersOnly = true → doc.template = value) := by
    obtain ⟨doc, hload, htemplate⟩ := hupdated.load hkept.steady.tidy
      (hset.of_kept hkept).within hstack hstatus
    exact ⟨hkept, template, doc, hparse, hload, htemplate⟩
  cases outcome with
  | updating =>
    refine .bind (Run.follows_onDisk_of_idle (Run.idle_emit id)) ?_
    rintro _ t'' rfl
    refine .bind (.bind (Lifecycle.follows_pollUntilTerminal w p.stack) ?_)
      (Q := fun _ t' => t' = t'' ∧ ∃ status, cloud.provider.status t'' p.stack = .ok status ∧
        status.isFailure = false) ?_
    · rintro status t' ⟨rfl, hstatus⟩
      refine (Run.follows_onDisk_of_idle (Run.idle_emit id)).mono ?_
      rintro _ t'' rfl
      exact ⟨rfl, status, hstatus⟩
    rintro _ t' ⟨rfl, hstatus⟩
    exact Run.follows_pure (hdone fun _ => hstatus)
  | noChanges =>
    refine .bind (Run.follows_onDisk_of_idle (Run.idle_emit id)) ?_
    rintro _ t'' rfl
    exact Run.follows_pure (hdone nofun)

/-! ## Both -/

/-- The disk of a deploy: what it reads of the build lies out of reach of what it does to cloud
and records, and its stack lies among the stacks. -/
structure Layout (s : Settings) (cloud : DiskCloud) (top : Location) (stage : Stage)
    (t : FileTree) : Prop where
  settled : (s.site cloud).Settled top t
  descriptor : t.Beyond top (s.site cloud).descriptors.descriptorPath
  template : t.Beyond top ((s.site cloud).descriptors.templatePath .update stage)
  artifacts : ∀ project, (s.site cloud).descriptors.load t = .ok project →
    ∀ f ∈ project.active stage,
      t.Beyond top (s.buildDir.joinText (Redeploy.artifactOf project f))
  stack : ∀ project, (s.site cloud).descriptors.load t = .ok project →
    StackProvider.Contained (stage.stackName project.name)

/-- The artifacts of a plan and the template rendered for it are in the cloud. -/
structure Installed (s : Settings) (cloud : DiskCloud) (stage : Stage) (p : Prepared)
    (t : FileTree) : Prop where
  artifacts : ∀ u ∈ p.plan.uploads, ∃ bytes, t.read (s.buildDir.joinText u.artifact) = .ok bytes ∧
    cloud.objects.content t p.bucket u.version.key = some bytes
  template : ∃ text value doc, (s.site cloud).descriptors.template t .update stage = .ok text ∧
    Json.parse? (p.plan.tokens.render text) = some value ∧
    cloud.provider.load t p.stack = .ok (some doc) ∧
    (value.integersOnly = true → doc.template = value)

variable {S : Location → Prop} {K : String → String → Prop} {n : Nat}

theorem load_eq_of_beyond {d : ProjectFiles} (h : t.Beyond top d.descriptorPath)
    (ht' : t'.Tidy top) (htouched : Touched top (top <+: ·) t t') : d.load t' = d.load t := by
  unfold ProjectFiles.load
  simp only [h.readRequired_eq ht' htouched]

theorem template_eq_of_beyond {d : ProjectFiles} {kind : TemplateKind}
    (h : t.Beyond top (d.templatePath kind stage)) (ht' : t'.Tidy top)
    (htouched : Touched top (top <+: ·) t t') : d.template t' kind stage = d.template t kind stage :=
  h.readRequired_eq ht' htouched _

theorem Layout.of_kept (h : Layout s cloud top stage t) (hkept : cloud.objects.Kept top S K n t t')
    (hS : ∀ l, S l → top <+: l) : Layout s cloud top stage t' := by
  have ht' := hkept.steady.tidy
  have htouched : Touched top (top <+: ·) t t' := hkept.touched.mono hS
  have hload := load_eq_of_beyond h.descriptor ht' htouched
  refine ⟨h.settled.of_kept hkept, h.descriptor.of_touched ht' htouched,
    h.template.of_touched ht' htouched, fun project hproject f hf => ?_,
    fun project hproject => h.stack project (hload ▸ hproject)⟩
  exact (h.artifacts project (hload ▸ hproject) f hf).of_touched ht' htouched

/-- What is installed stays while its objects and its stack are left alone. -/
theorem Installed.of_kept (h : Installed s cloud stage p t) (hlayout : Layout s cloud top stage t)
    (hkept : cloud.objects.Kept top S K n t t') (hroom : cloud.objects.Room t n)
    (hS : ∀ l, S l → top <+: l) (hstack : StackProvider.Contained p.stack)
    (hdocument : ¬S (cloud.provider.stackPlace t.workDir p.stack))
    (hbeyond : ∀ u ∈ p.plan.uploads, t.Beyond top (s.buildDir.joinText u.artifact))
    (hkeys : ∀ u ∈ p.plan.uploads, ¬K p.bucket u.version.key) :
    Installed s cloud stage p t' := by
  have ht' := hkept.steady.tidy
  have htouched : Touched top (top <+: ·) t t' := hkept.touched.mono hS
  refine ⟨fun u hu => ?_, ?_⟩
  · obtain ⟨bytes, hread, hcontent⟩ := h.artifacts u hu
    refine ⟨bytes, ?_, ?_⟩
    · rw [(hbeyond u hu).read_eq ht' htouched, hread]
    · rw [hkept.content_eq hroom (hkeys u hu), hcontent]
  · obtain ⟨text, value, doc, htext, hvalue, hload, hsame⟩ := h.template
    refine ⟨text, value, doc, ?_, hvalue, ?_, hsame⟩
    · rw [template_eq_of_beyond hlayout.template ht' htouched, htext]
    · exact (StackProvider.load_of_touched hlayout.settled.steady.tidy ht' hlayout.settled.within
        hstack hkept.touched hdocument).2 hload

theorem Layout.contained {project : Except Failure Project} (h : Layout s cloud top stage t)
    (hproject : (s.site cloud).descriptors.load t = project) (hplanned : Planned stage project p) :
    StackProvider.Contained p.stack := by
  rw [hplanned.stack]
  exact h.stack p.project (hproject.trans hplanned.project)

theorem Layout.beyond {project : Except Failure Project} (h : Layout s cloud top stage t)
    (hproject : (s.site cloud).descriptors.load t = project) (hplanned : Planned stage project p)
    {u : ArtifactUpload} (hu : u ∈ p.plan.uploads) :
    t.Beyond top (s.buildDir.joinText u.artifact) := by
  obtain ⟨-, f, hf, hartifact⟩ := hplanned.artifact hu
  rw [hartifact]
  exact h.artifacts p.project (hproject.trans hplanned.project) f hf

theorem inStack_below (h : Layout s cloud top stage t) {stack : String}
    (hstack : StackProvider.Contained stack) {l : Location}
    (hl : cloud.provider.InStack t.workDir stack l) : top <+: l :=
  StackProvider.InStack.below h.settled.rooted h.settled.within hstack hl

/-- A deploy that comes to its commit has installed its plan. -/
theorem follows_install_onDisk (hlayout : Layout s cloud top stage t)
    {project : Except Failure Project} (hproject : (s.site cloud).descriptors.load t = project)
    (hplanned : Planned stage project p)
    (hroom : cloud.objects.Room t (p.plan.uploads.length + 2)) :
    (install s w stage p).Follows (s.site cloud).onDisk
      (fun _ t' => Installed s cloud stage p t') t := by
  have hstack := hlayout.contained hproject hplanned
  have hset := hlayout.settled
  refine .bind (Run.follows_onDisk_of_idle Run.idle_checkCancelled) ?_
  rintro _ t' rfl
  refine .bind (follows_uploads hset hstack hroom (fun u hu => (hplanned.artifact hu).1)
    fun u hu => hlayout.beyond hproject hplanned hu) ?_
  rintro _ t₁ ⟨hkept₁, hartifacts⟩
  have hlayout₁ := hlayout.of_kept hkept₁ fun l hl => inStack_below hlayout hstack hl
  have hroom₁ : cloud.objects.Room t₁ 2 :=
    (hkept₁.room 2 (hroom.mono (by omega))).1
  refine .bind (Run.follows_onDisk_of_idle Run.idle_checkCancelled) ?_
  rintro _ t₁' rfl
  refine .bind (follows_uploadTemplate hlayout₁.settled (hroom₁.mono (by omega))) ?_
  rintro url t₂ ⟨hkept₂, rfl, text, htext, hcontent⟩
  have hinStore (l : Location) (hl : cloud.objects.InBucket t₁'.workDir p.bucket l) :
      cloud.objects.InStore t₁'.workDir l := ⟨p.bucket, hl⟩
  have hlayout₂ := hlayout₁.of_kept hkept₂ fun l hl =>
    (hinStore l hl).below hlayout₁.settled.steady.within
  have htext₂ : (s.site cloud).descriptors.template t₂ .update stage = .ok text := by
    rw [template_eq_of_beyond hlayout₁.template hkept₂.steady.tidy
      (hkept₂.touched.mono fun l hl => (hinStore l hl).below hlayout₁.settled.steady.within), htext]
  refine .bind (follows_updateStack hlayout₂.settled hstack hcontent) ?_
  rintro updated t₃ ⟨hkept₃, value, doc, hvalue, hload, hsame⟩
  have hkept : cloud.objects.Kept top (cloud.provider.InStack t₁'.workDir p.stack)
      (fun b key => b = p.bucket ∧ key = templateKey) 1 t₁' t₃ := by
    refine (hkept₂.mono (fun l hl => .inr ?_) (fun _ _ => id) (Nat.le_refl _)).extend
      hlayout₁.settled.steady hkept₃ (fun l hl => ?_) (fun _ _ => False.elim) (Nat.le_refl _)
    · rwa [hkept₂.touched.work] at hl
    · rw [show cloud.provider.objects = cloud.objects from hlayout₁.settled.provider]
      exact hinStore l hl
  have hbelow (l : Location) (hl : cloud.provider.InStack t₁'.workDir p.stack l) : top <+: l :=
    inStack_below hlayout₁ hstack hl
  refine Run.follows_pure ⟨fun u hu => ?_, text, value, doc, ?_, hvalue, hload, hsame⟩
  · obtain ⟨bytes, hread, hbytes⟩ := hartifacts u hu
    refine ⟨bytes, ?_, ?_⟩
    · rw [((hlayout.beyond hproject hplanned hu).of_touched hkept₁.steady.tidy
        (hkept₁.touched.mono fun l hl => inStack_below hlayout hstack hl)).read_eq
        hkept.steady.tidy (hkept.touched.mono hbelow), hread]
    · rw [hkept.content_eq (hroom₁.mono (by omega)) ?_, hbytes]
      rintro ⟨-, hkey⟩
      rw [(hplanned.artifact hu).1] at hkey
      exact mint_ne _ _ (by decide) hkey
  · rw [template_eq_of_beyond hlayout₂.template hkept₃.steady.tidy
      (hkept₃.touched.mono fun l hl => inStack_below hlayout₂ hstack hl), htext₂]

end Deploy

end Rollout
