import Rollout.Proofs.Run.Sharing

/-!
A deploy keeps to the rules of `Fleet.sharing`. It builds upon a record that was genuine when it was
loaded, and saves its own only when everything it has uploaded is in the bucket. What it uploads
goes under its own keys, the template and the marker under keys of no artifact.
-/

namespace Rollout.Fleet

variable {ι μ : Type} {F : Fleet ι} {stale : String → Prop} {i j : ι} {s s' : Shared μ}
  {artifact : String} [DecidableEq μ] {post : Post ι μ}

/-! ## Deciding -/

/-- What a run has found out when it goes about what it has decided: its plan builds upon a
genuine record. -/
structure Ready (F : Fleet ι) (post : Post ι μ) (s : Shared μ) (p : Deploy.Prepared) : Prop where
  bucket : p.bucket = F.bucket
  project : p.project = (F.compilation post.compilation).project
  plan : ∃ previous marker,
    (Redeploy.mode p.project previous marker = .incremental → F.Vouched s previous) ∧
    p.plan = Redeploy.plan p.project F.stage previous marker
      (F.compilation post.compilation).fingerprint

omit [DecidableEq μ] in
theorem Ready.of_preserves {p : Deploy.Prepared} (h : F.Ready post s p)
    (hs : F.Preserves stale s s') : F.Ready post s' p := by
  obtain ⟨previous, marker, hprevious, hplan⟩ := h.plan
  exact ⟨h.bucket, h.project, previous, marker,
    fun hmode => (hprevious hmode).of_stored hs.stored, hplan⟩

omit [DecidableEq μ] in
/-- What is reused is genuine. -/
theorem Ready.genuine {p : Deploy.Prepared} {f : FunctionSpec} (h : F.Ready post s p)
    (hf : f ∈ p.project.active F.stage) (hreused : f.entryPoint ∈ p.plan.reused) :
    ∃ v hash, p.plan.record.get? f.entryPoint = some ⟨v, some hash⟩ ∧
      (F.compilation post.compilation).fingerprint f = .ok hash ∧
      F.Genuine s f.entryPoint v hash := by
  obtain ⟨-, hproject, previous, marker, hprevious, hplan⟩ := h
  have hvalid : p.project.fault? = none := hproject ▸ F.valid _
  rw [hplan] at hreused ⊢
  have hkeeps := Redeploy.keeps_of_mem_reused hvalid hf hreused
  obtain ⟨d, hash, hget, hrecorded, hcurrent⟩ := hkeeps.2
  refine ⟨d.version, hash, ?_, hcurrent, ?_⟩
  · rw [Redeploy.get?_record hvalid hf, ← Redeploy.deployed_of_keeps hkeeps, hget, ← hrecorded]
  · exact hprevious hkeeps.1 _ (TextMap.mem_of_get? hget) hash hrecorded

theorem follows_loadProject :
    Deploy.loadProject.Follows (F.sharing stale post)
      (fun p _ => p = (F.compilation post.compilation).project) s := by
  refine Run.follows_ofProgram ⟨id, ?_⟩
  rintro a s' ⟨now, -, -, hproject⟩ p rfl
  exact hproject p rfl

theorem follows_load :
    (Tracking.load F.stage).Follows (F.sharing stale post)
      (fun loaded s' => ∀ t, loaded.record.timestamp = some t → ¬stale t →
        F.Vouched s' loaded.record) s := by
  refine ⟨id, ?_⟩
  rintro a s' ⟨now, hnow, rfl, hload⟩
  cases a with
  | ok r =>
    obtain rfl := hload r rfl rfl
    exact hnow.sound.vouched post.machine
  | error e =>
    intro t ht
    cases ht

theorem innocent_ensureStack (w : Waiting) (stack : String) (stage : Stage) :
    (Deploy.ensureStack w stack stage).Only (F.Innocent stale) := by
  refine Run.only_bind (only_innocent (Deploy.idle_readTemplate ..)) fun body => ?_
  refine Run.only_bind (Run.only_ofProgram ⟨id, fun _ => trivial⟩) fun outcome => ?_
  cases outcome with
  | created =>
    refine Run.only_bind (only_innocent (Run.idle_emit id)) fun _ => ?_
    exact Run.only_bind (only_innocent (Deploy.idle_awaitStack ..)) fun _ => Run.only_pure _
  | alreadyExists => exact Run.only_bind (only_innocent (Run.idle_emit id)) fun _ => Run.only_pure _

theorem follows_resolveBucket (w : Waiting) {stack : String}
    (hstack : stack = F.stage.stackName (F.compilation post.compilation).project.name) :
    (Deploy.resolveBucket w stack).Follows (F.sharing stale post) (fun b _ => b = F.bucket) s := by
  refine .bind (Lifecycle.follows_findExport (V := (· = F.bucket))
    (fun _ _ hr => allowed_of_innocent (innocent_of_idle hr)) ?_ w) fun found s' hfound => ?_
  · rintro s token page s' ⟨now, -, -, hpage⟩ e he hname
    exact hpage page rfl e he (hname.trans (congrArg _ hstack))
  cases found with
  | found value => exact Run.follows_pure (hfound value rfl)
  | notFound attempts => exact Run.follows_throw _

theorem follows_fingerprints (fs : List FunctionSpec) :
    (Tracking.fingerprints fs).Follows (F.sharing stale post)
      (fun hashed _ =>
        hashed = fs.map fun f => (f, (F.compilation post.compilation).fingerprint f)) s := by
  induction fs generalizing s with
  | nil => rfl
  | cons f fs ih =>
    refine ⟨id, ?_⟩
    rintro hash s' ⟨now, -, -, rfl⟩
    refine Program.Follows.bind ih ?_
    rintro hashed s'' rfl
    rfl

theorem follows_decide (p : Project) (previous : Record) (marker : Option String) :
    (Tracking.decide p F.stage previous marker).Follows (F.sharing stale post)
      (fun plan _ => plan = Redeploy.plan p F.stage previous marker
        (F.compilation post.compilation).fingerprint) s := by
  refine Program.Follows.bind (follows_fingerprints _) ?_
  rintro hashed s' rfl
  rfl

theorem follows_readMarker :
    (Artifacts.readMarker F.bucket).Follows (F.sharing stale post)
      (fun marker _ => ∀ t, marker = some t → ¬stale t) s := by
  refine .bind (.bind (Run.follows_ofProgram ⟨id, ?_⟩) (Q := fun found _ =>
    ∀ body, found = some body → ¬stale (markerText body)) ?_)
    (Q := fun text _ => ∀ t, text = some t → ¬stale t) ?_
  · rintro a s' ⟨now, hnow, rfl, hget⟩ found rfl body rfl
    exact hnow.sound.marker body (hget _ rfl rfl).symm
  · intro found s' hfound
    refine Run.follows_pure fun t ht => ?_
    obtain ⟨body, rfl, rfl⟩ := Option.map_eq_some_iff.1 ht
    exact hfound body rfl
  · intro text s' htext
    exact Run.follows_pure fun t ht => htext t (Option.filter_eq_some_iff.1 ht).1

/-- What a run decides builds upon a genuine record. -/
theorem follows_prepare (w : Waiting) (hs : F.Sound stale s) :
    (Deploy.prepare w F.stage).Follows (F.sharing stale post)
      (fun p s' => F.Ready post s' p) s := by
  refine follows_bind hs follows_loadProject ?_
  rintro project s₁ h₁ rfl
  refine follows_bind h₁.sound (follows_of_idle (Run.idle_emit id)) fun _ s₂ h₂ _ => ?_
  refine follows_bind h₂.sound (Run.follows_liftProgram follows_load) fun loaded s₃ h₃ hloaded => ?_
  refine follows_bind h₃.sound (follows_of_innocent (innocent_ensureStack ..)) fun _ s₄ h₄ _ => ?_
  refine follows_bind h₄.sound (follows_resolveBucket w rfl) ?_
  rintro bucket s₅ h₅ rfl
  refine follows_bind h₅.sound (follows_of_idle (Run.idle_emit id)) fun _ s₆ h₆ _ => ?_
  refine follows_bind h₆.sound follows_readMarker fun marker s₇ h₇ hmarker => ?_
  refine follows_bind h₇.sound (Run.follows_liftProgram (follows_decide ..)) ?_
  rintro plan s₈ h₈ rfl
  refine follows_bind h₈.sound (follows_of_idle (Run.idle_emit id)) fun _ s₉ h₉ _ => ?_
  have hstays := ((((h₄.trans h₅).trans h₆).trans h₇).trans h₈).trans h₉
  refine Run.follows_pure ⟨rfl, rfl, _, _, fun hmode => ?_, rfl⟩
  -- only what the marker names is built upon, and the marker names nothing stale
  obtain ⟨-, t, ht, hnamed⟩ := Redeploy.mode_eq_incremental.1 hmode
  exact (hloaded t ht (hmarker t hnamed)).of_stored hstays.stored

/-! ## Committing -/

/-- Whether an upload is that of an artifact of the run's compilation. -/
def Own (F : Fleet ι) (post : Post ι μ) (u : PendingUpload) : Prop :=
  ∃ artifact, u = ⟨post.settings.buildDir.joinText artifact, F.key post.compilation artifact⟩

/-- Whether an artifact of the run's compilation that goes under the key of an upload is stored. -/
def Placed (F : Fleet ι) (post : Post ι μ) (s : Shared μ) (u : PendingUpload) : Prop :=
  ∀ artifact, u.key = F.key post.compilation artifact → F.Stored s post.compilation artifact

omit [DecidableEq μ] in
theorem Placed.of_preserves {u : PendingUpload} (h : F.Placed post s u)
    (hs : F.Preserves stale s s') : F.Placed post s' u :=
  fun artifact hkey => hs.stored _ _ (h artifact hkey)

/-- Artifacts are stored as they were built. -/
theorem batch_sharing :
    Artifacts.Batch (F.sharing stale post) F.bucket fun done rest s =>
      (∀ u ∈ done, F.Placed post s u) ∧ ∀ u ∈ rest, F.Own post u where
  upload := by
    rintro done u rest s ⟨hdone, hrest⟩
    obtain ⟨artifact, rfl⟩ := hrest u List.mem_cons_self
    have hrest' : ∀ v ∈ rest, F.Own post v := fun v hv => hrest v (List.mem_cons_of_mem _ hv)
    rw [Artifacts.uploadFile_run]
    refine ⟨id, ?_⟩
    rintro body s' ⟨now, hnow, rfl, hbody⟩
    cases body with
    | error e => exact ⟨fun v hv => (hdone v hv).of_preserves hnow, hrest'⟩
    | ok body =>
      obtain rfl := hbody artifact body rfl rfl
      have hallowed : (F.sharing stale post).allowed s' (.store (.put F.bucket
          (F.key post.compilation artifact)
          ((F.compilation post.compilation).artifact artifact))) :=
        fun _ => honest_artifact _ artifact
      refine ⟨hallowed, fun answer s'' ha => ?_⟩
      have hdone' : ∀ v ∈ done, F.Placed post s'' v :=
        fun v hv => (hdone v hv).of_preserves (hnow.trans (preserves_of_after hallowed ha))
      cases answer with
      | error e => exact ⟨hdone', hrest'⟩
      | ok _ =>
        refine ⟨fun v hv => ?_, hrest'⟩
        rcases List.mem_cons.1 hv with rfl | hv
        · intro a hkey
          obtain ⟨-, rfl⟩ := key_inj hkey
          obtain ⟨later, -, ⟨-, hbucket⟩ | ⟨-, rfl⟩⟩ := ha
          · exact absurd rfl (hbucket rfl)
          · exact Function.update_self ..
        · exact hdone' v hv
  tell := by
    rintro done rest s c ⟨hdone, hrest⟩ hc
    have hallowed : (F.sharing stale post).allowed s (.control c) :=
      allowed_of_innocent (innocent_of_idle hc)
    exact ⟨hallowed, fun a s' ha =>
      ⟨fun u hu => (hdone u hu).of_preserves (preserves_of_after hallowed ha), hrest⟩⟩

omit [DecidableEq μ] in
/-- The record of a plan is genuine when the uploads of the plan are done. -/
theorem Ready.vouched_record {p : Deploy.Prepared} (h : F.Ready post s p)
    (hplaced : ∀ u ∈ Deploy.pendingUploads post.settings.buildDir p.plan, F.Placed post s u) :
    F.Vouched s p.plan.record := by
  obtain ⟨previous, marker, hprevious, hplan⟩ := h.plan
  rw [hplan] at hplaced ⊢
  rw [h.project] at *
  intro e he hash hhash
  obtain ⟨x, hx, hentry, hcase⟩ := Redeploy.mem_record he
  obtain ⟨f, hf, rfl⟩ := List.mem_map.1 hx
  rcases hcase with ⟨hmode, hget⟩ | ⟨hfresh, hupload⟩
  · exact hprevious (Redeploy.isIncremental_iff.1 hmode) e (TextMap.mem_of_get? hget) hash hhash
  · rw [hfresh] at hhash ⊢
    refine ⟨post.compilation, f, (List.mem_filter.1 hf).1, hentry.symm, ?_, rfl, ?_⟩
    · exact Outcome.toOption_eq_some.1 ((Redeploy.hash?_eq f).symm.trans hhash)
    · exact hplaced _ (List.mem_map.2 ⟨_, hupload, rfl⟩) _ rfl

/-- Whether a compilation may be made the live one: its timestamp is not stale, and if any is,
no file is uploaded to where the marker might be. -/
structure Live (F : Fleet ι) (stale : String → Prop) (i : ι) : Prop where
  timestamp : ¬stale (Text.trim (F.compilation i).project.timestamp)
  files : ∀ u ∈ (F.compilation i).project.fileUploadsFor F.stage, u.bucket = F.bucket →
    ∀ t, ¬stale t

theorem innocent_put {key : String} {body : ByteArray} (h : F.Honest stale key body)
    (bucket : String) (toFailure : StoreError → Failure) :
    (Run.store (.put bucket key body) toFailure).Only (F.Innocent stale) :=
  Run.only_ofProgram ⟨fun _ => h, fun _ => trivial⟩

theorem honest_templateKey (body : ByteArray) : F.Honest stale templateKey body where
  artifact i artifact hkey := absurd hkey (aside_of_not_mem (by decide) i artifact)
  marker hkey := absurd hkey (by decide)

theorem Live.honest_markerKey (h : F.Live stale i) :
    F.Honest stale markerKey (F.compilation i).project.timestamp.toUTF8 where
  artifact j artifact hkey := absurd hkey.symm (key_ne_markerKey j artifact)
  marker _ := by
    rw [markerText_toUTF8]
    exact h.timestamp

theorem innocent_uploadTemplate (bucket : String) (stage : Stage) (values : Substitutions) :
    (Deploy.uploadTemplate bucket stage values).Only (F.Innocent stale) := by
  refine Run.only_bind (only_innocent (Deploy.idle_readTemplate ..)) fun template => ?_
  refine Run.only_bind (Run.only_bind (innocent_put (honest_templateKey _) ..) fun _ => ?_)
    fun url => ?_
  · exact only_innocent (Artifacts.idle_url ..)
  · exact Run.only_bind (only_innocent (Run.idle_emit id)) fun _ => Run.only_pure _

theorem innocent_updateStack (w : Waiting) (stack url : String) :
    (Deploy.updateStack w stack url).Only (F.Innocent stale) := by
  refine Run.only_bind (Run.only_ofProgram ⟨id, fun _ => trivial⟩) fun outcome => ?_
  cases outcome with
  | updating =>
    refine Run.only_bind (only_innocent (Run.idle_emit id)) fun _ => ?_
    exact Run.only_bind (only_innocent (Deploy.idle_awaitStack ..)) fun _ => Run.only_pure _
  | noChanges => exact Run.only_bind (only_innocent (Run.idle_emit id)) fun _ => Run.only_pure _

/-- A commit saves a genuine record, and then only stores the marker. -/
theorem follows_commit {stage : Stage} {r : Record} (hlive : F.Live stale i) (h : F.Vouched s r)
    (ht : r.timestamp = some (F.compilation i).project.timestamp) (bucket : String) :
    (Tracking.commit stage r bucket).Follows (F.sharing stale post) (fun _ _ => True) s := by
  refine .bind (Run.follows_ofProgram ⟨h, fun _ _ _ _ _ => trivial⟩) (Q := fun _ _ => True)
    fun _ s' _ => ?_
  rw [ht]
  exact follows_of_innocent (innocent_put hlive.honest_markerKey ..)

theorem follows_apply {w : Waiting} {p : Deploy.Prepared} (hlive : F.Live stale post.compilation)
    (hs : F.Sound stale s) (h : F.Ready post s p) :
    (Deploy.apply post.settings w F.stage p).Follows (F.sharing stale post)
      (fun _ _ => True) s := by
  obtain ⟨previous, marker, -, hplan⟩ := h.plan
  have htimestamp : p.plan.record.timestamp =
      some (F.compilation post.compilation).project.timestamp := by
    rw [hplan, ← h.project]
    exact Redeploy.record_spec.2.1
  have howned : ∀ u ∈ Deploy.pendingUploads post.settings.buildDir p.plan, F.Own post u := by
    intro u hu
    obtain ⟨v, hv, rfl⟩ := List.mem_map.1 hu
    rw [hplan] at hv
    refine ⟨v.artifact, ?_⟩
    rw [Redeploy.version_of_mem_uploads hv, h.project]
    rfl
  refine follows_bind hs (follows_of_idle Run.idle_checkCancelled) fun _ s₁ h₁ _ => ?_
  rw [h.bucket]
  refine follows_bind h₁.sound
    (batch_sharing.follows_uploadAll fun us hus => ⟨nofun, fun u hu => ?_⟩)
    fun _ s₂ h₂ hdone => ?_
  · exact howned u (hus.mem_iff.1 hu)
  obtain ⟨done, ⟨hplaced, -⟩, hall⟩ := hdone
  refine follows_bind h₂.sound (follows_of_idle Run.idle_checkCancelled) fun _ s₃ h₃ _ => ?_
  refine follows_bind h₃.sound (follows_of_innocent (innocent_uploadTemplate ..))
    fun url s₄ h₄ _ => ?_
  refine follows_bind h₄.sound (follows_of_innocent (innocent_updateStack ..))
    fun updated s₅ h₅ _ => ?_
  have hlater := (h₃.trans h₄).trans h₅
  have hready := h.of_preserves ((h₁.trans h₂).trans hlater)
  refine .bind (follows_commit hlive (hready.vouched_record fun u hu => ?_) htimestamp _)
    fun _ s₆ _ => ?_
  · exact (hplaced u (hall u hu)).of_preserves hlater
  · exact follows_of_innocent (Run.only_bind (Run.only_emit id) fun _ => Run.only_pure _)

/-! ## After the commit -/

theorem innocent_uploadEach {bucket : String} (values : Option Substitutions)
    {us : List PendingUpload}
    (h : bucket = F.bucket → (∀ t, ¬stale t) ∧ ∀ u ∈ us, F.Aside u.key) :
    (Artifacts.uploadEach bucket values us).Only (F.Innocent stale) := by
  induction us with
  | nil => exact Run.only_pure _
  | cons u us ih =>
    refine Run.only_bind (only_innocent (Artifacts.idle_contentFor ..)) fun body => ?_
    refine Run.only_bind (Run.only_ofProgram ⟨fun hbucket => ?_, fun _ => trivial⟩) fun _ => ?_
    · obtain ⟨hfresh, haside⟩ := h hbucket
      exact ⟨fun i artifact hkey => absurd hkey (haside u List.mem_cons_self i artifact),
        fun _ => hfresh _⟩
    · refine Run.only_bind (ih fun hbucket => ?_) fun _ => Run.only_pure _
      obtain ⟨hfresh, haside⟩ := h hbucket
      exact ⟨hfresh, fun v hv => haside v (List.mem_cons_of_mem _ hv)⟩

theorem follows_uploadPath {u : FileUpload} {values : Option Substitutions}
    (hlive : F.Live stale post.compilation)
    (hu : u ∈ (F.compilation post.compilation).project.fileUploadsFor F.stage) :
    (Artifacts.uploadPath u.bucket (post.settings.projectRoot.join u.source) u.target
      values).Follows (F.sharing stale post) (fun _ _ => True) s := by
  refine .bind (Run.follows_ofProgram ⟨id, ?_⟩) (Q := fun found _ => ∀ us,
    Artifacts.pendingUploads (post.settings.projectRoot.join u.source)
      (Artifacts.trimTarget u.target) found = .ok us →
        u.bucket = F.bucket → ∀ v ∈ us, F.Aside v.key) ?_
  · rintro a s' ⟨now, -, -, haside⟩ found rfl us hus hbucket
    exact haside u hu hbucket rfl found us rfl hus
  · intro found s' hfound
    cases hus : Artifacts.pendingUploads (post.settings.projectRoot.join u.source)
      (Artifacts.trimTarget u.target) found with
    | error e => exact Run.follows_throw _
    | ok us =>
      exact follows_of_innocent (innocent_uploadEach values fun hbucket =>
        ⟨hlive.files u hu hbucket, hfound us hus hbucket⟩)

theorem follows_uploadFiles (values : Substitutions) (hlive : F.Live stale post.compilation)
    {us : List FileUpload}
    (hus : ∀ u ∈ us, u ∈ (F.compilation post.compilation).project.fileUploadsFor F.stage) :
    (Deploy.uploadFiles post.settings.projectRoot values us).Follows (F.sharing stale post)
      (fun _ _ => True) s := by
  induction us generalizing s with
  | nil => exact Run.follows_pure trivial
  | cons u us ih =>
    refine .bind (follows_of_idle Run.idle_checkCancelled) fun _ s₁ _ => ?_
    refine .bind (follows_uploadPath hlive (hus u List.mem_cons_self)) fun keys s₂ _ => ?_
    refine .bind (follows_of_idle (Deploy.idle_reportFiles ..)) fun files s₃ _ => ?_
    exact .bind (ih fun v hv => hus v (List.mem_cons_of_mem _ hv))
      fun _ _ _ => Run.follows_pure trivial

theorem follows_finish {w : Waiting} {options : DeployOptions} {p : Deploy.Prepared}
    (hstage : options.stage = F.stage) (hlive : F.Live stale post.compilation)
    (h : F.Ready post s p) (a : Deploy.Applied) :
    (Deploy.finish post.settings w options p a).Follows (F.sharing stale post)
      (fun _ _ => True) s := by
  refine .bind (follows_of_idle (Deploy.idle_resolveExports ..)) fun found s₁ _ => ?_
  refine .bind (follows_uploadFiles found.values hlive fun u hu => ?_) fun files s₂ _ => ?_
  · rw [← h.project, ← hstage]
    exact hu
  have hcomplete (e : Event) (he : ¬e.IsCommit) (r : DeployReport) :
      (Run.emit e >>= fun _ => pure r).Only (F.Innocent stale) :=
    Run.only_bind (only_innocent (Run.idle_emit he)) fun _ => Run.only_pure r
  cases options.skipHooks with
  | true => exact follows_of_innocent (Run.only_bind (Run.only_pure _) fun _ => hcomplete _ id _)
  | false =>
    have hhooks := Deploy.only_runHooks (A := F.Innocent stale) (fun _ => innocent_of_idle)
      (fun _ => id) (p.project.hooksFor options.stage)
    exact follows_of_innocent
      (Run.only_bind (Run.only_liftProgram hhooks) fun _ => hcomplete _ id _)

/-- A run goes about what it has decided by the rules. -/
theorem follows_proceed {w : Waiting} {options : DeployOptions} {p : Deploy.Prepared}
    (hs : F.Sound stale s) (hstage : options.stage = F.stage)
    (hlive : F.Live stale post.compilation) (h : F.Ready post s p) :
    (Deploy.proceed post.settings w options p).Follows (F.sharing stale post)
      (fun _ _ => True) s := by
  refine follows_bind (Q := fun _ _ => True) hs ?_
    fun applied s' h' _ => follows_finish hstage hlive (h.of_preserves h') applied
  rw [hstage]
  exact follows_apply hlive hs h

end Rollout.Fleet
