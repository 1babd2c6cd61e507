import Rollout.Proofs.Run.Installed

/-!
The commit of a deploy. Record and markers stay as they were until a record is saved, and when
a deploy announces its commit everything that the record vouches for is in place.
-/

namespace Rollout

open FileTree

/-- Whether a record was saved. -/
def Moment.Saved {σ : Type} : Moment σ → Prop
  | ⟨.record (.save ..), .ok _, _, _⟩ => True
  | _ => False

theorem Moment.isSave_of_saved {σ : Type} {m : Moment σ} (h : m.Saved) : m.request.IsSave := by
  obtain ⟨r, a, _, _⟩ := m
  cases r with
  | record c =>
    cases c with
    | save stage r => exact trivial
    | _ => exact h
  | _ => exact h

/-! ## After the commit -/

section Only

open Run

variable {A : Request → Prop} (hidle : ∀ r, r.Idle → A r)
  (hput : ∀ bucket key body, A (.store (.put bucket key body)))

include hidle hput

theorem Artifacts.only_uploadEach (bucket : String) (values : Option Substitutions)
    (us : List PendingUpload) : (uploadEach bucket values us).Only A := by
  induction us with
  | nil => exact only_pure _
  | cons u us ih =>
    refine only_bind ((idle_contentFor u values).mono hidle) fun body => ?_
    exact only_bind (only_ofProgram ⟨hput .., fun _ => trivial⟩) fun _ =>
      only_bind ih fun _ => only_pure _

theorem Artifacts.only_uploadPath (bucket : String) (source : Path) (target : String)
    (values : Option Substitutions) : (uploadPath bucket source target values).Only A := by
  refine only_bind (only_ofProgram ⟨hidle _ trivial, fun _ => trivial⟩) fun found => ?_
  split
  · exact only_throw _
  · exact only_uploadEach hidle hput ..

theorem Deploy.only_uploadFiles (root : Path) (values : Substitutions) (us : List FileUpload) :
    (uploadFiles root values us).Only A := by
  induction us with
  | nil => exact only_pure _
  | cons u us ih =>
    refine only_bind (only_checkCancelled (hidle _ trivial)) fun _ =>
      only_bind (Artifacts.only_uploadPath hidle hput ..) fun keys => ?_
    exact only_bind ((idle_reportFiles ..).mono hidle) fun _ =>
      only_bind ih fun _ => only_pure _

/-- After its commit a deploy looks, stores files and invokes hooks. -/
theorem Deploy.only_finish (hhook : ∀ name, A (.hook name)) (s : Settings) (w : Waiting)
    (options : DeployOptions) (p : Prepared) (a : Applied) : (finish s w options p a).Only A := by
  refine only_bind (Program.Only.mono (idle_resolveExports ..) hidle) fun found =>
    only_bind (only_uploadFiles hidle hput ..) fun files => ?_
  have hemit {e : Event} (he : ¬e.IsCommit) : A (.control (.emit e)) := hidle _ he
  by_cases hskip : options.skipHooks
  · simp only [hskip, if_true]
    exact only_bind (only_pure _) fun hooks => only_bind (only_emit (hemit id)) fun _ => only_pure _
  · simp only [hskip]
    exact only_bind (only_liftProgram (only_runHooks hidle hhook _)) fun hooks =>
      only_bind (only_emit (hemit id)) fun _ => only_pure _

end Only

/-- A deploy announces no commit after its commit. -/
theorem Deploy.silent_finish (s : Settings) (w : Waiting) (options : DeployOptions) (p : Prepared)
    (a : Applied) : (finish s w options p a).Only (¬·.Announces) :=
  only_finish (fun _ => Request.Idle.not_announces) (fun _ _ _ => id) (fun _ => id) s w options p a

/-! ## Moments around a commit -/

/-- The moments of a run that leaves the world as it was before until a record is saved, and
announces a commit only in a world where it has happened. -/
structure CommitsSafely {σ : Type} (untouched committed : σ → Prop) (ms : List (Moment σ))
    (last : σ) : Prop where
  /-- Without a saved record, the run leaves the world as it was. -/
  failed : (∀ m ∈ ms, ¬m.Saved) → untouched last
  announced : ∀ m ∈ ms, m.request.Announces → committed m.before
  /-- Up to the moment that saves a record, the world is as it was. -/
  first : ∀ pre m post, ms = pre ++ m :: post → (∀ m' ∈ pre, ¬m'.Saved) → untouched m.before

namespace CommitsSafely

variable {σ : Type} {untouched committed : σ → Prop} {ms ms' : List (Moment σ)} {m : Moment σ}
  {last : σ}

theorem mono {untouched' committed' : σ → Prop} (h : CommitsSafely untouched committed ms last)
    (hu : ∀ s, untouched s → untouched' s) (hc : ∀ s, committed s → committed' s) :
    CommitsSafely untouched' committed' ms last where
  failed hms := hu _ (h.failed hms)
  announced m hm ha := hc _ (h.announced m hm ha)
  first pre m post hms hpre := hu _ (h.first pre m post hms hpre)

theorem of_silent (hms : ∀ m ∈ ms, untouched m.before ∧ ¬m.request.Announces)
    (hlast : untouched last) : CommitsSafely untouched committed ms last where
  failed _ := hlast
  announced m hm ha := absurd ha (hms m hm).2
  first pre m post hsplit _ := (hms m (by simp [hsplit])).1

theorem cons (hm : untouched m.before ∧ ¬m.request.Announces)
    (h : ¬m.Saved → CommitsSafely untouched committed ms last)
    (hsaved : m.Saved → ∀ m' ∈ ms, m'.request.Announces → committed m'.before) :
    CommitsSafely untouched committed (m :: ms) last where
  failed hnone :=
    (h (hnone m List.mem_cons_self)).failed fun m' hm' => hnone m' (List.mem_cons_of_mem _ hm')
  announced m' hm' ha := by
    rcases List.mem_cons.1 hm' with rfl | hm'
    · exact absurd ha hm.2
    by_cases hs : m.Saved
    · exact hsaved hs m' hm' ha
    · exact (h hs).announced m' hm' ha
  first pre m' post hsplit hpre := by
    cases pre with
    | nil =>
      cases hsplit
      exact hm.1
    | cons m₀ pre =>
      cases hsplit
      exact (h (hpre m List.mem_cons_self)).first pre m' post rfl
        fun m'' hm'' => hpre m'' (List.mem_cons_of_mem _ hm'')

theorem append (hms : ∀ m ∈ ms, (untouched m.before ∧ ¬m.request.Announces) ∧ ¬m.Saved)
    (h : CommitsSafely untouched committed ms' last) :
    CommitsSafely untouched committed (ms ++ ms') last := by
  induction ms with
  | nil => exact h
  | cons m ms ih =>
    obtain ⟨hm, hnot⟩ := hms m List.mem_cons_self
    exact .cons hm (fun _ => ih fun m' hm' => hms m' (List.mem_cons_of_mem _ hm'))
      fun hs => absurd hs hnot

end CommitsSafely

namespace Tracking

/-- A commit saves the record, and if that succeeds publishes the marker. -/
theorem commit_cases {σ : Type} (h : Handler σ) (stage : Stage) {r : Record} (bucket : String)
    {timestamp : String} (hr : r.timestamp = some timestamp) (s : σ) :
    (∃ e s', h.answer (.record (.save stage r)) s = (.error e, s') ∧
      (commit stage r bucket).moments h s = [⟨.record (.save stage r), .error e, s, s'⟩] ∧
      (commit stage r bucket).outcome h s = (some (.error (.record e)), s')) ∨
    ∃ s', h.answer (.record (.save stage r)) s = (.ok (), s') ∧
      ∃ a s'', h.answer (.store (.put bucket markerKey timestamp.toUTF8)) s' = (a, s'') ∧
        (commit stage r bucket).moments h s =
          [⟨.record (.save stage r), .ok (), s, s'⟩,
            ⟨.store (.put bucket markerKey timestamp.toUTF8), a, s', s''⟩] ∧
        (commit stage r bucket).outcome h s =
          (some (a.mapError (.upload markerKey)), s'') := by
  have hrun : (commit stage r bucket).run = .ask (.record (.save stage r)) fun
      | .ok _ => .ask (.store (.put bucket markerKey timestamp.toUTF8)) fun a =>
          .done (a.mapError (.upload markerKey))
      | .error e => .done (.error (.record e)) := by
    refine congrArg (Program.ask (.record (.save stage r))) (funext fun a => ?_)
    cases a with
    | error e => rfl
    | ok _ =>
      simp only [hr]
      exact congrArg (Program.ask (.store (.put bucket markerKey timestamp.toUTF8)))
        (funext fun a => by cases a <;> rfl)
  rcases hsave : h.answer (.record (.save stage r)) s with ⟨e | _, s'⟩
  · refine .inl ⟨e, s', rfl, ?_, ?_⟩
    · simp only [Run.moments, hrun, Program.moments, hsave]
    · simp only [Run.outcome, hrun, Program.run, hsave]
  · refine .inr ⟨s', rfl, _, _, rfl, ?_, ?_⟩
    · simp only [Run.moments, hrun, Program.moments, hsave]
    · simp only [Run.outcome, hrun, Program.run, hsave]

end Tracking

namespace Deploy

variable {s : Settings} {cloud : DiskCloud} {stage : Stage} {p : Prepared} {t t' t₀ : FileTree}
  {top : Location} {w : Waiting} {S : Location → Prop} {K : String → String → Prop} {n : Nat}

/-- The record of the stage is what it was, and so is the content of all keys but those of `K`. -/
structure Untouched (s : Settings) (cloud : DiskCloud) (stage : Stage)
    (K : String → String → Prop) (t t' : FileTree) : Prop where
  record : (s.site cloud).records.content t' stage = (s.site cloud).records.content t stage
  content : ∀ bucket key, ¬K bucket key →
    cloud.objects.content t' bucket key = cloud.objects.content t bucket key

/-- What a deploy has brought about when it announces its commit. -/
structure Committed (s : Settings) (cloud : DiskCloud) (stage : Stage) (p : Prepared)
    (t : FileTree) : Prop extends Installed s cloud stage p t where
  record : (s.site cloud).records.load t stage = .ok p.plan.record
  marker : cloud.objects.content t p.bucket markerKey = some p.project.timestamp.toUTF8

theorem Untouched.refl (t : FileTree) : Untouched s cloud stage K t t :=
  ⟨rfl, fun _ _ _ => rfl⟩

theorem Untouched.trans (h : Untouched s cloud stage K t₀ t)
    (h' : Untouched s cloud stage K t t') : Untouched s cloud stage K t₀ t' :=
  ⟨h'.record.trans h.record, fun b key hK => (h'.content b key hK).trans (h.content b key hK)⟩

theorem Untouched.mono {K' : String → String → Prop} (h : Untouched s cloud stage K t t')
    (hK : ∀ b key, K b key → K' b key) : Untouched s cloud stage K' t t' :=
  ⟨h.record, fun b key hnot => h.content b key fun hin => hnot (hK b key hin)⟩

theorem untouched_of_kept (hlayout : Layout s cloud top stage t)
    (hkept : cloud.objects.Kept top S K n t t') (hroom : cloud.objects.Room t n)
    (hS : ¬S ((s.site cloud).records.place t.workDir stage)) : Untouched s cloud stage K t t' :=
  ⟨RecordStore.content_of_touched hlayout.settled.steady.tidy hkept.steady.tidy
    hlayout.settled.records hkept.touched hS, fun _ _ hK => hkept.content_eq hroom hK⟩

/-! ## The commit -/

/-- A record that could not be saved leaves everything as it was. -/
theorem untouched_of_save_failed (hlayout : Layout s cloud top stage t)
    (hroom : cloud.objects.Room t 0) {r : Record} {e : RecordError}
    (hsave : (s.site cloud).records.save stage r t = (.error e, t')) :
    Untouched s cloud stage K t t' := by
  obtain ⟨ht', -, -, hfailed⟩ :=
    RecordStore.save_spec hlayout.settled.steady.tidy hlayout.settled.records hsave
  exact untouched_of_kept hlayout (hlayout.settled.steady.kept_of_dirs ht' (hfailed ⟨e, rfl⟩)
    (fun _ => False) K 0) hroom id

theorem kept_of_saved (hlayout : Layout s cloud top stage t) {r : Record}
    (hsave : (s.site cloud).records.save stage r t = (.ok (), t')) :
    cloud.objects.Kept top (· = (s.site cloud).records.place t.workDir stage) (fun _ _ => False) 0
      t t' := by
  obtain ⟨ht', htouched, -, -⟩ :=
    RecordStore.save_spec hlayout.settled.steady.tidy hlayout.settled.records hsave
  exact RecordStore.kept_of_save hlayout.settled.steady ht' htouched

/-- The record is in place once its commit has saved it, and the marker once it is published. -/
theorem committed_of_commit {project : Except Failure Project}
    (hlayout : Layout s cloud top stage t)
    (hproject : (s.site cloud).descriptors.load t = project)
    (hplanned : Planned stage project p) (hinstalled : Installed s cloud stage p t)
    (hroom : cloud.objects.Room t 1) {t₁ : FileTree}
    (hsave : (s.site cloud).records.save stage p.plan.record t = (.ok (), t₁))
    (hput : cloud.objects.put p.bucket markerKey p.project.timestamp.toUTF8 t₁ = (.ok (), t')) :
    Committed s cloud stage p t' := by
  have hstack := hlayout.contained hproject hplanned
  have hrecords := hlayout.settled.records
  obtain ⟨hformat, -, hordered⟩ := hplanned.record_spec
  obtain ⟨ht₁, htouched, hdone, -⟩ := RecordStore.save_spec hlayout.settled.steady.tidy hrecords hsave
  obtain ⟨hu, hentry⟩ := hdone rfl
  have hkept₁ := kept_of_saved hlayout hsave
  have hbelow₁ (l : Location) (hl : l = (s.site cloud).records.place t.workDir stage) :
      top <+: l := by
    rw [hl]
    exact (RecordStore.below_record hrecords stage).below
  have hlayout₁ := hlayout.of_kept hkept₁ hbelow₁
  have hroom₁ : cloud.objects.Room t₁ 1 := (hkept₁.room 1 hroom).1
  have hinstalled₁ : Installed s cloud stage p t₁ :=
    hinstalled.of_kept hlayout hkept₁ (hroom.mono (by omega)) hbelow₁ hstack
      (fun heq => RecordStore.not_inStack_place _ cloud.provider t.workDir stage p.stack
        (.inl heq.symm))
      (fun u hu => hlayout.beyond hproject hplanned hu) fun _ _ => id
  obtain ⟨hkept₂, -, -⟩ := ObjectStore.put_spec hlayout₁.settled.steady hput
  obtain ⟨-, hmarker⟩ := ObjectStore.content_of_put hlayout₁.settled.steady hroom₁ hput
  have hbelow₂ (l : Location) (hl : cloud.objects.InBucket t₁.workDir p.bucket l) : top <+: l :=
    ObjectStore.InStore.below hlayout₁.settled.steady.within ⟨p.bucket, hl⟩
  have hproject₁ : (s.site cloud).descriptors.load t₁ = project := by
    rw [load_eq_of_beyond hlayout.descriptor ht₁ (htouched.mono hbelow₁), hproject]
  refine ⟨hinstalled₁.of_kept hlayout₁ hkept₂ hroom₁ hbelow₂ hstack (fun hin => ?_)
    (fun u hu => hlayout₁.beyond hproject₁ hplanned hu) fun u hu hkey => ?_, ?_, hmarker⟩
  · have hbeside : ¬cloud.provider.objects.InStore t₁.workDir
        (cloud.provider.stackPlace t₁.workDir p.stack) :=
      StackProvider.not_inStore_stackPlace hlayout.settled.rooted hstack
    rw [show cloud.provider.objects = cloud.objects from hlayout.settled.provider] at hbeside
    exact hbeside ⟨p.bucket, hin⟩
  · rw [(hplanned.artifact hu).1] at hkey
    exact mint_ne _ _ (by decide) hkey.2
  · have hrecords₁ := hlayout₁.settled.records
    refine RecordStore.load_of_entry hkept₂.steady.tidy (hkept₂.touched.work ▸ hrecords₁) hu ?_
      hformat hordered
    rw [hkept₂.touched.work]
    refine (hkept₂.touched.file_iff fun hin => ?_).2 (htouched.work ▸ hentry)
    exact RecordStore.not_inStore_place _ cloud.objects t₁.workDir stage ⟨p.bucket, hin⟩

/-- From its commit on a deploy commits safely. -/
theorem commit_safely (d : DiskWorld (s.site cloud)) {w₀ : d.State}
    {project : Except Failure Project} (hlayout : Layout s cloud top stage (d.files w₀))
    (hproject : (s.site cloud).descriptors.load (d.files w₀) = project)
    (hplanned : Planned stage project p) (hinstalled : Installed s cloud stage p (d.files w₀))
    (hroom : cloud.objects.Room (d.files w₀) 1) {α : Type} {rest : Unit → Run α}
    (hrest : (rest ()).Only (¬·.Announces)) :
    let run := Tracking.commit stage p.plan.record p.bucket >>= fun _ =>
      Run.emit (.recordCommitted p.project.timestamp) >>= rest
    CommitsSafely (fun w => Untouched s cloud stage K (d.files w₀) (d.files w))
      (fun w => Committed s cloud stage p (d.files w)) (run.moments d.handler w₀)
      (run.outcome d.handler w₀).2 := by
  intro run
  obtain ⟨-, htimestamp, -⟩ := hplanned.record_spec
  have hanswer {r : Request} {w w' : d.State} {a : r.Answer} (h : d.handler.answer r w = (a, w')) :
      (s.site cloud).Answers r (d.files w) a (d.files w') := by
    have := d.answers r w
    rwa [h] at this
  rcases Tracking.commit_cases d.handler stage p.bucket htimestamp w₀ with
    ⟨e, w₁, hsave, hmoments, houtcome⟩ | ⟨w₁, hsave, a, w₂, hput, hmoments, houtcome⟩
  · -- nothing was saved
    rcases Run.bind_cases d.handler (Tracking.commit stage p.plan.record p.bucket)
      (fun _ => Run.emit (.recordCommitted p.project.timestamp) >>= rest) w₀ with
      ⟨_, _, hout, -, -⟩ | ⟨-, hall, hend, -⟩
    · rw [houtcome] at hout
      cases hout
    rw [hall, hmoments, hend, houtcome]
    refine .of_silent (fun m hm => ?_)
      (untouched_of_save_failed hlayout (hroom.mono (by omega)) (hanswer hsave))
    obtain rfl := List.mem_singleton.1 hm
    exact ⟨.refl _, id⟩
  rcases Run.bind_cases d.handler (Tracking.commit stage p.plan.record p.bucket)
    (fun _ => Run.emit (.recordCommitted p.project.timestamp) >>= rest) w₀ with
    ⟨_, w₃, hout, hall, hend⟩ | ⟨-, hall, hend, -⟩
  · rw [houtcome] at hout
    obtain ⟨ha, rfl⟩ := Prod.mk.inj hout
    have hcommitted : Committed s cloud stage p (d.files w₂) := by
      cases a with
      | error e => cases ha
      | ok _ =>
        exact committed_of_commit hlayout hproject hplanned hinstalled hroom (hanswer hsave)
          (hanswer hput)
    rw [hall, hmoments, hend, List.cons_append, List.singleton_append]
    refine .cons ⟨.refl _, id⟩ (fun hnot => absurd trivial hnot) fun _ m hm hannounces => ?_
    rcases List.mem_cons.1 hm with rfl | hm
    · exact hannounces.elim
    -- the announcement comes first, and nothing after it is one
    rcases Run.bind_cases d.handler (Run.emit (.recordCommitted p.project.timestamp)) rest w₂ with
      ⟨⟨⟩, w₃, -, hemit, -⟩ | ⟨-, hemit, -, -⟩
    · rw [hemit] at hm
      rcases List.mem_append.1 hm with hm | hm
      · obtain rfl := List.mem_singleton.1 hm
        exact hcommitted
      · exact absurd hannounces (hrest.of_mem_moments hm)
    · rw [hemit] at hm
      obtain rfl := List.mem_singleton.1 hm
      exact hcommitted
  · rw [hall, hmoments, hend, houtcome]
    refine .cons ⟨.refl _, id⟩ (fun hnot => absurd trivial hnot) fun _ m hm hannounces => ?_
    obtain rfl := List.mem_singleton.1 hm
    exact hannounces.elim

end Deploy

end Rollout
