import Rollout.Proofs.Files.Beyond
import Rollout.Proofs.Redeploy
import Rollout.Proofs.Run.Batch
import Rollout.Proofs.Run.Site

/-!
What a deploy does before its commit: it looks, creates and updates its stack, and stores
objects under the keys of its plan and under that of the template. So far as it comes, the
record of the stage stays and so does the content of every other key.
-/

namespace Rollout

open FileTree

/-- How many versions a request may mint. -/
def Request.mints : Request → Nat
  | store (.put ..) => 1
  | _ => 0

/-- What is known of an answer about the project. -/
def Request.Shows (project : Except Failure Project) : (r : Request) → r.Answer → Prop
  | .onMachine .project, a => a = project
  | _, _ => True

namespace Deploy

/-- What a deploy of a project may do before its commit, as long as it is allowed to mint `n`
more versions: keep to its stack, and to the keys of `K`. -/
def cautious (project : Except Failure Project) (stack : String) (K : String → String → Prop) :
    Protocol Nat where
  allowed n r :=
    match r with
    | .store (.put b key _) => 0 < n ∧ K b key
    | .stack (.create name _) => name = stack
    | .stack (.update name _) => name = stack
    | r => r.Idle
  after n r a n' := n' = n - r.mints ∧ r.Shows project a

variable {project : Except Failure Project} {stack : String} {K : String → String → Prop}
  {n : Nat} {α : Type}

theorem mints_of_idle {r : Request} (h : r.Idle) : r.mints = 0 := by
  cases r with
  | store c => cases c <;> first | exact h.elim | rfl
  | _ => rfl

theorem allowed_of_idle {r : Request} (h : r.Idle) :
    (cautious project stack K).allowed n r := by
  cases r with
  | store c => cases c <;> first | exact h.elim | exact h
  | stack c => cases c <;> first | exact h.elim | exact h
  | _ => exact h

/-- What only looks is cautious. -/
theorem follows_of_idle {p : Run α} (h : p.Only Request.Idle) :
    p.Follows (cautious project stack K) (fun _ n' => n' = n) n := by
  refine h.follows (R := (· = n)) ?_ rfl
  rintro k r rfl hr
  refine ⟨allowed_of_idle hr, ?_⟩
  rintro a k' ⟨rfl, -⟩
  rw [mints_of_idle hr, Nat.sub_zero]

/-! ## Deciding -/

/-- What a deploy has found out when it begins to change things. -/
structure Planned (stage : Stage) (project : Except Failure Project) (p : Prepared) : Prop where
  project : project = .ok p.project
  stack : p.stack = stage.stackName p.project.name
  plan : ∃ previous marker hashed, hashed.map Prod.fst = p.project.active stage ∧
    p.plan = Redeploy.planHashed p.project previous marker hashed

theorem Planned.artifact {stage : Stage} {p : Prepared} (h : Planned stage project p)
    {u : ArtifactUpload} (hu : u ∈ p.plan.uploads) :
    u.version = .mint p.project.timestamp u.artifact ∧
      ∃ f ∈ p.project.active stage, u.artifact = Redeploy.artifactOf p.project f := by
  obtain ⟨previous, marker, hashed, hmap, hplan⟩ := h.plan
  rw [hplan] at hu
  obtain ⟨f, hf, rfl⟩ := Redeploy.eq_of_mem_uploads hu
  refine ⟨rfl, f.1, ?_, rfl⟩
  rw [← hmap]
  exact List.mem_map_of_mem hf

theorem Planned.length_uploads_le {stage : Stage} {p : Prepared} (h : Planned stage project p) :
    p.plan.uploads.length ≤ (p.project.active stage).length := by
  obtain ⟨previous, marker, hashed, hmap, hplan⟩ := h.plan
  rw [hplan, ← hmap, List.length_map]
  exact Redeploy.length_planHashed_uploads_le

theorem Planned.record_spec {stage : Stage} {p : Prepared} (h : Planned stage project p) :
    p.plan.record.format = Record.currentFormat ∧
      p.plan.record.timestamp = some p.project.timestamp ∧
      p.plan.record.functions.Ordered := by
  obtain ⟨previous, marker, hashed, -, hplan⟩ := h.plan
  rw [hplan]
  exact Redeploy.record_spec

theorem follows_fingerprints (fs : List FunctionSpec) :
    (Tracking.fingerprints fs).Follows (cautious project stack K)
      (fun hashed n' => hashed.map Prod.fst = fs ∧ n' = n) n := by
  induction fs with
  | nil => exact ⟨rfl, rfl⟩
  | cons f fs ih =>
    refine ⟨trivial, ?_⟩
    rintro hash n' ⟨rfl, -⟩
    refine Program.Follows.bind ih ?_
    rintro hashed n' ⟨hmap, rfl⟩
    exact ⟨by rw [List.map_cons, hmap], rfl⟩

theorem follows_ensureStack (w : Waiting) (stage : Stage) :
    (ensureStack w stack stage).Follows (cautious project stack K) (fun _ n' => n' = n) n := by
  refine .bind (follows_of_idle (idle_readTemplate ..)) ?_
  rintro body n' rfl
  refine .bind (Run.follows_ofProgram ⟨rfl, ?_⟩) (Q := fun _ n'' => n'' = n') ?_
  · rintro a n'' ⟨rfl, -⟩ _ _
    rfl
  rintro outcome n'' rfl
  cases outcome with
  | created =>
    refine .bind (follows_of_idle (Run.idle_emit id)) ?_
    rintro _ n' rfl
    refine .bind (follows_of_idle (idle_awaitStack ..)) ?_
    rintro _ n'' rfl
    exact Run.follows_pure rfl
  | alreadyExists =>
    refine .bind (follows_of_idle (Run.idle_emit id)) ?_
    rintro _ n' rfl
    exact Run.follows_pure rfl

theorem follows_prepare (w : Waiting) (stage : Stage)
    (hstack : ∀ p, project = .ok p → stage.stackName p.name = stack) :
    (prepare w stage).Follows (cautious project stack K)
      (fun p n' => Planned stage project p ∧ n' = n) n := by
  refine .bind (Run.follows_ofProgram ⟨trivial, ?_⟩)
    (Q := fun (p : Project) n' => project = .ok p ∧ n' = n) ?_
  · rintro a n' ⟨rfl, hshows⟩ p rfl
    exact ⟨hshows.symm, rfl⟩
  rintro p n' ⟨hproject, rfl⟩
  obtain rfl := hstack p hproject
  refine .bind (follows_of_idle (Run.idle_emit id)) ?_
  rintro _ n'' rfl
  refine .bind (Run.follows_liftProgram ⟨trivial, ?_⟩) (Q := fun _ n' => n' = n'') ?_
  · rintro a n' ⟨rfl, -⟩
    cases a <;> rfl
  rintro loaded n' rfl
  refine .bind (follows_ensureStack w stage) ?_
  rintro created n'' rfl
  refine .bind (follows_of_idle (idle_resolveBucket ..)) ?_
  rintro bucket n' rfl
  refine .bind (follows_of_idle (Run.idle_emit id)) ?_
  rintro _ n'' rfl
  refine .bind (follows_of_idle (Artifacts.idle_readMarker bucket)) ?_
  rintro marker n' rfl
  refine .bind (Run.follows_liftProgram (Program.Follows.bind
    (follows_fingerprints (p.active stage)) ?_)) (Q := fun plan n'' => (∃ hashed,
      hashed.map Prod.fst = p.active stage ∧
        plan = Redeploy.planHashed p loaded.record marker hashed) ∧ n'' = n') ?_
  · rintro hashed n'' ⟨hmap, rfl⟩
    exact ⟨⟨hashed, hmap, rfl⟩, rfl⟩
  rintro plan n'' ⟨⟨hashed, hmap, rfl⟩, rfl⟩
  refine .bind (follows_of_idle (Run.idle_emit id)) ?_
  rintro _ n' rfl
  exact Run.follows_pure ⟨⟨hproject, rfl, _, _, hashed, hmap, rfl⟩, rfl⟩

/-! ## Installing -/

/-- The second part of a deploy up to the commit: the uploads and the update of the stack. -/
def install (s : Settings) (w : Waiting) (stage : Stage) (p : Prepared) : Run Applied := do
  Run.checkCancelled
  Artifacts.uploadAll p.bucket s.uploadConcurrency (pendingUploads s.buildDir p.plan)
  Run.checkCancelled
  let url ← uploadTemplate p.bucket stage p.plan.tokens
  let updated ← updateStack w p.stack url
  return ⟨url, updated⟩

theorem apply_eq (s : Settings) (w : Waiting) (stage : Stage) (p : Prepared) :
    apply s w stage p = do
      let a ← install s w stage p
      Tracking.commit stage p.plan.record p.bucket
      Run.emit (.recordCommitted p.project.timestamp)
      return a := by
  simp [apply, install]

/-- The keys that a deploy stores objects under before its commit. -/
def Installs (p : Prepared) (bucket key : String) : Prop :=
  bucket = p.bucket ∧ (key ∈ p.plan.uploadKeys ∨ key = templateKey)

theorem follows_put {bucket key : String} {body : ByteArray} {f : StoreError → Failure}
    (hn : 0 < n) (hK : K bucket key) :
    (Run.store (.put bucket key body) f).Follows (cautious project stack K)
      (fun _ n' => n' = n - 1) n := by
  refine Run.follows_ofProgram ⟨⟨hn, hK⟩, ?_⟩
  rintro a n' ⟨rfl, -⟩ _ _
  rfl

theorem batch_cautious (bucket : String) (m : Nat) :
    Artifacts.Batch (cautious project stack K) bucket fun _ rest n =>
      rest.length + m ≤ n ∧ ∀ u ∈ rest, K bucket u.key where
  upload := by
    rintro done u rest n ⟨hn, hK⟩
    rw [List.length_cons] at hn
    have hrest : ∀ v ∈ rest, K bucket v.key := fun v hv => hK v (List.mem_cons_of_mem _ hv)
    rw [Artifacts.uploadFile_run]
    refine ⟨trivial, ?_⟩
    rintro body n' ⟨rfl, -⟩
    have hmints : (Request.onMachine (.read u.path)).mints = 0 := rfl
    cases body with
    | error e => exact ⟨by omega, hrest⟩
    | ok body =>
      refine ⟨⟨by omega, hK u List.mem_cons_self⟩, ?_⟩
      rintro r n' ⟨rfl, -⟩
      have hmints' : (Request.store (.put bucket u.key body)).mints = 1 := rfl
      cases r with
      | ok _ => exact ⟨by omega, hrest⟩
      | error e => exact ⟨by omega, hrest⟩
  tell := by
    rintro done rest n c hJ hc
    refine ⟨hc, ?_⟩
    rintro a n' ⟨rfl, -⟩
    exact hJ

theorem follows_install (s : Settings) (w : Waiting) (stage : Stage) (p : Prepared)
    (hn : p.plan.uploads.length + 1 ≤ n) :
    (install s w stage p).Follows (cautious project p.stack (Installs p)) (fun _ _ => True) n := by
  refine .bind (follows_of_idle Run.idle_checkCancelled) ?_
  rintro _ n' rfl
  refine .bind ((batch_cautious p.bucket 1).follows_uploadAll fun us hus => ⟨?_, fun u hu => ?_⟩) ?_
  · rw [hus.length_eq, pendingUploads, List.length_map]
    exact hn
  · obtain ⟨v, hv, rfl⟩ := List.mem_map.1 (hus.mem_iff.1 hu)
    exact ⟨rfl, .inl (List.mem_map.2 ⟨v, hv, rfl⟩)⟩
  rintro _ n'' ⟨-, ⟨hn'', -⟩, -⟩
  rw [List.length_nil, Nat.zero_add] at hn''
  refine .bind (follows_of_idle Run.idle_checkCancelled) ?_
  rintro _ n₁ rfl
  refine .bind (.bind (follows_of_idle (idle_readTemplate ..)) ?_) (Q := fun _ _ => True) ?_
  · rintro template n₂ rfl
    refine .bind (.bind (follows_put hn'' ⟨rfl, .inr rfl⟩) ?_) (Q := fun _ _ => True) ?_
    · rintro _ n₃ -
      exact (follows_of_idle (Artifacts.idle_url ..)).mono fun _ _ _ => trivial
    rintro url n₃ -
    refine .bind (follows_of_idle (Run.idle_emit id)) ?_
    rintro _ n₄ rfl
    exact Run.follows_pure trivial
  rintro url n₂ -
  refine .bind (.bind (Run.follows_ofProgram ⟨rfl, fun _ _ _ _ _ => trivial⟩) ?_)
    (Q := fun _ _ => True) fun _ _ _ => Run.follows_pure trivial
  rintro outcome n₃ -
  cases outcome with
  | updating =>
    refine .bind (follows_of_idle (Run.idle_emit id)) ?_
    rintro _ n₄ rfl
    refine .bind (follows_of_idle (idle_awaitStack ..)) ?_
    rintro _ n₅ rfl
    exact Run.follows_pure trivial
  | noChanges =>
    refine .bind (follows_of_idle (Run.idle_emit id)) ?_
    rintro _ n₄ rfl
    exact Run.follows_pure trivial

/-! ## On the disk -/

variable {site : Site} {t t' t₀ : FileTree} {top : Location}

/-- What a cautious run has done to the disk of a site when it may mint `n` more versions of `N`. -/
def Careful (site : Site) (top : Location) (stack : String) (K : String → String → Prop)
    (N : Nat) (t₀ : FileTree) (n : Nat) (t : FileTree) : Prop :=
  n ≤ N ∧ site.cloud.objects.Kept top (site.cloud.provider.InStack t₀.workDir stack) K (N - n) t₀ t

theorem Careful.start (h : site.Settled top t) (n : Nat) : Careful site top stack K n t n t :=
  ⟨Nat.le_refl n, .refl h.steady ..⟩

/-- One request of a cautious run. -/
theorem Careful.step (hset : site.Settled top t₀) (hstack : StackProvider.Contained stack)
    (hproject : ∀ t, t.Tidy top → Touched top (top <+: ·) t₀ t → site.descriptors.load t = project)
    {N : Nat} (h : Careful site top stack K N t₀ n t) {r : Request} {a : r.Answer}
    (hallowed : (cautious project stack K).allowed n r) (ha : site.Answers r t a t') :
    (cautious project stack K).after n r a (n - r.mints) ∧
      Careful site top stack K N t₀ (n - r.mints) t' := by
  obtain ⟨hn, hkept⟩ := h
  have hwork := hkept.touched.work
  have hset' := hset.of_kept hkept
  have hidle (hr : r.Idle) (hshows : r.Shows project a) :
      (cautious project stack K).after n r a (n - r.mints) ∧
        Careful site top stack K N t₀ (n - r.mints) t' := by
    obtain rfl := Site.answers_idle hr ha
    rw [mints_of_idle hr, Nat.sub_zero]
    exact ⟨⟨by rw [mints_of_idle hr, Nat.sub_zero], hshows⟩, hn, hkept⟩
  cases r with
  | store c =>
    cases c with
    | put bucket key body =>
      obtain ⟨hpos, hK⟩ := hallowed
      have hmints : (Request.store (.put bucket key body)).mints = 1 := rfl
      exact ⟨⟨rfl, trivial⟩, Nat.le_trans (Nat.sub_le ..) hn,
        (Site.kept_put hset hkept ha hK).mono (fun _ => id) (fun _ _ => id) (by omega)⟩
    | _ => exact hidle hallowed trivial
  | stack c =>
    cases c with
    | create name body =>
      obtain rfl : name = stack := hallowed
      have hcreate := Site.kept_of_create hset' hstack ha
      rw [hwork] at hcreate
      exact ⟨⟨rfl, trivial⟩, hn, hkept.extend hset.steady hcreate (fun _ => id)
        (fun _ _ => False.elim) (Nat.le_refl _)⟩
    | update name url =>
      obtain rfl : name = stack := hallowed
      have hupdate := Site.kept_of_update hset' hstack ha
      rw [hwork] at hupdate
      exact ⟨⟨rfl, trivial⟩, hn, hkept.extend hset.steady hupdate (fun _ => id)
        (fun _ _ => False.elim) (Nat.le_refl _)⟩
    | _ => exact hidle hallowed trivial
  | hook name => exact hallowed.elim
  | record c => 
    cases c with
    | load stage => exact hidle hallowed trivial
    | _ => exact hallowed.elim
  | onMachine c =>
    refine hidle hallowed ?_
    cases c with
    | project => 
      obtain ⟨rfl, rfl⟩ := ha
      exact hproject _ hkept.steady.tidy (hkept.touched.mono fun l hl =>
        StackProvider.InStack.below hset.rooted hset.within hstack hl)
    | _ => trivial
  | control c => exact hidle hallowed trivial

theorem not_isSave_of_allowed {r : Request} (h : (cautious project stack K).allowed n r) :
    ¬r.IsSave ∧ ¬r.Announces := by
  cases r with
  | store c => exact ⟨id, id⟩
  | stack c => exact ⟨id, id⟩
  | record c => exact ⟨Request.Idle.not_isSave h, Request.Idle.not_announces h⟩
  | control c => exact ⟨Request.Idle.not_isSave h, Request.Idle.not_announces h⟩
  | hook name => exact ⟨id, id⟩
  | onMachine c => exact ⟨id, id⟩

/-- A cautious run commits nothing, and at no moment has done more than it may. -/
theorem run_of_cautious (d : DiskWorld site) {p : Run α} {Q : α → Nat → Prop} {w : d.State}
    (hset : site.Settled top (d.files w)) (hstack : StackProvider.Contained stack)
    (hproject : ∀ t, t.Tidy top → Touched top (top <+: ·) (d.files w) t →
      site.descriptors.load t = project)
    (hp : p.Follows (cautious project stack K) Q n) :
    (∀ m ∈ p.moments d.handler w, (¬m.request.IsSave ∧ ¬m.request.Announces) ∧
      (∃ n', Careful site top stack K n (d.files w) n' (d.files m.before)) ∧
      ∃ n', Careful site top stack K n (d.files w) n' (d.files m.after)) ∧
    ∃ n', Careful site top stack K n (d.files w) n' (d.files (p.outcome d.handler w).2) ∧
      ∀ a, (p.outcome d.handler w).1 = some (.ok a) → Q a n' := by
  obtain ⟨hmoments, hend⟩ := hp.run (h := d.handler) (s := w)
    (I := fun n' s => Careful site top stack K n (d.files w) n' (d.files s))
    (fun n' s r hcareful hallowed =>
      ⟨_, hcareful.step hset hstack hproject hallowed (d.answers r s)⟩) (.start hset n)
  refine ⟨fun m hm => ?_, hend⟩
  obtain ⟨n₁, n₂, hbefore, hallowed, -, hafter⟩ := hmoments m hm
  exact ⟨not_isSave_of_allowed hallowed, ⟨n₁, hbefore⟩, n₂, hafter⟩

end Deploy

end Rollout
