import Rollout.Proofs.Run.SharedDeploy
import Rollout.Run.Destroy

/-!
Trust implies presence, where runs come one after the other and the bucket may be taken down in
between. What was recorded before is stale then, but no marker is left to vouch for it; only a run
that makes a stale compilation the live one again can bring that about. Up to such a run all that is
reused is in the bucket.
-/

namespace Rollout.Fleet

variable {ι μ : Type} [DecidableEq μ] {F : Fleet ι} {stale : String → Prop} {post : Post ι μ}
  {s s' : Shared μ} {α β : Type}

/-! ## Runs that nothing comes between -/

/-- Whether a program that nothing comes between may end so. -/
def Ends (F : Fleet ι) (post : Post ι μ) : Program α → Shared μ → α → Shared μ → Prop
  | .done a, s, b, s' => b = a ∧ s' = s
  | .ask r next, s, b, s' => ∃ a t, F.Answers post r s a t ∧ F.Ends post (next a) t b s'
  | .unfinished, _, _, _ => False

/-- A program that follows a protocol ends as the protocol says, as long as every answer is one
that the protocol knows of. -/
theorem Ends.of_follows {P : Protocol (Shared μ)} {I : Shared μ → Prop} {p : Program α}
    {Q : α → Shared μ → Prop} {b : α}
    (hstep : ∀ s r a s', I s → P.allowed s r → F.Answers post r s a s' → P.after s r a s' ∧ I s')
    (hs : I s) (hp : p.Follows P Q s) (h : F.Ends post p s b s') : Q b s' ∧ I s' := by
  induction p generalizing s with
  | done a =>
    obtain ⟨rfl, rfl⟩ := h
    exact ⟨hp, hs⟩
  | ask r next ih =>
    obtain ⟨a, t, ha, hend⟩ := h
    obtain ⟨hallowed, hnext⟩ := hp
    obtain ⟨hafter, ht⟩ := hstep s r a t hs hallowed ha
    exact ih a ht (hnext a t hafter) hend
  | unfinished => exact h.elim

theorem Ends.of_sharing {p : Program α} {Q : α → Shared μ → Prop} {b : α} (hs : F.Sound stale s)
    (hp : p.Follows (F.sharing stale post) Q s) (h : F.Ends post p s b s') :
    Q b s' ∧ F.Sound stale s' := by
  refine Ends.of_follows (I := F.Sound stale) (fun s r a s' hs hallowed ha => ?_) hs hp h
  have hrefl := Preserves.refl hs
  exact ⟨⟨s, hrefl, ha⟩, (preserves_of_answers hallowed hrefl ha).sound⟩

/-- A run in a world that answers as the fleet does. -/
theorem ends_of_run {h : Handler (Shared μ)} {p : Program α} {b : α} (hosts : F.Hosts post h)
    (hrun : p.run h s = (some b, s')) : F.Ends post p s b s' := by
  induction p generalizing s with
  | done a =>
    cases hrun
    exact ⟨rfl, rfl⟩
  | ask r next ih => exact ⟨_, _, hosts r s, ih _ hrun⟩
  | unfinished => cases hrun

/-! ## Destroying -/

/-- All a run may see if nothing comes between. -/
def alone (F : Fleet ι) (post : Post ι μ) : Protocol (Shared μ) where
  allowed _ _ := True
  after s r a s' := F.Answers post r s a s'

/-- A request that changes nothing of what is shared. -/
def Quiet (F : Fleet ι) (post : Post ι μ) (r : Request) : Prop :=
  ∀ s a s', F.Answers post r s a s' → s' = s

theorem quiet_of_idle {r : Request} (h : r.Idle) : F.Quiet post r := by
  intro s a s' ha
  cases r with
  | store c => cases c <;> first | exact h.elim | exact ha.1 | exact ha
  | stack c => cases c <;> first | exact h.elim | exact ha.1 | exact ha
  | record c => cases c <;> first | exact h.elim | exact ha.1
  | onMachine c => cases c <;> first | exact ha.1 | exact ha
  | control c => exact ha
  | hook name => exact h.elim

theorem follows_of_quiet {p : Run α} (h : p.Only (F.Quiet post)) :
    p.Follows (F.alone post) (fun _ s' => s' = s) s := by
  refine h.follows (R := (· = s)) (fun k r hk hr => ⟨trivial, fun a k' ha => ?_⟩) rfl
  rw [hr k a k' ha, hk]

theorem only_quiet {p : Run α} (h : p.Only Request.Idle) : p.Only (F.Quiet post) :=
  Program.Only.mono h fun _ => quiet_of_idle

omit [DecidableEq μ] in
theorem records_of_alters {bucket key : String} (h : F.Alters bucket key s s') :
    s'.records = s.records := by
  rcases h with rfl | ⟨-, found, rfl⟩
  · rfl
  · rfl

/-- A part of taking the bucket down: it leaves the records alone, and if it is told that there is
no such bucket, there is nothing in it. -/
def Sweeps (F : Fleet ι) (post : Post ι μ) (p : Artifacts.Teardown α) : Prop :=
  ∀ s, p.run.Follows (F.alone post) (fun r s' => s'.records = s.records ∧
    ∀ b, r = .error (.noSuchBucket b) → s'.Bare) s

theorem sweeps_pure (a : α) : F.Sweeps post (pure a : Artifacts.Teardown α) :=
  fun _ => ⟨rfl, nofun⟩

theorem Sweeps.bind {p : Artifacts.Teardown α} {f : α → Artifacts.Teardown β}
    (hp : F.Sweeps post p) (hf : ∀ a, F.Sweeps post (f a)) : F.Sweeps post (p >>= f) := by
  intro s
  refine Program.Follows.bind (hp s) ?_
  rintro r s₁ ⟨hrecords, hmissing⟩
  cases r with
  | error e => exact ⟨hrecords, fun b hb => hmissing b (congrArg _ (Except.error.inj hb))⟩
  | ok a =>
    refine (hf a s₁).mono ?_
    rintro r s₂ ⟨hrecords', hmissing'⟩
    exact ⟨hrecords'.trans hrecords, hmissing'⟩

theorem sweeps_call {c : StoreCall}
    (h : ∀ s a s', F.Answers post (.store c) s a s' →
      s'.records = s.records ∧ F.EmptyIfMissing F.bucket s' a) :
    F.Sweeps post (Artifacts.call c) := by
  refine fun s => ⟨trivial, fun a s' ha => ?_⟩
  obtain ⟨hrecords, hmissing⟩ := h s a s' ha
  exact ⟨hrecords, fun b hb => hmissing b hb rfl⟩

theorem sweeps_delete (key : String) :
    F.Sweeps post (Artifacts.call (.delete F.bucket key)) :=
  sweeps_call fun _ _ _ ha => ⟨records_of_alters ha.1, ha.2⟩

theorem sweeps_deleteVersion (key id : String) :
    F.Sweeps post (Artifacts.call (.deleteVersion F.bucket key id)) :=
  sweeps_call fun _ _ _ ha => ⟨records_of_alters ha.1, ha.2⟩

theorem sweeps_listObjects (token : Option String) :
    F.Sweeps post (Artifacts.call (.listObjects F.bucket token)) :=
  sweeps_call fun _ _ _ ha => ⟨congrArg _ ha.1, ha.1 ▸ ha.2⟩

theorem sweeps_listVersions (cursor : Option VersionCursor) :
    F.Sweeps post (Artifacts.call (.listVersions F.bucket cursor)) :=
  sweeps_call fun _ _ _ ha => ⟨congrArg _ ha.1, ha.1 ▸ ha.2⟩

theorem sweeps_deleteKeys (keys : List String) :
    F.Sweeps post (Artifacts.deleteKeys F.bucket keys) := by
  induction keys with
  | nil => exact sweeps_pure ()
  | cons key keys ih => exact (sweeps_delete key).bind fun _ => ih

theorem sweeps_deleteVersions (versions : List ObjectVersion) :
    F.Sweeps post (Artifacts.deleteVersions F.bucket versions) := by
  induction versions with
  | nil => exact sweeps_pure ()
  | cons v versions ih => exact (sweeps_deleteVersion v.key v.id).bind fun _ => ih

theorem sweeps_unfinished : F.Sweeps post (ExceptT.mk .unfinished : Artifacts.Teardown α) :=
  fun _ => trivial

theorem sweeps_deleteObjectsFrom (pages : Nat) (token : Option String) :
    F.Sweeps post (Artifacts.deleteObjectsFrom F.bucket pages token) := by
  induction pages generalizing token with
  | zero => exact sweeps_unfinished
  | succ pages ih =>
    refine (sweeps_listObjects token).bind fun page => ?_
    refine (sweeps_deleteKeys page.keys).bind fun _ => ?_
    cases page.next with
    | some next => exact (ih _).bind fun _ => sweeps_pure _
    | none => exact sweeps_pure _

theorem sweeps_deleteVersionsFrom (pages : Nat) (cursor : Option VersionCursor) :
    F.Sweeps post (Artifacts.deleteVersionsFrom F.bucket pages cursor) := by
  induction pages generalizing cursor with
  | zero => exact sweeps_unfinished
  | succ pages ih =>
    refine (sweeps_listVersions cursor).bind fun page => ?_
    refine (sweeps_deleteVersions page.versions).bind fun _ => ?_
    cases page.next with
    | some next => exact (ih _).bind fun _ => sweeps_pure _
    | none => exact sweeps_pure _

/-- Deleting the bucket leaves nothing in it. -/
theorem follows_deleteBucket (removed : Nat) :
    (Artifacts.call (.deleteBucket F.bucket) >>= fun _ => pure removed : Artifacts.Teardown
      Nat).run.Follows (F.alone post) (fun r s' => s'.records = s.records ∧
        (∀ b, r = .error (.noSuchBucket b) → s'.Bare) ∧ ∀ n, r = .ok n → s'.Bare) s := by
  refine ⟨trivial, ?_⟩
  rintro a s' ⟨hcase, hmissing⟩
  have hrecords : s'.records = s.records := by
    rcases hcase with ⟨rfl, -⟩ | ⟨-, rfl⟩
    · rfl
    · rfl
  cases a with
  | error e =>
    exact ⟨hrecords, fun b hb => hmissing b (congrArg _ (Except.error.inj hb)) rfl, nofun⟩
  | ok _ =>
    refine ⟨hrecords, nofun, fun _ _ => ?_⟩
    rcases hcase with ⟨-, hbucket⟩ | ⟨-, rfl⟩
    · exact absurd rfl (hbucket rfl)
    · exact s.bare_cleared

/-- A bucket that was taken down has nothing in it. -/
theorem follows_tearDown (patience : Nat) :
    (Artifacts.tearDown patience F.bucket).Follows (F.alone post)
      (fun _ s' => s'.records = s.records ∧ s'.Bare) s := by
  have hempty : (Artifacts.emptyAndDelete patience F.bucket).run.Follows (F.alone post)
      (fun r s' => s'.records = s.records ∧
        (∀ b, r = .error (.noSuchBucket b) → s'.Bare) ∧ ∀ n, r = .ok n → s'.Bare) s := by
    refine Program.Follows.bind (sweeps_deleteObjectsFrom patience none s) ?_
    rintro r s₁ ⟨hrecords₁, hmissing₁⟩
    cases r with
    | error e =>
      exact ⟨hrecords₁, fun b hb => hmissing₁ b (congrArg _ (Except.error.inj hb)), nofun⟩
    | ok objects =>
      refine Program.Follows.bind (sweeps_deleteVersionsFrom patience none s₁) ?_
      rintro r s₂ ⟨hrecords₂, hmissing₂⟩
      have hrecords := hrecords₂.trans hrecords₁
      cases r with
      | error e =>
        exact ⟨hrecords, fun b hb => hmissing₂ b (congrArg _ (Except.error.inj hb)), nofun⟩
      | ok versions =>
        refine (follows_deleteBucket (objects + versions)).mono ?_
        rintro r s₃ ⟨hrecords₃, hbare⟩
        exact ⟨hrecords₃.trans hrecords, hbare⟩
  refine Program.Follows.bind hempty ?_
  rintro r s' ⟨hrecords, hmissing, hdone⟩
  cases r with
  | ok removed => exact fun _ _ => ⟨hrecords, hdone removed rfl⟩
  | error e =>
    cases e with
    | noSuchBucket b => exact fun _ _ => ⟨hrecords, hmissing b rfl⟩
    | _ => exact nofun

/-- What a run that destroys the stage leaves: no record on its machine, and either nothing in the
bucket or, if it did not find the bucket, everything. -/
structure Destroyed (post : Post ι μ) (s : Shared μ) (report : DestroyReport) (s' : Shared μ) :
    Prop where
  records : s'.records = Function.update s.records post.machine .empty
  bare : report.bucket ≠ none → s'.Bare
  kept : report.bucket = none → s'.objects = s.objects

theorem follows_removeBucket (w : Waiting) {stack : String} (r : DestroyReport)
    (hstack : stack = F.stage.stackName (F.compilation post.compilation).project.name) :
    (Destroy.removeBucket w stack r).Follows (F.alone post) (fun r' s' => s'.records = s.records ∧
      ((r'.bucket = r.bucket ∧ s'.objects = s.objects) ∨ (r'.bucket ≠ none ∧ s'.Bare))) s := by
  refine .bind ((follows_of_quiet (only_quiet (Lifecycle.idle_findExport ..))).and
    (Lifecycle.follows_findExport (V := (· = F.bucket)) (fun _ _ _ => trivial) ?_ w)) ?_
  · rintro s token page s' ⟨-, hpage⟩ e he hname
    exact hpage page rfl e he (hname.trans (congrArg _ hstack))
  rintro found s₁ ⟨rfl, hfound⟩
  cases found with
  | notFound attempts => exact Run.follows_pure ⟨rfl, .inl ⟨rfl, rfl⟩⟩
  | found bucket =>
    obtain rfl := hfound bucket rfl
    refine .bind (follows_tearDown _) ?_
    rintro removed s₂ ⟨hrecords, hbare⟩
    refine .bind (follows_of_quiet (only_quiet (Run.idle_emit id))) ?_
    rintro _ s₃ rfl
    exact Run.follows_pure ⟨hrecords, .inr ⟨nofun, hbare⟩⟩

theorem quiet_removeStack (w : Waiting) (stack : String) :
    (Destroy.removeStack w stack).Only (F.Quiet post) := by
  refine Run.only_bind (Run.only_ofProgram ⟨fun s a s' ha => ha, fun _ => trivial⟩) fun _ => ?_
  refine Run.only_bind (only_quiet (Lifecycle.idle_pollUntilTerminal ..)) fun _ => ?_
  exact only_quiet (Run.idle_emit id)

theorem follows_removeAll (w : Waiting) {stack : String} (r : DestroyReport)
    (hstack : stack = F.stage.stackName (F.compilation post.compilation).project.name) :
    (Destroy.removeAll w stack r).Follows (F.alone post) (fun r' s' => s'.records = s.records ∧
      ((r'.bucket = r.bucket ∧ s'.objects = s.objects) ∨ (r'.bucket ≠ none ∧ s'.Bare))) s := by
  refine .bind (follows_of_quiet (only_quiet (Lifecycle.idle_status _))) ?_
  rintro status s₁ rfl
  cases status.isGone with
  | true => exact Run.follows_pure ⟨rfl, .inl ⟨rfl, rfl⟩⟩
  | false =>
    refine .bind (follows_removeBucket w _ hstack) fun r' s₂ hr' => ?_
    refine .bind (follows_of_quiet (quiet_removeStack ..)) ?_
    rintro _ s₃ rfl
    exact Run.follows_pure hr'

theorem follows_destroy (patience : Nat) :
    (destroy post.settings patience F.stage).Follows (F.alone post)
      (fun report s' => Destroyed post s report s') s := by
  refine .bind (Run.follows_ofProgram ⟨trivial, ?_⟩) (Q := fun (p : Project) s' =>
    p = (F.compilation post.compilation).project ∧ s' = s) ?_
  · rintro a s' ⟨rfl, hproject⟩ p rfl
    exact ⟨hproject p rfl, rfl⟩
  rintro p s₁ ⟨rfl, rfl⟩
  refine .bind (follows_of_quiet (only_quiet (Run.idle_emit id))) ?_
  rintro _ s₂ rfl
  refine .bind (follows_removeAll _ _ rfl) ?_
  rintro r s₃ ⟨hrecords, hcase⟩
  refine .bind (Run.follows_ofProgram ⟨trivial, ?_⟩) (Q := fun _ s' => Destroyed post s₂ r s') ?_
  · rintro a s' ha _ rfl
    obtain ⟨-, hstage⟩ | ⟨-, rfl⟩ := ha
    · exact absurd rfl (hstage rfl)
    · refine ⟨?_, fun hbucket => ?_, fun hbucket => ?_⟩
      · rw [Shared.save_records, hrecords]
      · exact hcase.elim (fun h => absurd h.1 hbucket) And.right
      · exact hcase.elim And.right fun h => absurd hbucket h.1
  intro _ s₄ hdestroyed
  refine .bind (follows_of_quiet (only_quiet (Run.idle_emit id))) ?_
  rintro _ s₅ rfl
  exact Run.follows_pure hdestroyed

/-! ## One run after the other -/

/-- The timestamps that records name. -/
def Named (s : Shared μ) (t : String) : Prop := ∃ m, (s.records m).timestamp = some t

/-- What completed runs, one after the other, lead to. -/
inductive Completed (F : Fleet ι) : Shared μ → Prop where
  | start : Completed F .empty
  | deployed {s s' : Shared μ} {post : Post ι μ} {patience : Nat} {skipHooks : Bool}
      {r : Except Failure DeployReport} :
    Completed F s → F.Ends post (deploy post.settings patience ⟨F.stage, skipHooks⟩).run s r s' →
      Completed F s'
  | destroyed {s s' : Shared μ} {post : Post ι μ} {patience : Nat} {report : DestroyReport} :
    Completed F s → F.Ends post (destroy post.settings patience F.stage).run s (.ok report) s' →
      Completed F s'

/-- Completed runs none of which makes a stale compilation the live one, and the timestamps that
are stale after them: when the bucket is taken down, what the records name becomes stale, and
nothing else is. -/
inductive Chronicle (F : Fleet ι) : (String → Prop) → Shared μ → Prop where
  | start : Chronicle F (fun _ => False) .empty
  | deployed {stale : String → Prop} {s s' : Shared μ} {post : Post ι μ} {patience : Nat}
      {skipHooks : Bool} {r : Except Failure DeployReport} :
    Chronicle F stale s → F.Live stale post.compilation →
      F.Ends post (deploy post.settings patience ⟨F.stage, skipHooks⟩).run s r s' →
        Chronicle F stale s'
  | emptied {stale : String → Prop} {s s' : Shared μ} {post : Post ι μ} {patience : Nat}
      {report : DestroyReport} :
    Chronicle F stale s →
      F.Ends post (destroy post.settings patience F.stage).run s (.ok report) s' →
        report.bucket ≠ none → Chronicle F (Named s') s'
  | forgotten {stale : String → Prop} {s s' : Shared μ} {post : Post ι μ} {patience : Nat}
      {report : DestroyReport} :
    Chronicle F stale s →
      F.Ends post (destroy post.settings patience F.stage).run s (.ok report) s' →
        report.bucket = none → Chronicle F stale s'

theorem Chronicle.completed (h : F.Chronicle stale s) : F.Completed s := by
  induction h with
  | start => exact .start
  | deployed _ _ hend ih => exact ih.deployed hend
  | emptied _ hend _ ih => exact ih.destroyed hend
  | forgotten _ hend _ ih => exact ih.destroyed hend

theorem destroyed_of_ends {patience : Nat} {report : DestroyReport}
    (h : F.Ends post (destroy post.settings patience F.stage).run s (.ok report) s') :
    Destroyed post s report s' := by
  have hend := Ends.of_follows (I := fun _ => True)
    (fun _ _ _ _ _ _ ha => ⟨ha, trivial⟩) trivial (follows_destroy patience) h
  exact hend.1 report rfl

omit [DecidableEq μ] in
/-- Nothing in the bucket, and every record stale: there is nothing to vouch for. -/
theorem sound_of_bare (h : s.Bare) : F.Sound (Named s) s where
  vouched m t ht hfresh := absurd ⟨m, ht⟩ hfresh
  marker body hbody := by
    rw [h] at hbody
    cases hbody

/-- Forgetting a record leaves the others as they are. -/
theorem Sound.forget (hs : F.Sound stale s)
    (hrecords : s'.records = Function.update s.records post.machine .empty)
    (hobjects : s'.objects = s.objects) : F.Sound stale s' where
  vouched m t ht hfresh := by
    rw [hrecords] at ht ⊢
    by_cases hm : m = post.machine
    · rw [hm, Function.update_self] at ht
      cases ht
    · rw [Function.update_of_ne hm] at ht ⊢
      refine (hs.vouched m t ht hfresh).of_stored fun i artifact hin => ?_
      rw [Stored, hobjects]
      exact hin
  marker body hbody := hs.marker body (hobjects ▸ hbody)

theorem follows_deploy {options : DeployOptions} {patience : Nat} (hs : F.Sound stale s)
    (hstage : options.stage = F.stage) (hlive : F.Live stale post.compilation) :
    (deploy post.settings patience options).Follows (F.sharing stale post) (fun _ _ => True) s := by
  rw [Deploy.deploy_eq_proceed, hstage]
  exact follows_bind hs (follows_prepare _ hs) fun p s' h hready =>
    follows_proceed h.sound hstage hlive hready

theorem sound_of_chronicle (h : F.Chronicle stale s) : F.Sound stale s := by
  induction h with
  | start => exact .empty
  | deployed _ hlive hend ih => exact (Ends.of_sharing ih (follows_deploy ih rfl hlive) hend).2
  | emptied _ hend hbucket _ => exact sound_of_bare ((destroyed_of_ends hend).bare hbucket)
  | forgotten _ hend hbucket ih =>
    have hdestroyed := destroyed_of_ends hend
    exact ih.forget hdestroyed.records (hdestroyed.kept hbucket)

/-- Trust implies presence: whenever a deploy plans to reuse a version, the bucket has it, with the
bytes of a compilation in which the function had the fingerprint it has now. -/
theorem genuine_of_trusted {patience : Nat} {p : Deploy.Prepared} {f : FunctionSpec}
    (h : F.Chronicle stale s)
    (hend : F.Ends post (Deploy.prepare (post.settings.waiting patience) F.stage).run s (.ok p) s')
    (hf : f ∈ p.project.active F.stage) (hreused : f.entryPoint ∈ p.plan.reused) :
    ∃ v hash, p.plan.record.get? f.entryPoint = some ⟨v, some hash⟩ ∧
      (F.compilation post.compilation).fingerprint f = .ok hash ∧
      F.Genuine s' f.entryPoint v hash := by
  have hs := sound_of_chronicle h
  have hready := (Ends.of_sharing hs (follows_prepare _ hs) hend).1 p rfl
  exact hready.genuine hf hreused

namespace Sample

/-- Destroying the stage. -/
def destroyed : Run DestroyReport := destroy (runner true true).settings 10 .dev

/-- A deploy from one machine and what it leaves. -/
def deployedFrom (machine again : Bool) (s : Shared Bool) : Shared Bool :=
  ((deployed again).outcome (world machine again) s).2

/-- The other machine destroys the stage. -/
def destroyedAfter (s : Shared Bool) : Shared Bool := (destroyed.outcome (world true true) s).2

theorem ends_deployed (machine again : Bool) {s : Shared Bool}
    (h : ((deployed again).outcome (world machine again) s).1.isSome = true) :
    ∃ r, fleet.Ends (runner machine again) (deployed again).run s r
      (deployedFrom machine again s) := by
  obtain ⟨r, hr⟩ := Option.isSome_iff_exists.1 h
  exact ⟨r, ends_of_run (hosts machine again) (Prod.ext hr (by rw [deployedFrom]; rfl))⟩

theorem ends_destroyed {s : Shared Bool}
    (h : ((destroyed.outcome (world true true) s).1.any fun r =>
      r.toOption.any fun report => report.bucket ≠ none) = true) :
    ∃ report, report.bucket ≠ none ∧
      fleet.Ends (runner true true) destroyed.run s (.ok report) (destroyedAfter s) := by
  obtain ⟨r, hr, hreport⟩ := (Option.any_eq_true ..).1 h
  cases r with
  | error e => cases hreport
  | ok report =>
    exact ⟨report, of_decide_eq_true hreport, ends_of_run (hosts true true) (Prod.ext hr rfl)⟩

theorem ends_prepared {s : Shared Bool} {f : Deploy.Prepared → Bool}
    (h : ((prepared.outcome (world false true) s).1.any fun r => r.toOption.any f) = true) :
    ∃ p s', f p = true ∧ fleet.Ends (runner false true) prepared.run s (.ok p) s' := by
  obtain ⟨r, hr, hp⟩ := (Option.any_eq_true ..).1 h
  cases r with
  | error e => cases hp
  | ok p => exact ⟨p, _, hp, ends_of_run (hosts false true) (Prod.ext hr rfl)⟩

/-- One machine deploys the first compilation, the other destroys the stage. -/
def emptied : Shared Bool := destroyedAfter (deployedFrom false false .empty)

/-- One machine deploys both compilations, the other destroys the stage. -/
def forgotten : Shared Bool :=
  destroyedAfter (deployedFrom false true (deployedFrom false false .empty))

theorem chronicle_emptied : fleet.Chronicle (Named emptied) emptied := by
  obtain ⟨r, hdeployed⟩ := ends_deployed false false (s := .empty) (by decide +kernel)
  obtain ⟨report, hbucket, hdestroyed⟩ :=
    ends_destroyed (s := deployedFrom false false .empty) (by decide +kernel)
  exact (Chronicle.start.deployed ⟨id, nofun⟩ hdeployed).emptied hdestroyed hbucket

/-- The second compilation is not stale. -/
theorem live_emptied : fleet.Live (Named emptied) true where
  timestamp := by
    have hnamed : ∀ m, (emptied.records m).timestamp ≠ some (Text.trim "t2") := by decide +kernel
    rintro ⟨m, hm⟩
    exact hnamed m hm
  files := nofun

end Sample

/-- The record that the first machine still has is not believed, and from then on all that it
reuses is there. -/
theorem genuine_of_trusted_sample :
    ∃ (p : Deploy.Prepared) (s' : Shared Bool) (v : FunctionVersion) (hash : ContentHash),
      Sample.fleet.Chronicle (Named Sample.emptied)
          (Sample.deployedFrom false true Sample.emptied) ∧
        Sample.fleet.Ends (Sample.runner false true) Sample.prepared.run
          (Sample.deployedFrom false true Sample.emptied) (.ok p) s' ∧
        "cart" ∈ p.plan.reused ∧ p.plan.record.get? "cart" = some ⟨v, some hash⟩ ∧
        Sample.fleet.Genuine s' "cart" v hash := by
  obtain ⟨r, hdeployed⟩ := Sample.ends_deployed false true (s := Sample.emptied) (by decide +kernel)
  obtain ⟨p, s', hp, hend⟩ := Sample.ends_prepared
    (s := Sample.deployedFrom false true Sample.emptied) (f := fun p => (p.project.active .dev).contains (Sample.function "cart") &&
      p.plan.reused.contains "cart") (by decide +kernel)
  obtain ⟨hactive, hreused⟩ := Bool.and_eq_true_iff.1 hp
  have hchronicle := Sample.chronicle_emptied.deployed Sample.live_emptied hdeployed
  obtain ⟨v, hash, hrecord, -, hgenuine⟩ := genuine_of_trusted hchronicle hend
    (List.contains_iff_mem.1 hactive) (List.contains_iff_mem.1 hreused)
  exact ⟨p, s', v, hash, hchronicle, hend, List.contains_iff_mem.1 hreused, hrecord, hgenuine⟩

/-- A run that makes a stale compilation the live one makes another machine trust what it recorded
before the bucket was taken down: both compilations are deployed, the other machine destroys the
stage and deploys the second one again, and now the first machine reuses a version that is gone. -/
theorem trusted_not_present :
    ∃ (s s' : Shared Bool) (p : Deploy.Prepared) (d : Deployed),
      Sample.fleet.Completed s ∧
        Sample.fleet.Ends (Sample.runner false true) Sample.prepared.run s (.ok p) s' ∧
        p.plan.mode = .incremental ∧ "cart" ∈ p.plan.reused ∧
        p.plan.record.get? "cart" = some d ∧ s.objects d.version.key = none := by
  obtain ⟨_, hfirst⟩ := Sample.ends_deployed false false (s := .empty) (by decide +kernel)
  obtain ⟨_, hsecond⟩ := Sample.ends_deployed false true
    (s := Sample.deployedFrom false false .empty) (by decide +kernel)
  obtain ⟨_, -, hdestroyed⟩ := Sample.ends_destroyed
    (s := Sample.deployedFrom false true (Sample.deployedFrom false false .empty))
    (by decide +kernel)
  obtain ⟨_, hagain⟩ := Sample.ends_deployed true true (s := Sample.forgotten) (by decide +kernel)
  obtain ⟨p, s', hp, hend⟩ := Sample.ends_prepared
    (s := Sample.deployedFrom true true Sample.forgotten) (f := fun p =>
      p.plan.mode = .incremental && p.plan.reused.contains "cart" &&
        (p.plan.record.get? "cart").any fun d =>
          ((Sample.deployedFrom true true Sample.forgotten).objects d.version.key).isNone)
    (by decide +kernel)
  obtain ⟨hp, hgone⟩ := Bool.and_eq_true_iff.1 hp
  obtain ⟨hmode, hreused⟩ := Bool.and_eq_true_iff.1 hp
  obtain ⟨d, hd, hnone⟩ := (Option.any_eq_true ..).1 hgone
  exact ⟨_, s', p, d, (((Completed.start.deployed hfirst).deployed hsecond).destroyed
    hdestroyed).deployed hagain, hend, of_decide_eq_true hmode, List.contains_iff_mem.1 hreused, hd,
    Option.isNone_iff_eq_none.1 hnone⟩

end Rollout.Fleet
