import Rollout.Proofs.Run.Evaluation
import Rollout.Proofs.Run.Installed
import Rollout.Run.Plan

/-!
A plan says what a deploy will do. Both find out about the stage in their own way - the plan asks
for the status of the stack and makes do without an export, the deploy tries to create the stack
and insists on the export - but where the stack exists they look at the same files, and the deploy
has changed none of them when it decides.
-/

namespace Rollout

variable {site : Site} {stage : Stage} {t t' : FileTree} {name : String} {w : Waiting}

namespace Run

variable {α β κ : Type} {P : Protocol κ} {Q : α → FileTree → Prop}

/-- Where everything is allowed, nothing has to be shown of what a run does. -/
theorem follows_of_free (hfree : ∀ k r, P.allowed k r) (p : Run α) (k : κ) :
    p.Follows P (fun _ _ => True) k := by
  suffices h : ∀ p : Program (Except Failure α), p.Follows P (fun _ _ => True) k from
    (h p.run).mono fun _ _ _ _ _ => trivial
  intro p
  induction p generalizing k with
  | done a => trivial
  | ask r next ih => exact ⟨hfree k r, fun a k' _ => ih a k'⟩
  | unfinished => trivial

/-- The answer to a request that changes nothing. -/
theorem follows_answer {ε : Type} {toFailure : ε → Failure} {r : Request}
    {cast : r.Answer → Except ε α} (hr : r.Idle)
    (h : ∀ a, site.Answers r t a t → ∀ x, cast a = .ok x → Q x t) :
    (ofProgram toFailure (.ask r fun a => .done (cast a))).Follows site.onDisk Q t := by
  refine follows_request trivial fun a t' ha => ?_
  obtain rfl := Site.answers_idle hr ha
  exact h a ha

end Run

namespace Site

theorem answers_listExports {token : Option String} {a : Except ProviderError ExportPage}
    (h : site.Answers (.stack (.listExports token)) t a t') :
    site.cloud.provider.listExports t token = a ∧ t' = t := by
  cases h
  exact ⟨rfl, rfl⟩

theorem answers_status {a : Except ProviderError StackStatus}
    (h : site.Answers (.stack (.status name)) t a t') :
    site.cloud.provider.status t name = a ∧ t' = t := by
  cases h
  exact ⟨rfl, rfl⟩

theorem answers_get {bucket key : String} {a : Except StoreError (Option ByteArray)}
    (h : site.Answers (.store (.get bucket key)) t a t') :
    site.cloud.objects.get t bucket key = a ∧ t' = t := by
  cases h
  exact ⟨rfl, rfl⟩

theorem answers_load {a : Except RecordError Record}
    (h : site.Answers (.record (.load stage)) t a t') :
    site.records.load t stage = a ∧ t' = t := by
  cases h
  exact ⟨rfl, rfl⟩

end Site

namespace Lifecycle

/-! ## Exports -/

/-- What so many pages of exports from a token on say of an export; nothing if there are more. -/
def scan (p : StackProvider) (t : FileTree) (name : String) :
    Nat → Option String → Option (Except ProviderError (Option String))
  | 0, _ => none
  | pages + 1, token =>
    match p.listExports t token with
    | .error e => some (.error e)
    | .ok page =>
      match page.exports.find? fun e => e.name = name with
      | some e => some (.ok (some e.value))
      | none =>
        match page.next with
        | some token => scan p t name pages (some token)
        | none => some (.ok none)

theorem scan_mono {p : StackProvider} {pages pages' : Nat} (hle : pages ≤ pages')
    {token : Option String} {r : Except ProviderError (Option String)}
    (h : scan p t name pages token = some r) : scan p t name pages' token = some r := by
  induction pages generalizing pages' token with
  | zero => cases h
  | succ pages ih =>
    obtain ⟨more, rfl⟩ : ∃ more, pages' = more + 1 := ⟨pages' - 1, by omega⟩
    rw [scan] at h ⊢
    split at h
    · exact h
    · rename_i page hpage
      split at h
      · rename_i e he
        simpa only [he] using h
      · rename_i he
        split at h
        · rename_i token' hnext
          simpa only [he, hnext] using ih (by omega) h
        · rename_i hnext
          simpa only [he, hnext] using h

/-- What the exports of all stacks say of an export. -/
def Says (p : StackProvider) (t : FileTree) (name : String)
    (r : Except ProviderError (Option String)) : Prop :=
  ∃ pages, scan p t name pages none = some r

theorem Says.unique {p : StackProvider} {r r' : Except ProviderError (Option String)}
    (h : Says p t name r) (h' : Says p t name r') : r = r' := by
  obtain ⟨pages, hr⟩ := h
  obtain ⟨pages', hr'⟩ := h'
  have hmax := scan_mono (Nat.le_max_left pages pages') hr
  have hmax' := scan_mono (Nat.le_max_right pages pages') hr'
  exact Option.some.inj (hmax.symm.trans hmax')

theorem follows_scanFrom_eq (name : String) (pages : Nat) (token : Option String) :
    (scanFrom name pages token).Follows site.onDisk
      (fun r t' => t' = t ∧ scan site.cloud.provider t name pages token = some r) t := by
  induction pages generalizing token with
  | zero => trivial
  | succ pages ih =>
    refine ⟨trivial, fun answer t' ha => ?_⟩
    obtain ⟨hpage, rfl⟩ := Site.answers_listExports ha
    rw [scan, hpage]
    cases answer with
    | error e => exact ⟨rfl, rfl⟩
    | ok page =>
      dsimp only
      cases page.exports.find? fun e => e.name = name with
      | some e => exact ⟨rfl, rfl⟩
      | none =>
        cases page.next with
        | some token => exact ih (some token)
        | none => exact ⟨rfl, rfl⟩

/-- What one pass over the exports comes to. -/
def lookedUp (w : Waiting) : Except ProviderError (Option String) → ExportLookup
  | .ok (some value) => .found value
  | _ => .notFound w.exports.attempts

/-- What looking for an export comes to, unless the pages outlast the patience. -/
def lookUp (w : Waiting) (p : StackProvider) (t : FileTree) (name : String) :
    Option ExportLookup :=
  if w.exports.attempts = 0 then some (.notFound 0)
  else (scan p t name w.patience none).map (lookedUp w)

theorem scan_congr {p : StackProvider} (h : ∀ token, p.listExports t' token = p.listExports t token)
    (pages : Nat) (token : Option String) :
    scan p t' name pages token = scan p t name pages token := by
  induction pages generalizing token with
  | zero => rfl
  | succ pages ih => simp only [scan, h, ih]

/-- Where the same is exported, the same comes of looking for it. -/
theorem lookUp_congr {p : StackProvider}
    (h : ∀ token, p.listExports t' token = p.listExports t token) :
    lookUp w p t' name = lookUp w p t name := by
  rw [lookUp, lookUp, scan_congr h]

/-- A lookup that found something read it off the exports. -/
theorem says_of_lookUp {p : StackProvider} {value : String}
    (h : lookUp w p t name = some (.found value)) : Says p t name (.ok (some value)) := by
  unfold lookUp at h
  split at h
  · cases h
  · obtain ⟨r, hr, hfound⟩ := Option.map_eq_some_iff.1 h
    refine ⟨w.patience, hr.trans ?_⟩
    unfold lookedUp at hfound
    split at hfound
    · cases hfound
      rfl
    · cases hfound

/-- Looking `left` more times, where one pass comes to `r`. -/
theorem follows_lookUpFrom_scan (w : Waiting) (name : String) (left : Nat) :
    (lookUpFrom w name left).Follows site.onDisk (fun found t' => t' = t ∧
      (0 < left → (scan site.cloud.provider t name w.patience none).map (lookedUp w) = some found) ∧
      (left = 0 → found = .notFound w.exports.attempts)) t := by
  induction left with
  | zero => exact Run.follows_pure ⟨rfl, fun h => absurd h (Nat.lt_irrefl 0), fun _ => rfl⟩
  | succ left ih =>
    refine .bind (Run.follows_onDisk_of_idle Run.idle_checkCancelled) ?_
    rintro _ t' rfl
    refine .bind (Run.follows_liftProgram (Program.Follows.bind
      (follows_scanFrom_eq name w.patience none) ?_))
      (Q := fun found t'' => t'' = t' ∧ ∃ r,
        scan site.cloud.provider t' name w.patience none = some r ∧
        lookedUp w r = found.elim (.notFound w.exports.attempts) .found) ?_
    · rintro r t'' ⟨rfl, hr⟩
      cases r with
      | ok value => exact ⟨rfl, _, hr, by cases value <;> rfl⟩
      | error e => exact ⟨rfl, _, hr, rfl⟩
    rintro found t'' ⟨rfl, r, hr, hfound⟩
    have hscan : (scan site.cloud.provider t'' name w.patience none).map (lookedUp w) =
        some (found.elim (.notFound w.exports.attempts) .found) := by
      rw [hr, ← hfound]
      rfl
    cases found with
    | some value => exact Run.follows_pure ⟨rfl, fun _ => hscan, nofun⟩
    | none =>
      -- whoever looks again finds the same
      have hmore : (lookUpFrom w name left).Follows site.onDisk (fun found t' => t' = t'' ∧
          (0 < left + 1 →
            (scan site.cloud.provider t'' name w.patience none).map (lookedUp w) = some found) ∧
          (left + 1 = 0 → found = .notFound w.exports.attempts)) t'' := by
        refine ih.mono ?_
        rintro found t' ⟨rfl, hagain, hlast⟩
        refine ⟨rfl, fun _ => ?_, nofun⟩
        by_cases hleft : 0 < left
        · exact hagain hleft
        · rw [hlast (by omega)]
          exact hscan
      by_cases hleft : 0 < left
      · simp only [hleft, if_true]
        refine .bind (Run.follows_onDisk_of_idle (Run.idle_sleep _)) ?_
        rintro _ t' rfl
        exact hmore
      · simp only [hleft, if_false]
        exact hmore

theorem follows_findExport_lookUp (w : Waiting) (name : String) :
    (findExport w name).Follows site.onDisk
      (fun found t' => t' = t ∧ lookUp w site.cloud.provider t name = some found) t := by
  refine (follows_lookUpFrom_scan w name w.exports.attempts).mono ?_
  rintro found t' ⟨rfl, hagain, hnone⟩
  refine ⟨rfl, ?_⟩
  unfold lookUp
  split
  · rename_i hzero
    rw [hnone hzero, hzero]
  · exact hagain (by omega)

/-- What looking for an export comes to, given what there is and how often one looks. -/
def Finds (p : StackProvider) (t : FileTree) (name : String) (attempts : Nat) : ExportLookup → Prop
  | .found value => 0 < attempts ∧ Says p t name (.ok (some value))
  | .notFound _ => 0 < attempts → ∃ r, Says p t name r ∧ ∀ value, r ≠ .ok (some value)

/-- Looking twice, one finds the same or nothing. -/
theorem Finds.agree {p : StackProvider} {attempts : Nat} {value : String} {found : ExportLookup}
    (h : Finds p t name attempts (.found value)) (h' : Finds p t name attempts found) :
    found = .found value := by
  cases found with
  | found value' =>
    have heq := h.2.unique h'.2
    cases heq
    rfl
  | notFound _ =>
    obtain ⟨r, hr, hne⟩ := h' h.1
    exact absurd (hr.unique h.2) (hne value)

theorem follows_findExport_finds (w : Waiting) (name : String) :
    (findExport w name).Follows site.onDisk
      (fun found t' => t' = t ∧ Finds site.cloud.provider t name w.exports.attempts found) t := by
  refine (follows_findExport_lookUp w name).mono ?_
  rintro found t' ⟨rfl, hfound⟩
  refine ⟨rfl, ?_⟩
  cases found with
  | found value =>
    refine ⟨Nat.pos_of_ne_zero fun hzero => ?_, says_of_lookUp hfound⟩
    rw [lookUp, if_pos hzero] at hfound
    cases hfound
  | notFound attempts =>
    intro hpos
    rw [lookUp, if_neg (Nat.ne_of_gt hpos)] at hfound
    obtain ⟨r, hr, hnone⟩ := Option.map_eq_some_iff.1 hfound
    refine ⟨r, ⟨w.patience, hr⟩, ?_⟩
    rintro value rfl
    cases hnone

end Lifecycle

/-! ## Deciding -/

/-- The marker of a bucket whose marker object has a given content. -/
def Artifacts.markerOf (body : Option ByteArray) : Option String :=
  (body.map fun bytes => Text.trim (Text.decodeLossy bytes)).filter fun marker => marker ≠ ""

theorem Artifacts.follows_readMarker (bucket : String) :
    (readMarker bucket).Follows site.onDisk
      (fun marker t' => t' = t ∧ ∃ body,
        site.cloud.objects.get t bucket markerKey = .ok body ∧ marker = markerOf body) t := by
  have hget : (Run.store (.get bucket markerKey) (.download bucket markerKey)).Follows site.onDisk
      (fun body t' => t' = t ∧ site.cloud.objects.get t bucket markerKey = .ok body) t :=
    Run.follows_answer trivial fun a ha body hbody => ⟨rfl, (Site.answers_get ha).1.trans hbody⟩
  refine .bind (.bind hget (R := fun text t' => t' = t ∧ ∃ body,
    site.cloud.objects.get t bucket markerKey = .ok body ∧
      text = body.map fun bytes => Text.trim (Text.decodeLossy bytes)) ?_) ?_
  · rintro body t' ⟨rfl, hbody⟩
    exact Run.follows_pure ⟨rfl, body, hbody, rfl⟩
  · rintro text t' ⟨rfl, body, hbody, rfl⟩
    exact Run.follows_pure ⟨rfl, body, hbody, rfl⟩

namespace Tracking

/-- The record that counts for a stage. -/
def recordOf (store : RecordStore) (t : FileTree) (stage : Stage) : Record :=
  (store.load t stage).toOption.getD .empty

theorem follows_load (stage : Stage) :
    (load stage).Follows site.onDisk
      (fun loaded t' => t' = t ∧ loaded.record = recordOf site.records t stage) t := by
  refine ⟨trivial, fun a t' ha => ?_⟩
  obtain ⟨hload, rfl⟩ := Site.answers_load ha
  rw [recordOf, hload]
  cases a with
  | ok r => exact ⟨rfl, rfl⟩
  | error e => exact ⟨rfl, rfl⟩

theorem follows_fingerprints (fs : List FunctionSpec) :
    (fingerprints fs).Follows site.onDisk
      (fun hashed t' => t' = t ∧ hashed = fs.map fun f => (f, site.build.fingerprint t f)) t := by
  induction fs with
  | nil => exact ⟨rfl, rfl⟩
  | cons f fs ih =>
    refine ⟨trivial, ?_⟩
    rintro hash t' ⟨hhash, rfl⟩
    have hhash : site.build.fingerprint t' f = hash := hhash
    refine Program.Follows.bind ih ?_
    rintro rest t'' ⟨rfl, rfl⟩
    exact ⟨rfl, by rw [List.map_cons, hhash]⟩

theorem follows_decide (p : Project) (stage : Stage) (previous : Record) (marker : Option String) :
    (Tracking.decide p stage previous marker).Follows site.onDisk
      (fun plan t' => t' = t ∧
        plan = Redeploy.plan p stage previous marker (site.build.fingerprint t)) t := by
  refine Program.Follows.bind (follows_fingerprints (p.active stage)) ?_
  rintro hashed t' ⟨rfl, rfl⟩
  exact ⟨rfl, rfl⟩

end Tracking

/-- What is going to be deployed where: the bucket that the exports name, and the plan made with
the marker in it. -/
structure Foreseen (site : Site) (t : FileTree) (stage : Stage) (attempts : Nat) (p : Project)
    (bucket : String) (plan : RedeployPlan) : Prop where
  found : Lifecycle.Finds site.cloud.provider t (bucketExport (stage.stackName p.name)) attempts
    (.found bucket)
  plan : ∃ body, site.cloud.objects.get t bucket markerKey = .ok body ∧
    plan = Redeploy.plan p stage (Tracking.recordOf site.records t stage)
      (Artifacts.markerOf body) (site.build.fingerprint t)

/-- There is one thing to foresee. -/
theorem Foreseen.unique {attempts : Nat} {p : Project} {bucket bucket' : String}
    {plan plan' : RedeployPlan} (h : Foreseen site t stage attempts p bucket plan)
    (h' : Foreseen site t stage attempts p bucket' plan') : bucket' = bucket ∧ plan' = plan := by
  have hbucket : ExportLookup.found bucket' = .found bucket := h.found.agree h'.found
  cases hbucket
  obtain ⟨body, hbody, hplan⟩ := h.plan
  obtain ⟨body', hbody', hplan'⟩ := h'.plan
  rw [hbody] at hbody'
  cases hbody'
  exact ⟨rfl, hplan'.trans hplan.symm⟩

theorem Deploy.follows_loadProject :
    loadProject.Follows site.onDisk
      (fun p t' => t' = t ∧ site.descriptors.load t = .ok p) t :=
  Run.follows_answer (r := .onMachine .project) trivial fun _ ha _ hp => ⟨rfl, ha.1.trans hp⟩

theorem Lifecycle.follows_status (name : String) :
    (status name).Follows site.onDisk
      (fun st t' => t' = t ∧ site.cloud.provider.status t name = .ok st) t :=
  Run.follows_answer (r := .stack (.status name)) trivial fun _ ha _ hst =>
    ⟨rfl, (Site.answers_status ha).1.trans hst⟩

/-! ## The plan -/

namespace Plan

/-- What a report says of a stage: whether its stack exists, and if so what is to be foreseen. -/
structure Reports (site : Site) (t : FileTree) (stage : Stage) (attempts : Nat)
    (r : PlanReport) : Prop where
  stack : ∃ p st, site.descriptors.load t = .ok p ∧
    site.cloud.provider.status t (stage.stackName p.name) = .ok st ∧ r.stackExists = !st.isGone
  foreseen : r.stackExists = true → ∀ p, site.descriptors.load t = .ok p → ∀ bucket plan,
    Foreseen site t stage attempts p bucket plan →
      r.bucket = some bucket ∧ r.mode = plan.mode ∧
        r.toDeploy = plan.toDeploy.map FunctionSpec.entryPoint ∧ r.reused = plan.reused ∧
        r.uploads = plan.uploadKeys

theorem follows_findBucket (w : Waiting) (stack : String) (stackExists : Bool) :
    (findBucket w stack stackExists).Follows site.onDisk
      (fun b t' => t' = t ∧ (stackExists = true → ∃ found,
        Lifecycle.Finds site.cloud.provider t (bucketExport stack) w.exports.attempts found ∧
          ∀ bucket, found = .found bucket → b.1 = some bucket)) t := by
  cases stackExists with
  | false => exact Run.follows_pure ⟨rfl, nofun⟩
  | true =>
    refine .bind (Lifecycle.follows_findExport_finds w (bucketExport stack)) ?_
    rintro found t' ⟨rfl, hfound⟩
    cases found with
    | found bucket =>
      refine Run.follows_pure ⟨rfl, fun _ => ⟨_, hfound, ?_⟩⟩
      rintro bucket' ⟨⟩
      rfl
    | notFound attempts => exact Run.follows_pure ⟨rfl, fun _ => ⟨_, hfound, nofun⟩⟩

theorem follows_findMarker (bucket : Option String) :
    (findMarker bucket).Follows site.onDisk
      (fun marker t' => t' = t ∧ ∀ b, bucket = some b → ∃ body,
        site.cloud.objects.get t b markerKey = .ok body ∧ marker = Artifacts.markerOf body) t := by
  cases bucket with
  | none => exact Run.follows_pure ⟨rfl, nofun⟩
  | some b =>
    refine (Artifacts.follows_readMarker b).mono ?_
    rintro marker t' ⟨rfl, hmarker⟩
    refine ⟨rfl, ?_⟩
    rintro b' ⟨⟩
    exact hmarker

/-- A plan finds out what is to be foreseen. -/
theorem follows_plan (s : Settings) (patience : Nat) (stage : Stage) :
    (plan s patience stage).Follows site.onDisk
      (fun r _ => Reports site t stage s.exports.attempts r) t := by
  refine .bind Deploy.follows_loadProject ?_
  rintro p t' ⟨rfl, hp⟩
  refine .bind (Lifecycle.follows_status _) ?_
  rintro st t'' ⟨rfl, hst⟩
  refine .bind (follows_findBucket (s.waiting patience) _ _) ?_
  rintro ⟨bucket, warnings⟩ t' ⟨rfl, hbucket⟩
  refine .bind (follows_findMarker bucket) ?_
  rintro marker t'' ⟨rfl, hmarker⟩
  refine .bind (Run.follows_liftProgram (Tracking.follows_load stage)) ?_
  rintro loaded t' ⟨rfl, hloaded⟩
  refine .bind (Run.follows_liftProgram (Tracking.follows_decide p stage _ marker)) ?_
  rintro made t'' ⟨rfl, rfl⟩
  refine Run.follows_pure ⟨⟨p, st, hp, hst, rfl⟩, fun hexists p' hp' bucket' plan' h => ?_⟩
  rw [hp] at hp'
  cases hp'
  obtain ⟨found, hfinds, hsame⟩ := hbucket hexists
  obtain rfl := hsame bucket' (h.found.agree hfinds)
  obtain ⟨body, hbody, rfl⟩ := hmarker bucket' rfl
  have hforeseen : Foreseen site t'' stage s.exports.attempts p bucket'
      (Redeploy.plan p stage loaded.record (Artifacts.markerOf body)
        (site.build.fingerprint t'')) :=
    ⟨h.found, body, hbody, by rw [hloaded]⟩
  obtain ⟨-, rfl⟩ := hforeseen.unique h
  exact ⟨rfl, rfl, rfl, rfl, rfl⟩

/-- Planning only looks. -/
theorem idle_plan (s : Settings) (patience : Nat) (stage : Stage) :
    (plan s patience stage).Only Request.Idle := by
  have hbucket (stack : String) (stackExists : Bool) :
      (findBucket (s.waiting patience) stack stackExists).Only Request.Idle := by
    cases stackExists with
    | false => exact Run.only_pure _
    | true =>
      exact Run.only_bind (Lifecycle.idle_findExport ..) fun found => by
        cases found <;> exact Run.only_pure _
  have hmarker (bucket : Option String) : (findMarker bucket).Only Request.Idle := by
    cases bucket with
    | none => exact Run.only_pure _
    | some b => exact Artifacts.idle_readMarker b
  have hfingerprints (fs : List FunctionSpec) :
      (Tracking.fingerprints fs).Only Request.Idle := by
    induction fs with
    | nil => trivial
    | cons f fs ih => exact ⟨trivial, fun _ => Program.only_bind ih fun _ => trivial⟩
  refine Run.only_bind (Run.only_ofProgram ⟨trivial, fun _ => trivial⟩) fun p => ?_
  refine Run.only_bind (Lifecycle.idle_status _) fun st => ?_
  refine Run.only_bind (hbucket _ _) fun b => ?_
  refine Run.only_bind (hmarker _) fun marker => ?_
  refine Run.only_bind (Run.only_liftProgram ⟨trivial, fun a => ?_⟩) fun loaded => ?_
  · cases a <;> trivial
  refine Run.only_bind (Run.only_liftProgram ?_) fun made => Run.only_pure _
  exact Program.only_bind (hfingerprints _) fun _ => trivial

end Plan

/-! ## The deploy -/

namespace Deploy

/-- A stack that exists is not created again. -/
theorem create_of_exists {p : StackProvider} {st : StackStatus} (h : p.status t name = .ok st)
    (hgone : st.isGone = false) (body : String) : p.create name body t = (.ok .alreadyExists, t) := by
  unfold StackProvider.status at h
  cases hload : p.load t name with
  | error e =>
    rw [hload] at h
    cases h
  | ok doc =>
    rw [hload] at h
    cases doc with
    | none =>
      cases h
      cases hgone
    | some doc =>
      have hread : Disk.reading (fun t => p.load t name) t = (.ok (some doc), t) := by
        rw [Disk.reading, hload]
      rw [StackProvider.create, Outcome.bind_apply, hread]
      rfl

theorem follows_ensureStack_of_exists {st : StackStatus}
    (h : site.cloud.provider.status t name = .ok st) (hgone : st.isGone = false) :
    (ensureStack w name stage).Follows site.onDisk (fun _ t' => t' = t) t := by
  refine .bind (Run.follows_onDisk_of_idle (idle_readTemplate ..)) ?_
  rintro body t' rfl
  have hcreate : (Lifecycle.create name body).Follows site.onDisk
      (fun outcome t'' => t'' = t' ∧ outcome = .alreadyExists) t' := by
    refine Run.follows_request (r := .stack (.create name body)) trivial fun a t'' ha outcome ho => ?_
    have ha : site.cloud.provider.create name body t' = (a, t'') := ha
    rw [create_of_exists h hgone] at ha
    cases ha
    cases ho
    exact ⟨rfl, rfl⟩
  refine .bind hcreate ?_
  rintro outcome t'' ⟨rfl, rfl⟩
  refine .bind (Run.follows_onDisk_of_idle (Run.idle_emit id)) ?_
  rintro _ t' rfl
  exact Run.follows_pure rfl

/-- Where the stack exists, a deploy has changed nothing when it decides as was to be foreseen. -/
theorem follows_prepare_foreseen (w : Waiting)
    (hexists : ∀ p, site.descriptors.load t = .ok p → ∃ st,
      site.cloud.provider.status t (stage.stackName p.name) = .ok st ∧ st.isGone = false) :
    (prepare w stage).Follows site.onDisk
      (fun p _ => site.descriptors.load t = .ok p.project ∧
        Foreseen site t stage w.exports.attempts p.project p.bucket p.plan) t := by
  refine .bind follows_loadProject ?_
  rintro project t' ⟨rfl, hproject⟩
  obtain ⟨st, hst, hgone⟩ := hexists project hproject
  refine .bind (Run.follows_onDisk_of_idle (Run.idle_emit id)) ?_
  rintro _ t'' rfl
  refine .bind (Run.follows_liftProgram (Tracking.follows_load stage)) ?_
  rintro loaded t' ⟨rfl, hloaded⟩
  refine .bind (follows_ensureStack_of_exists hst hgone) ?_
  rintro created t'' rfl
  have hresolve : (resolveBucket w (stage.stackName project.name)).Follows site.onDisk
      (fun bucket t' => t' = t'' ∧ Lifecycle.Finds site.cloud.provider t''
        (bucketExport (stage.stackName project.name)) w.exports.attempts (.found bucket)) t'' := by
    refine .bind (Lifecycle.follows_findExport_finds w _) ?_
    rintro found t' ⟨rfl, hfound⟩
    cases found with
    | found bucket => exact Run.follows_pure ⟨rfl, hfound⟩
    | notFound attempts => exact Run.follows_throw _
  refine .bind hresolve ?_
  rintro bucket t' ⟨rfl, hbucket⟩
  refine .bind (Run.follows_onDisk_of_idle (Run.idle_emit id)) ?_
  rintro _ t'' rfl
  refine .bind (Artifacts.follows_readMarker bucket) ?_
  rintro marker t' ⟨rfl, body, hbody, rfl⟩
  refine .bind (Run.follows_liftProgram (Tracking.follows_decide project stage _ _)) ?_
  rintro made t'' ⟨rfl, rfl⟩
  refine .bind (Run.follows_onDisk_of_idle (Run.idle_emit id)) ?_
  rintro _ t' rfl
  exact Run.follows_pure ⟨hproject, hbucket, body, hbody, by rw [hloaded]⟩

/-- The report of a deploy is about what was decided. -/
theorem follows_finish_reports (s : Settings) (options : DeployOptions) (p : Prepared)
    (a : Applied) :
    (finish s w options p a).Follows site.onDisk
      (fun r _ => r.bucket = p.bucket ∧ r.mode = p.plan.mode ∧
        r.deployed = p.plan.toDeploy.map FunctionSpec.entryPoint ∧ r.reused = p.plan.reused ∧
        r.uploaded = p.plan.uploadKeys) t := by
  have hfree {α : Type} (p : Run α) (t : FileTree) : p.Follows site.onDisk (fun _ _ => True) t :=
    Run.follows_of_free (fun _ _ => trivial) p t
  refine .bind (hfree _ _) fun found t' _ => .bind (hfree _ _) fun files t'' _ => ?_
  by_cases hskip : options.skipHooks = true
  · simp only [hskip, if_true]
    refine .bind (hfree _ _) fun hooks t₁ _ => .bind (hfree _ _) fun _ t₂ _ => ?_
    exact Run.follows_pure ⟨rfl, rfl, rfl, rfl, rfl⟩
  · simp only [hskip]
    refine .bind (hfree _ _) fun hooks t₁ _ => .bind (hfree _ _) fun _ t₂ _ => ?_
    exact Run.follows_pure ⟨rfl, rfl, rfl, rfl, rfl⟩

/-- A deploy reports what was to be foreseen. -/
theorem follows_deploy_foreseen (s : Settings) (patience : Nat) (options : DeployOptions)
    (hexists : ∀ p, site.descriptors.load t = .ok p → ∃ st,
      site.cloud.provider.status t (options.stage.stackName p.name) = .ok st ∧
        st.isGone = false) :
    (deploy s patience options).Follows site.onDisk
      (fun r _ => ∃ p plan, site.descriptors.load t = .ok p ∧
        Foreseen site t options.stage s.exports.attempts p r.bucket plan ∧ r.mode = plan.mode ∧
        r.deployed = plan.toDeploy.map FunctionSpec.entryPoint ∧ r.reused = plan.reused ∧
        r.uploaded = plan.uploadKeys) t := by
  refine .bind (follows_prepare_foreseen (s.waiting patience) hexists) ?_
  rintro p t' ⟨hp, hforeseen⟩
  refine .bind (Run.follows_of_free (fun _ _ => trivial) _ _) fun a t'' _ => ?_
  refine (follows_finish_reports s options p a).mono ?_
  rintro r t₁ ⟨hbucket, hmode, hdeployed, hreused, huploaded⟩
  exact ⟨p.project, p.plan, hp, hbucket ▸ hforeseen, hmode, hdeployed, hreused, huploaded⟩

end Deploy

namespace DiskWorld

variable {α : Type} {Q : α → FileTree → Prop}

/-- A program that only looks leaves the disk as it is, however it ends. -/
theorem files_of_idle (d : DiskWorld site) {p : Program α} (h : p.Only Request.Idle)
    (w : d.State) : d.files (p.run d.handler w).2 = d.files w := by
  induction p generalizing w with
  | done a => rfl
  | ask r next ih => exact (ih _ (h.2 _) _).trans (Site.answers_idle h.1 (d.answers r w))
  | unfinished => rfl

/-- What a run comes to in a world on disk. -/
theorem result_of_follows (d : DiskWorld site) (w : d.State) {p : Run α}
    (h : p.Follows site.onDisk Q (d.files w)) :
    ∀ a, (p.outcome d.handler w).1 = some (.ok a) → Q a (d.files (p.outcome d.handler w).2) := by
  obtain ⟨-, t', hend, hQ⟩ := h.run (h := d.handler) (I := fun t w => d.files w = t)
    (fun t w r hw _ => ⟨_, hw ▸ d.answers r w, rfl⟩) rfl
  exact fun a ha => hend.symm ▸ hQ a ha

end DiskWorld

namespace Plan

/-- A plan predicts the deploy. Planning changes no file, in whatever world and however it ends.
If it reports that the stack exists and a deploy that finds the same files succeeds, then the deploy
redeploys, keeps and uploads what the plan said, in that order and to that bucket. -/
theorem predicts_deploy (d : DiskWorld site) (w : d.State) (s : Settings) (patience : Nat)
    (stage : Stage) :
    d.files ((plan s patience stage).outcome d.handler w).2 = d.files w ∧
      ∀ report, ((plan s patience stage).outcome d.handler w).1 = some (.ok report) →
        report.stackExists = true →
        ∀ (d' : DiskWorld site) (w' : d'.State),
          d'.files w' = d.files ((plan s patience stage).outcome d.handler w).2 →
          ∀ patience' options, options.stage = stage →
            ∀ r, ((deploy s patience' options).outcome d'.handler w').1 = some (.ok r) →
              r.mode = report.mode ∧ r.deployed = report.toDeploy ∧ r.reused = report.reused ∧
                r.uploaded = report.uploads ∧ some r.bucket = report.bucket := by
  have hfiles : d.files ((plan s patience stage).outcome d.handler w).2 = d.files w :=
    d.files_of_idle (idle_plan s patience stage) w
  refine ⟨hfiles, fun report hreport hexists d' w' hsame patience' options hstage r hr => ?_⟩
  rw [hfiles] at hsame
  have hplan := d.result_of_follows w (follows_plan s patience stage) report hreport
  obtain ⟨p, st, hp, hst, hgone⟩ := hplan.stack
  have hstack : ∀ p', site.descriptors.load (d'.files w') = .ok p' → ∃ st,
      site.cloud.provider.status (d'.files w') (options.stage.stackName p'.name) = .ok st ∧
        st.isGone = false := by
    rintro p' hp'
    rw [hsame, hp] at hp'
    cases hp'
    refine ⟨st, by rw [hsame, hstage, hst], ?_⟩
    rw [hexists] at hgone
    simpa using hgone.symm
  obtain ⟨p', made, hp', hforeseen, hmode, hdeployed, hreused, huploaded⟩ :=
    d'.result_of_follows w' (Deploy.follows_deploy_foreseen s patience' options hstack) r hr
  rw [hsame, hstage] at hforeseen
  rw [hsame] at hp'
  obtain ⟨hbucket', hmode', hdeployed', hreused', huploaded'⟩ :=
    hplan.foreseen hexists p' hp' r.bucket made hforeseen
  exact ⟨hmode.trans hmode'.symm, hdeployed.trans hdeployed'.symm, hreused.trans hreused'.symm,
    huploaded.trans huploaded'.symm, hbucket'.symm⟩

namespace Sample

/-- A stage. -/
def dev : Stage := ⟨"d", by decide⟩

/-- A function of the stage, compiled to a file of its name. -/
def function (entryPoint : String) : Json :=
  .obj [("entry_point", .str entryPoint), ("artifact", .str (entryPoint ++ "z")),
    ("stages", .strs ["d"]), ("version_token", .str ("@" ++ entryPoint))]

/-- A project of two functions. -/
def descriptor : Json :=
  .obj [("project_name", .str "p"), ("compilation_timestamp", .str "2"),
    ("functions", .arr [function "f", function "g"])]

/-- The record of an earlier deploy, in which only one of them was there. It has not changed
since. -/
def record : Record :=
  ⟨Record.currentFormat, some "1", [("f", ⟨⟨"1/fz"⟩,
    some (.ofText "20158d8b5cffa149ee20f162372d6df6512ecae52212800d3ccf0af4a1224a52")⟩)]⟩

/-- The index of a bucket that holds the marker of that deploy. -/
def index : Json :=
  .obj [("next_version", .nat 1),
    ("objects", .obj [(markerKey, .arr [.obj [("id", .str "v000000000001")]])])]

/-- A stack that exports the bucket. -/
def stack : Json :=
  .obj [("status", .str ""), ("template", .obj [("Outputs", .obj [("B", .obj [("Value", .str "b"),
    ("Export", .obj [("Name", .str "p-d-DeploymentBucketName")])])])])]

/-- A file with a document. -/
def document (v : Json) : Entry := .file (Text.encode (Json.compactChars v))

/-- A disk with the project, its record, its stack and the deployment bucket. -/
def disk : FileTree where
  workDir := []
  locks := []
  entries := [(["c"], .dir), (["c", "buckets"], .dir), (["c", "buckets", "b"], .dir),
    (["c", "buckets", "b", "index.json"], document index), (["c", "buckets", "b", "blobs"], .dir),
    (["c", "buckets", "b", "blobs", "v000000000001"], .file "1".toUTF8), (["c", "stacks"], .dir),
    (["c", "stacks", "p-d.json"], document stack), (["d"], .dir),
    (["d", "project.json"], document descriptor), (["d", "stack-create-d.json"], .file .empty),
    (["d", "stack-update-d.json"], document (.obj [])), (["f"], .file "1".toUTF8),
    (["fz"], .file .empty), (["g"], .file "1".toUTF8), (["gz"], .file .empty), (["s"], .dir),
    (["s", "records"], .dir), (["s", "records", "d.lock"], .file (Text.encode record.chars))]

def settings : Settings :=
  ⟨.ofString "/", dev, .ofString "/", .ofString "d", .ofString "s", 1, .standard, .standard⟩

def cloud : DiskCloud := .atRoot disk (.ofString "c")

theorem runs_spec :
    ((plan settings 2 dev).outcome (settings.site cloud).handler (.start disk)).1.bind
        (fun r => r.toOption.map fun report =>
          (report.stackExists, report.mode, report.toDeploy, report.reused, report.uploads)) =
      some (true, .incremental, ["g"], ["f"], ["2/gz"]) ∧
    ((deploy settings 2 ⟨dev, true⟩).outcome (settings.site cloud).handler
        (.start disk)).1.map Except.isOk = some true := by
  rw [Documents.handler_quick]
  decide +kernel

theorem exists_report : ∃ report,
    ((plan settings 2 dev).outcome (settings.site cloud).handler (.start disk)).1 =
      some (.ok report) ∧
    (report.stackExists, report.mode, report.toDeploy, report.reused, report.uploads) =
      (true, .incremental, ["g"], ["f"], ["2/gz"]) := by
  obtain ⟨result, hresult, hreport⟩ := Option.bind_eq_some_iff.1 runs_spec.1
  obtain ⟨report, hok, hreport⟩ := Option.map_eq_some_iff.1 hreport
  exact ⟨report, by rw [hresult, Outcome.ok_of_toOption hok], hreport⟩

theorem exists_deployed : ∃ r,
    ((deploy settings 2 ⟨dev, true⟩).outcome (settings.site cloud).handler (.start disk)).1 =
      some (.ok r) := by
  obtain ⟨result, hresult, hok⟩ := Option.map_eq_some_iff.1 runs_spec.2
  cases result with
  | ok r => exact ⟨r, hresult⟩
  | error e => cases hok

end Sample

/-- A project of which one function is kept and one is new: the plan says which, and the deploy that
follows keeps the one and uploads the other. -/
theorem predicts_deploy_sample :
    ∃ report r,
      ((plan Sample.settings 2 Sample.dev).outcome
        (Sample.settings.site Sample.cloud).handler (.start Sample.disk)).1 = some (.ok report) ∧
      report.stackExists = true ∧ report.toDeploy = ["g"] ∧ report.reused = ["f"] ∧
      report.uploads = ["2/gz"] ∧
      ((deploy Sample.settings 2 ⟨Sample.dev, true⟩).outcome
        (Sample.settings.site Sample.cloud).handler (.start Sample.disk)).1 = some (.ok r) ∧
      r.mode = report.mode ∧ r.deployed = report.toDeploy ∧ r.reused = report.reused ∧
      r.uploaded = report.uploads ∧ some r.bucket = report.bucket := by
  obtain ⟨report, hplan, hreport⟩ := Sample.exists_report
  obtain ⟨r, hdeploy⟩ := Sample.exists_deployed
  simp only [Prod.mk.injEq] at hreport
  obtain ⟨hexists, -, htoDeploy, hreused, huploads⟩ := hreport
  obtain ⟨hfiles, hpredicts⟩ := predicts_deploy
    (Sample.settings.site Sample.cloud).world (.start Sample.disk) Sample.settings 2 Sample.dev
  exact ⟨report, r, hplan, hexists, htoDeploy, hreused, huploads, hdeploy,
    hpredicts report hplan hexists (Sample.settings.site Sample.cloud).world (.start Sample.disk)
      hfiles.symm 2 ⟨Sample.dev, true⟩ rfl r hdeploy⟩

end Plan

end Rollout
