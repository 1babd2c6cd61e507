import Rollout.Proofs.Run.FleetSafety
import Rollout.Proofs.Run.Prediction

/-!
What a deploy stores in its bucket, request by request. The keys so far are carried along the run as
the situation of a protocol: the artifacts of the plan come first, each as often as the plan has it,
then the template and the marker, then the files of the stage. So every artifact is stored once
if the plan has it once, and that depends on the names of the artifacts alone: a valid project may
give one artifact to several functions, and then the plan has it several times.
-/

namespace Rollout

variable {α σ : Type} {bucket : String}

/-- The key under which a request stores an object in a bucket. -/
def Request.putKey? (bucket : String) : Request → Option String
  | store (.put b key _) => if b = bucket then some key else none
  | _ => none

theorem Request.Idle.putKey? {r : Request} (h : r.Idle) : r.putKey? bucket = none := by
  cases r with
  | store c => cases c <;> first | exact h.elim | rfl
  | _ => rfl

/-! ## The keys of a plan -/

namespace Redeploy

variable {p : Project}

theorem sharedArtifact?_eq_none (hp : p.fault? = none) :
    sharedArtifact? p = none ↔ p.assemble = true := by
  unfold sharedArtifact?
  cases hassemble : p.assemble with
  | true => simp
  | false => simpa using (valid_of_fault? hp).2 hassemble

/-- Two artifacts of a compilation have different keys. -/
theorem key_mint_injective (timestamp : String) :
    Function.Injective fun artifact => (FunctionVersion.mint timestamp artifact).key :=
  fun _ _ h => (String.append_right_inj _).1 h

theorem slash_mem_key (timestamp artifact : String) :
    '/' ∈ (FunctionVersion.mint timestamp artifact).key.toList := by
  simp [FunctionVersion.mint]

/-- The keys to upload to repeat only if functions to deploy share an artifact that is not the
shared one. -/
theorem nodup_keys_uploads (fs : List FunctionSpec) :
    ((uploads p fs).map fun u => u.version.key).Nodup ↔
      (sharedArtifact? p = none → (fs.map FunctionSpec.artifact).Nodup) := by
  unfold uploads
  cases sharedArtifact? p with
  | some artifact =>
    cases fs with
    | nil => simp
    | cons f fs => simp
  | none =>
    have hinj := key_mint_injective p.timestamp
    rw [forall_prop_of_true rfl, ← List.nodup_map_iff (l := fs.map FunctionSpec.artifact) hinj]
    simp only [List.map_map]
    rfl

theorem nodup_uploadKeys (hp : p.fault? = none) (previous : Record) (marker : Option String)
    (hashed : List Hashed) :
    (planHashed p previous marker hashed).uploadKeys.Nodup ↔
      (p.assemble = true →
        ((planHashed p previous marker hashed).toDeploy.map FunctionSpec.artifact).Nodup) := by
  rw [← sharedArtifact?_eq_none hp]
  exact nodup_keys_uploads _

/-- Neither the template nor the marker has the key of an artifact. -/
theorem not_mem_uploadKeys {previous : Record} {marker : Option String} {hashed : List Hashed}
    {key : String} (hkey : key ∈ (planHashed p previous marker hashed).uploadKeys) :
    key ∉ [templateKey, markerKey] := by
  obtain ⟨u, hu, rfl⟩ := List.mem_map.1 hkey
  rw [version_of_mem_uploads hu]
  intro hmem
  have hslash := slash_mem_key p.timestamp u.artifact
  simp only [List.mem_cons, List.not_mem_nil, or_false] at hmem
  rcases hmem with heq | heq
  · rw [heq] at hslash
    exact absurd hslash (by decide)
  · rw [heq] at hslash
    exact absurd hslash (by decide)

end Redeploy

/-! ## The keys stored so far -/

/-- Rules about the keys stored in a bucket: with every further one, they have to be as `A` says. -/
def storing (bucket : String) (A : List String → Prop) : Protocol (List String) where
  allowed keys r := ∀ key, r.putKey? bucket = some key → A (keys ++ [key])
  after keys r _ keys' := keys' = keys ++ (r.putKey? bucket).toList

namespace Program

/-- The keys under which a run stores objects in a bucket, one after the other. -/
def puts (bucket : String) (h : Handler σ) (p : Program α) (s : σ) : List String :=
  (p.moments h s).filterMap fun m => m.request.putKey? bucket

theorem puts_ask (h : Handler σ) (r : Request) (next : r.Answer → Program α) (s : σ) :
    (ask r next).puts bucket h s =
      (r.putKey? bucket).toList ++ (next (h.answer r s).1).puts bucket h (h.answer r s).2 := by
  rw [puts, moments, List.filterMap_cons]
  cases r.putKey? bucket with
  | none => rfl
  | some key => rfl

/-- A program that keeps to the rules about its keys has kept to them wherever it stops. -/
theorem Follows.puts {A : List String → Prop} {Q : α → List String → Prop} {p : Program α}
    {keys : List String} (hp : p.Follows (storing bucket A) Q keys) (hkeys : A keys)
    (h : Handler σ) (s : σ) :
    A (keys ++ p.puts bucket h s) ∧
      ∀ a, (p.run h s).1 = some a → Q a (keys ++ p.puts bucket h s) := by
  induction p generalizing keys s with
  | done a =>
    have hnil : keys ++ (done a).puts bucket h s = keys := List.append_nil keys
    rw [hnil]
    refine ⟨hkeys, ?_⟩
    rintro a' ⟨⟩
    exact hp
  | ask r next ih =>
    have hkeys' : A (keys ++ (r.putKey? bucket).toList) := by
      cases hr : r.putKey? bucket with
      | none => simpa using hkeys
      | some key => exact hp.1 key hr
    rw [puts_ask, ← List.append_assoc]
    exact ih _ (hp.2 _ _ rfl) hkeys' _
  | unfinished =>
    refine ⟨?_, nofun⟩
    rw [show keys ++ (unfinished : Program α).puts bucket h s = keys from List.append_nil keys]
    exact hkeys

theorem Only.puts_eq_nil {p : Program α} (hp : p.Only fun r => r.putKey? bucket = none)
    (h : Handler σ) (s : σ) : p.puts bucket h s = [] :=
  List.filterMap_eq_nil_iff.2 fun _ hm => Only.of_mem_moments hp hm

end Program

namespace Run

variable {A : List String → Prop} {keys : List String}

/-- The keys under which a run stores objects in a bucket, one after the other. -/
def puts (bucket : String) (h : Handler σ) (p : Run α) (s : σ) : List String :=
  Program.puts bucket h p.run s

theorem puts_bind (bucket : String) {β : Type} {h : Handler σ} {p : Run α} {f : α → Run β} {s s' : σ} {a : α}
    (hp : p.outcome h s = (some (.ok a), s')) :
    (p >>= f).puts bucket h s = p.puts bucket h s ++ (f a).puts bucket h s' ∧
      (p >>= f).outcome h s = (f a).outcome h s' := by
  rcases bind_cases h p f s with ⟨a', s'', hp', hmoments, houtcome⟩ | ⟨hnone, -⟩
  · rw [hp, Prod.mk.injEq, Option.some.injEq, Except.ok.injEq] at hp'
    obtain ⟨rfl, rfl⟩ := hp'
    refine ⟨?_, houtcome⟩
    have hmoments : (p >>= f).run.moments h s = p.run.moments h s ++ (f a).run.moments h s' :=
      hmoments
    simp only [puts, Program.puts, hmoments, List.filterMap_append]
  · exact absurd (congrArg Prod.fst hp) (hnone a)

theorem storing_of_quiet {p : Run α} (hp : p.Only fun r => r.putKey? bucket = none) :
    p.Follows (storing bucket A) (fun _ keys' => keys' = keys) keys := by
  refine hp.follows (R := (· = keys)) ?_ rfl
  rintro k r rfl hr
  refine ⟨fun key hkey => ?_, ?_⟩
  · rw [hr] at hkey
    cases hkey
  · rintro a k' rfl
    rw [hr]
    exact List.append_nil k

theorem storing_of_idle {p : Run α} (hp : p.Only Request.Idle) :
    p.Follows (storing bucket A) (fun _ keys' => keys' = keys) keys :=
  storing_of_quiet (Program.Only.mono hp fun _ => Request.Idle.putKey?)

/-- The key that is stored, if it is stored in the bucket. -/
theorem storing_put {b key : String} {body : ByteArray} {toFailure : StoreError → Failure}
    (hkey : b = bucket → A (keys ++ [key])) :
    (Run.store (.put b key body) toFailure).Follows (storing bucket A)
      (fun _ keys' => keys' = keys ++ if b = bucket then [key] else []) keys := by
  refine follows_ofProgram ⟨fun key' hput => ?_, ?_⟩
  · simp only [Request.putKey?] at hput
    split at hput
    · rename_i hb
      cases hput
      exact hkey hb
    · cases hput
  · rintro a keys' rfl _ _
    simp only [Request.putKey?]
    split
    · rfl
    · rfl

end Run

/-! ## The keys of a deploy -/

/-- What a deploy stores, in turn: artifacts, each as often as it is among the uploads at most,
then template and marker, and in the end files if there are any to go to the same bucket. -/
def InTurn (uploads : List String) (files : Prop) (keys : List String) : Prop :=
  ∃ artifacts fixed more, keys = artifacts ++ fixed ++ more ∧ artifacts.Subperm uploads ∧
    fixed <+: [templateKey, markerKey] ∧ (more ≠ [] → files)

variable {uploads : List String} {files : Prop} {keys : List String}

theorem InTurn.artifacts {artifacts : List String} (h : artifacts.Subperm uploads) :
    InTurn uploads files artifacts :=
  ⟨artifacts, [], [], by simp, h, by simp, fun h => absurd rfl h⟩

theorem InTurn.fixed {artifacts fixed : List String} (h : artifacts.Subperm uploads)
    (hfixed : fixed <+: [templateKey, markerKey]) : InTurn uploads files (artifacts ++ fixed) :=
  ⟨artifacts, fixed, [], by simp, h, hfixed, fun h => absurd rfl h⟩

theorem InTurn.append (h : InTurn uploads files keys) (hfiles : files) (key : String) :
    InTurn uploads files (keys ++ [key]) := by
  obtain ⟨artifacts, fixed, more, rfl, hartifacts, hfixed, -⟩ := h
  exact ⟨artifacts, fixed, more ++ [key], by simp, hartifacts, hfixed, fun _ => hfiles⟩

theorem subperm_map {us us' : List PendingUpload} (h : us.Subperm us') :
    (us.map PendingUpload.key).Subperm (us'.map PendingUpload.key) := by
  obtain ⟨l, hl, hsub⟩ := h
  exact ⟨_, hl.map _, hsub.map _⟩

namespace Artifacts

/-- A batch stores every key of its uploads once, if they are all different. -/
theorem batch_storing (us : List PendingUpload) :
    Batch (storing bucket (InTurn (us.map PendingUpload.key) files)) bucket fun done rest keys =>
      ∃ tried, keys = tried.map PendingUpload.key ∧ (tried ++ rest).Subperm us ∧
        ∀ u ∈ done, u ∈ tried where
  upload := by
    rintro done u rest keys ⟨tried, rfl, htried, hdone⟩
    have hskip : (tried ++ rest).Subperm us :=
      (((List.sublist_cons_self u rest).append_left tried).subperm).trans htried
    have hnext : ((tried ++ [u]) ++ rest).Subperm us := by
      rwa [List.append_assoc, List.singleton_append]
    rw [uploadFile_run]
    refine ⟨nofun, ?_⟩
    rintro body keys' rfl
    cases body with
    | error e => exact ⟨tried, List.append_nil _, hskip, hdone⟩
    | ok body =>
      rw [show tried.map PendingUpload.key ++
        ((Request.onMachine (.read u.path)).putKey? bucket).toList = tried.map PendingUpload.key
          from List.append_nil _]
      have hput : (Request.store (.put bucket u.key body)).putKey? bucket = some u.key :=
        if_pos rfl
      refine ⟨fun key hkey => ?_, ?_⟩
      · rw [hput] at hkey
        cases hkey
        rw [← List.map_singleton, ← List.map_append]
        exact .artifacts (subperm_map (((List.sublist_append_left _ rest).subperm).trans hnext))
      rintro a keys' rfl
      have hkeys : tried.map PendingUpload.key ++
          ((Request.store (.put bucket u.key body)).putKey? bucket).toList =
            (tried ++ [u]).map PendingUpload.key := by
        rw [hput, List.map_append]
        rfl
      have hdone' : ∀ v ∈ done, v ∈ tried ++ [u] := fun v hv =>
        List.mem_append_left _ (hdone v hv)
      cases a with
      | error e => exact ⟨tried ++ [u], hkeys, hnext, hdone'⟩
      | ok _ =>
        refine ⟨tried ++ [u], hkeys, hnext, fun v hv => ?_⟩
        rcases List.mem_cons.1 hv with rfl | hv
        · exact List.mem_append_right _ List.mem_cons_self
        · exact hdone' v hv
  tell := by
    rintro done rest keys c hJ hc
    have hquiet : (Request.control c).putKey? bucket = none := hc.putKey?
    refine ⟨fun key hkey => ?_, ?_⟩
    · rw [hquiet] at hkey
      cases hkey
    · rintro a keys' rfl
      rwa [hquiet, Option.toList_none, List.append_nil]

theorem storing_uploadAll {us : List PendingUpload} (hus : (us.map PendingUpload.key).Nodup)
    (workers : Nat) :
    (uploadAll bucket workers us).Follows
      (storing bucket (InTurn (us.map PendingUpload.key) files))
      (fun _ keys => keys.Perm (us.map PendingUpload.key)) [] := by
  refine ((batch_storing us).follows_uploadAll fun us' hus' =>
    ⟨[], rfl, hus'.subperm, nofun⟩).mono ?_
  rintro _ keys ⟨done, ⟨tried, rfl, htried, hdone⟩, hall⟩
  rw [List.append_nil] at htried
  refine (htried.antisymm ?_).map _
  exact List.subperm_of_subset (List.Nodup.of_map _ hus) fun u hu => hdone u (hall u hu)

theorem storing_uploadEach {b : String} (values : Option Substitutions) (us : List PendingUpload)
    (h : b = bucket → files) (hkeys : InTurn uploads files keys) :
    (uploadEach b values us).Follows (storing bucket (InTurn uploads files))
      (fun stored keys' => keys' = (keys ++ if b = bucket then stored else []) ∧
        InTurn uploads files keys') keys := by
  induction us generalizing keys with
  | nil => exact Run.follows_pure ⟨by simp, hkeys⟩
  | cons u us ih =>
    refine .bind (Run.storing_of_idle (idle_contentFor ..)) ?_
    rintro body keys₁ rfl
    refine .bind (Run.storing_put fun hb => hkeys.append (h hb) u.key) ?_
    rintro _ _ rfl
    have hnext : InTurn uploads files (keys₁ ++ if b = bucket then [u.key] else []) := by
      split
      · rename_i hb
        exact hkeys.append (h hb) u.key
      · rwa [List.append_nil]
    refine .bind (ih hnext) ?_
    rintro stored keys' ⟨rfl, hkeys'⟩
    refine Run.follows_pure ⟨?_, hkeys'⟩
    by_cases hb : b = bucket
    · simp [hb]
    · simp [hb]

end Artifacts

namespace Deploy

/-- The keys of the files uploaded to a bucket. -/
def fileKeys (bucket : String) (files : List UploadedFile) : List String :=
  (files.filter fun f => f.bucket = bucket).map UploadedFile.key

theorem fileKeys_append (bucket : String) (files more : List UploadedFile) :
    fileKeys bucket (files ++ more) = fileKeys bucket files ++ fileKeys bucket more := by
  rw [fileKeys, List.filter_append, List.map_append]
  rfl

theorem fileKeys_map (bucket b : String) (stored : List String) :
    fileKeys bucket (stored.map fun key => ⟨b, key⟩) = if b = bucket then stored else [] := by
  split
  · rename_i hb
    simp [fileKeys, hb, List.filter_map, Function.comp_def]
  · rename_i hb
    simp [fileKeys, hb, List.filter_map, Function.comp_def]

theorem storing_reportFiles {A : List String → Prop} (b : String) (stored : List String) :
    (reportFiles b stored).Follows (storing bucket A)
      (fun reported keys' => keys' = keys ∧ reported = stored.map fun key => ⟨b, key⟩) keys := by
  induction stored with
  | nil => exact Run.follows_pure ⟨rfl, rfl⟩
  | cons key stored ih =>
    refine .bind (Run.storing_of_idle (Run.idle_emit id)) ?_
    rintro _ _ rfl
    refine .bind ih ?_
    rintro reported _ ⟨rfl, rfl⟩
    exact Run.follows_pure ⟨rfl, rfl⟩

/-- What is stored after the commit is what is reported. -/
theorem storing_uploadFiles (projectRoot : Path) (values : Substitutions) {us : List FileUpload}
    (h : ∀ u ∈ us, u.bucket = bucket → files) (hkeys : InTurn uploads files keys) :
    (uploadFiles projectRoot values us).Follows (storing bucket (InTurn uploads files))
      (fun reported keys' => keys' = keys ++ fileKeys bucket reported) keys := by
  induction us generalizing keys with
  | nil => exact Run.follows_pure (List.append_nil keys).symm
  | cons u us ih =>
    refine .bind (Run.storing_of_idle Run.idle_checkCancelled) ?_
    rintro _ keys rfl
    have hpath (values : Option Substitutions) :
        (Artifacts.uploadPath u.bucket (projectRoot.join u.source) u.target values).Follows
          (storing bucket (InTurn uploads files))
          (fun stored keys' => keys' = (keys ++ if u.bucket = bucket then stored else []) ∧
            InTurn uploads files keys') keys := by
      refine .bind (Run.storing_of_idle (Run.only_ofProgram ⟨trivial, fun _ => trivial⟩)) ?_
      rintro found keys rfl
      cases Artifacts.pendingUploads (projectRoot.join u.source) (Artifacts.trimTarget u.target)
        found with
      | error e => exact Run.follows_throw _
      | ok pending =>
        exact Artifacts.storing_uploadEach values pending (h u List.mem_cons_self) hkeys
    refine .bind (hpath _) ?_
    rintro stored keys₁ ⟨hstored, hkeys'⟩
    refine .bind (storing_reportFiles u.bucket stored) ?_
    rintro reported _ ⟨rfl, rfl⟩
    refine .bind (ih (fun v hv => h v (List.mem_cons_of_mem _ hv)) hkeys') ?_
    rintro rest _ rfl
    refine Run.follows_pure ?_
    rw [hstored, fileKeys_append, fileKeys_map, List.append_assoc]

theorem quiet_updateStack (w : Waiting) (stack url : String) :
    (updateStack w stack url).Only fun r => r.putKey? bucket = none := by
  have hidle {α : Type} {p : Run α} (h : p.Only Request.Idle) : p.Only fun r => r.putKey? bucket = none :=
    Program.Only.mono h fun _ => Request.Idle.putKey?
  refine Run.only_bind (Run.only_ofProgram ⟨rfl, fun _ => trivial⟩) fun outcome => ?_
  cases outcome with
  | updating =>
    exact Run.only_bind (hidle (Run.idle_emit id)) fun _ =>
      Run.only_bind (hidle (idle_awaitStack ..)) fun _ => Run.only_pure _
  | noChanges => exact Run.only_bind (hidle (Run.idle_emit id)) fun _ => Run.only_pure _

/-- The second part of a deploy stores the artifacts, the template and the marker. -/
theorem storing_apply (s : Settings) (w : Waiting) (stage : Stage) {p : Prepared}
    (huploads : p.plan.uploadKeys.Nodup) (htimestamp : p.plan.record.timestamp ≠ none) :
    (apply s w stage p).Follows (storing p.bucket (InTurn p.plan.uploadKeys files))
      (fun _ keys => ∃ artifacts, artifacts.Perm p.plan.uploadKeys ∧
        keys = artifacts ++ [templateKey, markerKey]) [] := by
  obtain ⟨timestamp, htimestamp⟩ := Option.ne_none_iff_exists'.1 htimestamp
  have hkeys : (pendingUploads s.buildDir p.plan).map PendingUpload.key = p.plan.uploadKeys := by
    rw [pendingUploads, List.map_map]
    rfl
  refine .bind (Run.storing_of_idle Run.idle_checkCancelled) ?_
  rintro _ _ rfl
  have hall : (Artifacts.uploadAll p.bucket s.uploadConcurrency
      (pendingUploads s.buildDir p.plan)).Follows
      (storing p.bucket (InTurn p.plan.uploadKeys files))
      (fun _ keys => keys.Perm p.plan.uploadKeys) [] := by
    rw [← hkeys] at huploads ⊢
    exact Artifacts.storing_uploadAll huploads _
  refine .bind hall fun _ _ hartifacts => ?_
  refine .bind (Run.storing_of_idle Run.idle_checkCancelled) ?_
  rintro _ artifacts rfl
  have htemplate : (uploadTemplate p.bucket stage p.plan.tokens).Follows
      (storing p.bucket (InTurn p.plan.uploadKeys files))
      (fun _ keys => keys = artifacts ++ [templateKey]) artifacts := by
    refine .bind (Run.storing_of_idle (idle_readTemplate ..)) ?_
    rintro template artifacts rfl
    refine .bind (.bind (Run.storing_put fun _ =>
      .fixed hartifacts.subperm ⟨[markerKey], rfl⟩) ?_) (Q := fun _ keys =>
        keys = artifacts ++ [templateKey]) ?_
    · rintro _ _ rfl
      rw [if_pos rfl]
      exact Run.storing_of_idle (Artifacts.idle_url ..)
    rintro url _ rfl
    refine .bind (Run.storing_of_idle (Run.idle_emit id)) ?_
    rintro _ _ rfl
    exact Run.follows_pure rfl
  refine .bind htemplate ?_
  rintro url _ rfl
  refine .bind (Run.storing_of_quiet (quiet_updateStack w p.stack url)) ?_
  rintro updated _ rfl
  have hcommit : (Tracking.commit stage p.plan.record p.bucket).Follows
      (storing p.bucket (InTurn p.plan.uploadKeys files))
      (fun _ keys => keys = artifacts ++ [templateKey, markerKey])
      (artifacts ++ [templateKey]) := by
    refine .bind (Run.storing_of_quiet (Run.only_ofProgram ⟨rfl, fun _ => trivial⟩)) ?_
    rintro _ _ rfl
    rw [htimestamp]
    refine (Run.storing_put fun _ => ?_).mono ?_
    · rw [List.append_assoc]
      exact .fixed hartifacts.subperm (List.prefix_refl _)
    · rintro _ _ rfl
      rw [if_pos rfl, List.append_assoc]
      rfl
  refine .bind hcommit ?_
  rintro _ _ rfl
  refine .bind (Run.storing_of_quiet (Run.only_emit rfl)) ?_
  rintro _ _ rfl
  exact Run.follows_pure ⟨artifacts, hartifacts, rfl⟩

/-- A deploy that succeeds reports what it has stored. -/
theorem storing_finish (s : Settings) (w : Waiting) (options : DeployOptions) (p : Prepared)
    (a : Applied) (hkeys : InTurn uploads files keys)
    (h : ∀ u ∈ p.project.fileUploadsFor options.stage, u.bucket = bucket → files) :
    (finish s w options p a).Follows (storing bucket (InTurn uploads files))
      (fun report keys' => report.uploaded = p.plan.uploadKeys ∧
        keys' = keys ++ fileKeys bucket report.files) keys := by
  refine .bind (Run.storing_of_idle (idle_resolveExports ..)) ?_
  rintro found keys rfl
  refine .bind (storing_uploadFiles s.projectRoot found.values h hkeys) ?_
  rintro reported _ rfl
  have hcomplete (r : DeployReport) (huploaded : r.uploaded = p.plan.uploadKeys)
      (hfiles : r.files = reported) :
      (Run.emit (.completed "deploy" r.uploaded.length r.reused.length
        (r.warnings.length + r.hookFailures.length)) >>= fun _ => pure r).Follows
          (storing bucket (InTurn uploads files))
          (fun report keys' => report.uploaded = p.plan.uploadKeys ∧
            keys' = keys ++ fileKeys bucket report.files)
          (keys ++ fileKeys bucket reported) := by
    refine .bind (Run.storing_of_idle (Run.idle_emit id)) ?_
    rintro _ _ rfl
    exact Run.follows_pure ⟨huploaded, by rw [hfiles]⟩
  cases options.skipHooks with
  | true => exact hcomplete _ rfl rfl
  | false =>
    have hhooks := only_runHooks (A := fun r => r.putKey? bucket = none)
      (fun _ => Request.Idle.putKey?) (fun _ => rfl) (p.project.hooksFor options.stage)
    refine .bind (Run.storing_of_quiet (Run.only_liftProgram hhooks)) ?_
    rintro hooks _ rfl
    exact hcomplete _ rfl rfl

/-! ## Deciding -/

theorem quiet_prepare (w : Waiting) (stage : Stage) :
    (prepare w stage).Only fun r => r.putKey? bucket = none := by
  have hidle {α : Type} {p : Run α} (h : p.Only Request.Idle) :
      p.Only fun r => r.putKey? bucket = none :=
    Program.Only.mono h fun _ => Request.Idle.putKey?
  have hfingerprints (fs : List FunctionSpec) :
      (Tracking.fingerprints fs).Only fun r => r.putKey? bucket = none := by
    induction fs with
    | nil => trivial
    | cons f fs ih => exact ⟨rfl, fun _ => Program.only_bind ih fun _ => trivial⟩
  have hensure (stack : String) :
      (ensureStack w stack stage).Only fun r => r.putKey? bucket = none := by
    refine Run.only_bind (hidle (idle_readTemplate ..)) fun body =>
      Run.only_bind (Run.only_ofProgram ⟨rfl, fun _ => trivial⟩) fun outcome => ?_
    cases outcome with
    | created =>
      exact Run.only_bind (hidle (Run.idle_emit id)) fun _ =>
        Run.only_bind (hidle (idle_awaitStack ..)) fun _ => Run.only_pure _
    | alreadyExists => exact Run.only_bind (hidle (Run.idle_emit id)) fun _ => Run.only_pure _
  refine Run.only_bind (Run.only_ofProgram ⟨rfl, fun _ => trivial⟩) fun project => ?_
  refine Run.only_bind (hidle (Run.idle_emit id)) fun _ => ?_
  refine Run.only_bind (Run.only_liftProgram ⟨rfl, fun r => by cases r <;> trivial⟩) fun _ => ?_
  refine Run.only_bind (hensure _) fun _ => ?_
  refine Run.only_bind (hidle (idle_resolveBucket ..)) fun bucket' => ?_
  refine Run.only_bind (hidle (Run.idle_emit id)) fun _ => ?_
  refine Run.only_bind (hidle (Artifacts.idle_readMarker bucket')) fun marker => ?_
  refine Run.only_bind (Run.only_liftProgram
    (Program.only_bind (hfingerprints _) fun _ => trivial)) fun plan => ?_
  exact Run.only_bind (hidle (Run.idle_emit id)) fun _ => Run.only_pure _

theorem follows_fingerprints_of_free {κ : Type} {P : Protocol κ} (hfree : ∀ k r, P.allowed k r)
    (fs : List FunctionSpec) (k : κ) :
    (Tracking.fingerprints fs).Follows P (fun hashed _ => hashed.map Prod.fst = fs) k := by
  induction fs generalizing k with
  | nil => rfl
  | cons f fs ih =>
    refine ⟨hfree k _, fun hash k' _ => .bind (ih k') fun hashed _ hmap => ?_⟩
    exact congrArg (f :: ·) hmap

/-- What has been prepared is a plan for the project that was loaded. -/
theorem follows_prepare_planned {κ : Type} {P : Protocol κ} (hfree : ∀ k r, P.allowed k r)
    (w : Waiting) (stage : Stage) (k : κ) :
    (prepare w stage).Follows P (fun p _ => Planned stage (.ok p.project) p) k := by
  have hany {α : Type} (p : Run α) (k : κ) : p.Follows P (fun _ _ => True) k :=
    Run.follows_of_free hfree p k
  refine .bind (hany ..) fun project _ _ => .bind (hany ..) fun _ _ _ => ?_
  refine .bind (hany ..) fun loaded _ _ => .bind (hany ..) fun created _ _ => ?_
  refine .bind (hany ..) fun bucket _ _ => .bind (hany ..) fun _ _ _ => ?_
  refine .bind (hany ..) fun marker k' _ => ?_
  refine .bind (Run.follows_liftProgram (Program.Follows.bind
    (follows_fingerprints_of_free hfree (project.active stage) k') ?_)) (Q := fun plan _ =>
      ∃ hashed, hashed.map Prod.fst = project.active stage ∧
        plan = Redeploy.planHashed project loaded.record marker hashed) ?_
  · exact fun hashed _ hmap => ⟨hashed, hmap, rfl⟩
  rintro plan k'' ⟨hashed, hmap, hplan⟩
  exact .bind (hany ..) fun _ _ _ => Run.follows_pure ⟨rfl, rfl, _, _, hashed, hmap, hplan⟩

/-- What a deploy has stored in its bucket, and how often. -/
structure UploadsOnce (s : Settings) (stage : Stage) (p : Prepared) (keys : List String)
    (outcome : Option (Except Failure DeployReport)) : Prop where
  /-- No two uploads of the batch, whichever workers do them, have the same key. -/
  apart : (pendingUploads s.buildDir p.plan).Pairwise (·.key ≠ ·.key)
  /-- However the run ends, artifacts come first, each at most once. -/
  inTurn : InTurn p.plan.uploadKeys
    (∃ u ∈ p.project.fileUploadsFor stage, u.bucket = p.bucket) keys
  /-- A deploy that succeeds has stored every artifact, the template, the marker and its files. -/
  complete : ∀ report, outcome = some (.ok report) → report.uploaded = p.plan.uploadKeys ∧
    keys.Perm (report.uploaded ++ [templateKey, markerKey] ++ fileKeys p.bucket report.files)
  /-- So if no files go to its bucket, it stores every artifact there once. -/
  once : (∀ u ∈ p.project.fileUploadsFor stage, u.bucket ≠ p.bucket) →
    ∀ key ∈ p.plan.uploadKeys, keys.count key ≤ 1 ∧
      ∀ report, outcome = some (.ok report) → keys.count key = 1

theorem uploadsOnce_of_follows {σ : Type} (h : Handler σ) (t : σ) (s : Settings) (w : Waiting)
    (options : DeployOptions) {p : Prepared}
    (hplanned : Planned options.stage (.ok p.project) p) (hkeys : p.plan.uploadKeys.Nodup) :
    UploadsOnce s options.stage p ((proceed s w options p).puts p.bucket h t)
      ((proceed s w options p).outcome h t).1 := by
  have htimestamp : p.plan.record.timestamp ≠ none := by simp [hplanned.record_spec.2.1]
  have hfollows : (proceed s w options p).Follows (storing p.bucket (InTurn p.plan.uploadKeys
      (∃ u ∈ p.project.fileUploadsFor options.stage, u.bucket = p.bucket)))
      (fun report keys => report.uploaded = p.plan.uploadKeys ∧ ∃ artifacts,
        artifacts.Perm p.plan.uploadKeys ∧ keys = artifacts ++ [templateKey, markerKey] ++
          fileKeys p.bucket report.files) [] := by
    refine .bind (storing_apply s w options.stage hkeys htimestamp) ?_
    rintro a _ ⟨artifacts, hartifacts, rfl⟩
    refine (storing_finish s w options p a (.fixed hartifacts.subperm (List.prefix_refl _))
      fun u hu hb => ⟨u, hu, hb⟩).mono ?_
    rintro report keys ⟨huploaded, rfl⟩
    exact ⟨huploaded, artifacts, hartifacts, rfl⟩
  obtain ⟨hinTurn, hend⟩ := Program.Follows.puts hfollows
    (.artifacts (List.nil_subperm)) h t
  rw [List.nil_append] at hinTurn hend
  have hfixed : ∀ key ∈ p.plan.uploadKeys, key ∉ [templateKey, markerKey] := by
    obtain ⟨_, _, _, -, hplan⟩ := hplanned.plan
    rw [hplan]
    exact fun key => Redeploy.not_mem_uploadKeys
  have hmost (hnone : ∀ u ∈ p.project.fileUploadsFor options.stage, u.bucket ≠ p.bucket)
      (key : String) (hkey : key ∈ p.plan.uploadKeys) :
      ((proceed s w options p).puts p.bucket h t).count key ≤ 1 := by
    obtain ⟨artifacts, fixed, more, hputs, hartifacts, hbegins, hmore⟩ := hinTurn
    have hnil : more = [] := by
      by_contra hne
      obtain ⟨u, hu, hb⟩ := hmore hne
      exact hnone u hu hb
    have hnot : key ∉ fixed := fun hmem => hfixed key hkey (hbegins.subset hmem)
    rw [Run.puts, hputs, hnil, List.append_nil, List.count_append,
      List.count_eq_zero_of_not_mem hnot]
    exact Nat.le_trans (hartifacts.count_le key) (List.nodup_iff_count_le_one.1 hkeys key)
  refine ⟨?_, hinTurn, ?_, fun hnone key hkey => ⟨hmost hnone key hkey, ?_⟩⟩
  · refine List.pairwise_map.1 ?_
    rw [pendingUploads, List.map_map]
    exact hkeys
  · intro report hreport
    obtain ⟨huploaded, artifacts, hartifacts, hputs⟩ := hend _ hreport report rfl
    refine ⟨huploaded, ?_⟩
    rw [huploaded, Run.puts, hputs]
    exact (hartifacts.append_right _).append_right _
  · intro report hreport
    obtain ⟨-, artifacts, hartifacts, hputs⟩ := hend _ hreport report rfl
    refine Nat.le_antisymm (hmost hnone key hkey) (List.count_pos_iff.2 ?_)
    rw [Run.puts, hputs, List.append_assoc]
    exact List.mem_append_left _ (hartifacts.mem_iff.2 hkey)

/-- A deploy that has prepared so much. -/
theorem uploadsOnce_of_prepared {σ : Type} (h : Handler σ) {t t' : σ} (s : Settings)
    (patience : Nat) (options : DeployOptions) {p : Prepared}
    (hprepared : (prepare (s.waiting patience) options.stage).outcome h t = (some (.ok p), t'))
    (hvalid : p.project.fault? = none)
    (hartifacts : p.project.assemble = true →
      (p.plan.toDeploy.map FunctionSpec.artifact).Nodup) :
    UploadsOnce s options.stage p ((deploy s patience options).puts p.bucket h t)
      ((deploy s patience options).outcome h t).1 := by
  have hplanned : Planned options.stage (.ok p.project) p := by
    obtain ⟨-, -, -, hend⟩ := Run.Follows.run (h := h) (s := t) (I := fun _ _ => True)
      (P := ⟨fun _ _ => True, fun (_ : Unit) _ _ _ => True⟩)
      (fun _ _ _ _ _ => ⟨(), trivial, trivial⟩)
      (follows_prepare_planned (fun _ _ => trivial) (s.waiting patience) options.stage ()) trivial
    exact hend p (by rw [hprepared])
  have hkeys : p.plan.uploadKeys.Nodup := by
    obtain ⟨previous, marker, hashed, -, hplan⟩ := hplanned.plan
    rw [hplan] at hartifacts ⊢
    exact (Redeploy.nodup_uploadKeys hvalid ..).2 hartifacts
  obtain ⟨hputs, houtcome⟩ := Run.puts_bind p.bucket (f := proceed s (s.waiting patience) options)
    hprepared
  rw [deploy_eq_proceed, hputs, houtcome, Run.puts,
    Program.Only.puts_eq_nil (quiet_prepare ..), List.nil_append]
  exact uploadsOnce_of_follows h t' s _ options hplanned hkeys

/-- Each artifact is uploaded once. The keys of a plan are different if the functions to deploy
have different artifacts, or share one by the mode of the project; then a deploy, in whatever world
it runs, stores each of them once. -/
theorem artifacts_uploaded_once {project : Project} (hvalid : project.fault? = none) :
    (∀ stage previous marker hasher,
      ((Redeploy.plan project stage previous marker hasher).uploadKeys.Nodup ↔
        (project.assemble = true →
          ((Redeploy.plan project stage previous marker hasher).toDeploy.map
            FunctionSpec.artifact).Nodup))) ∧
    ∀ {σ : Type} (h : Handler σ) (t t' : σ) (s : Settings) (patience : Nat)
      (options : DeployOptions) (p : Prepared),
      (prepare (s.waiting patience) options.stage).outcome h t = (some (.ok p), t') →
      p.project = project →
      (project.assemble = true → (p.plan.toDeploy.map FunctionSpec.artifact).Nodup) →
        UploadsOnce s options.stage p ((deploy s patience options).puts p.bucket h t)
          ((deploy s patience options).outcome h t).1 := by
  refine ⟨fun _ previous marker _ => Redeploy.nodup_uploadKeys hvalid previous marker _, ?_⟩
  rintro _ h t t' s patience options p hprepared rfl hartifacts
  exact uploadsOnce_of_prepared h s patience options hprepared hvalid hartifacts

namespace Sample

/-- A first deploy of two functions with artifacts of their own, up to the decision. -/
def preparing : Run Prepared :=
  prepare ((Fleet.Sample.runner false false).settings.waiting 10) .dev

theorem prepared : ((preparing.outcome (Fleet.Sample.world false false) .empty).1.any fun r =>
    r.toOption.any fun p => p.bucket = "releases" && p.project.fault? = none &&
      (p.plan.toDeploy.map FunctionSpec.artifact = ["cart.zip", "pay.zip"] &&
        (p.plan.uploadKeys.contains "t1/cart.zip" &&
          (p.project.fileUploadsFor .dev).isEmpty))) = true := by
  decide +kernel

end Sample

/-- The deploy of the sample succeeds and stores the artifact of the cart once. -/
theorem artifacts_uploaded_once_sample :
    (Redeploy.plan Redeploy.Sample.project .dev .empty none Redeploy.Sample.hashes).uploadKeys.Nodup ∧
      ((deploy (Fleet.Sample.runner false false).settings 10 ⟨.dev, true⟩).puts "releases"
        (Fleet.Sample.world false false) .empty).count "t1/cart.zip" = 1 := by
  have hproject : Redeploy.Sample.project.fault? = none := by decide
  refine ⟨((artifacts_uploaded_once hproject).1 .dev .empty none Redeploy.Sample.hashes).2
    fun _ => by decide, ?_⟩
  obtain ⟨r, hr, hp⟩ := (Option.any_eq_true ..).1 Sample.prepared
  obtain ⟨r', hdeployed, hok⟩ := (Option.any_eq_true ..).1 Fleet.Sample.first_run
  cases r with
  | error e => cases hp
  | ok p =>
    cases r' with
    | error e => cases hok
    | ok report =>
      simp only [Except.toOption, Option.any_some, Bool.and_eq_true, decide_eq_true_eq] at hp
      obtain ⟨⟨hbucket, hvalid⟩, hartifacts, hkey, hfiles⟩ := hp
      have honce := (artifacts_uploaded_once hvalid).2 (Fleet.Sample.world false false) .empty _
        (Fleet.Sample.runner false false).settings 10 ⟨.dev, true⟩ p (Prod.ext hr rfl) rfl
        fun _ => by rw [hartifacts]; decide
      rw [hbucket] at honce
      refine (honce.once ?_ _ (List.contains_iff_mem.1 hkey)).2 report hdeployed
      rw [List.isEmpty_iff.1 hfiles]
      rintro _ ⟨⟩

end Deploy

namespace Redeploy

/-- A valid project that gives one artifact to two functions. -/
def Sample.oneArtifact : Project :=
  { Sample.project with functions :=
      [{ Sample.function "cart" ["dev"] with artifact := "shop.zip" },
        { Sample.function "pay" ["dev"] with artifact := "shop.zip" }] }

/-- Its plan has the one key twice. -/
theorem uploads_repeated :
    Sample.oneArtifact.fault? = none ∧
      (plan Sample.oneArtifact .dev .empty none Sample.hashes).uploadKeys =
        ["t2/shop.zip", "t2/shop.zip"] :=
  ⟨by decide, by decide⟩

end Redeploy

end Rollout
