import Mathlib.Logic.Function.Basic
import Rollout.Proofs.Outcome
import Rollout.Proofs.Redeploy.Decision
import Rollout.Proofs.Run.Batch

/-!
Many runs at once. Machines with a record each deploy compilations of one project to one stage:
they share a deployment bucket, and their requests come in any order. A run may stop anywhere,
which is to make no more requests, and more runs may begin at any time, also on the same machine.

What is shared is answered as a cloud and a disk answer: an object that is asked for is the one
stored last, a record the one saved last, and a request that changes something may be answered by
an error though it has happened, or not have happened. What a machine shows of a compilation is
that compilation's alone.
-/

namespace Rollout

/-- A project that was loaded has no fault. -/
theorem ProjectFiles.fault?_of_load {d : ProjectFiles} {t : FileTree} {p : Project}
    (h : d.load t = .ok p) : p.fault? = none := by
  obtain ⟨text, -, h⟩ := Outcome.bind_eq_ok.1 h
  split at h
  · cases h
  · split at h
    · cases h
    · rename_i hfault
      cases h
      exact hfault

/-- A compilation: the project it describes, the bytes of its artifacts and the fingerprints of
its functions. -/
structure Compilation where
  project : Project
  artifact : String → ByteArray
  fingerprint : FunctionSpec → Except HashError ContentHash

/-- The compilations that are deployed to a stage, and the deployment bucket of the stage. -/
structure Fleet (ι : Type) where
  stage : Stage
  bucket : String
  compilation : ι → Compilation
  /-- Only what has no fault can be loaded. -/
  valid : ∀ i, (compilation i).project.fault? = none
  /-- A timestamp tells a compilation from every other, -/
  distinct : ∀ i j, (compilation i).project.timestamp = (compilation j).project.timestamp → i = j
  /-- and has no slash. -/
  noSlash : ∀ i, '/' ∉ (compilation i).project.timestamp.toList

/-- What runs share: the current objects of the deployment bucket, and the record of the stage on
each machine. -/
structure Shared (μ : Type) where
  objects : String → Option ByteArray
  records : μ → Record

namespace Shared

variable {μ : Type}

/-- Nothing is stored and nothing recorded. -/
def empty : Shared μ := ⟨fun _ => none, fun _ => .empty⟩

/-- An object stored. -/
def put (s : Shared μ) (key : String) (body : ByteArray) : Shared μ :=
  { s with objects := Function.update s.objects key (some body) }

@[simp] theorem put_objects (s : Shared μ) (key : String) (body : ByteArray) :
    (s.put key body).objects = Function.update s.objects key (some body) := rfl

@[simp] theorem put_records (s : Shared μ) (key : String) (body : ByteArray) :
    (s.put key body).records = s.records := rfl

/-- Whether nothing is stored. -/
def Bare (s : Shared μ) : Prop := ∀ key, s.objects key = none

/-- All objects taken away. -/
def cleared (s : Shared μ) : Shared μ := { s with objects := fun _ => none }

theorem bare_cleared (s : Shared μ) : s.cleared.Bare := fun _ => rfl

@[simp] theorem cleared_records (s : Shared μ) : s.cleared.records = s.records := rfl

variable [DecidableEq μ]

/-- The record of a machine saved. -/
def save (s : Shared μ) (m : μ) (r : Record) : Shared μ :=
  { s with records := Function.update s.records m r }

@[simp] theorem save_objects (s : Shared μ) (m : μ) (r : Record) :
    (s.save m r).objects = s.objects := rfl

@[simp] theorem save_records (s : Shared μ) (m : μ) (r : Record) :
    (s.save m r).records = Function.update s.records m r := rfl

end Shared

/-- A run's place: the machine it is on, the compilation it deploys and its settings. -/
structure Post (ι μ : Type) where
  machine : μ
  compilation : ι
  settings : Settings

/-- A request that takes something away. -/
def Request.Takes : Request → Prop
  | store (.delete ..) => True
  | store (.deleteVersion ..) => True
  | store (.deleteBucket _) => True
  | record (.delete _) => True
  | _ => False

namespace Deploy

/-- A deploy once it has decided what to do. -/
def proceed (s : Settings) (w : Waiting) (options : DeployOptions) (p : Prepared) :
    Run DeployReport := do
  let applied ← apply s w options.stage p
  finish s w options p applied

/-- A deploy decides and then proceeds. -/
theorem deploy_eq_proceed (s : Settings) (patience : Nat) (options : DeployOptions) :
    deploy s patience options =
      prepare (s.waiting patience) options.stage >>= proceed s (s.waiting patience) options := rfl

end Deploy

namespace Fleet

variable {ι μ : Type} [DecidableEq μ]

/-- The key of an artifact of a compilation. -/
def key (F : Fleet ι) (i : ι) (artifact : String) : String :=
  (FunctionVersion.mint (F.compilation i).project.timestamp artifact).key

/-- Whether a key is that of no artifact. -/
def Aside (F : Fleet ι) (key : String) : Prop := ∀ i artifact, key ≠ F.key i artifact

/-- Whether the bucket has no objects if the store says that there is no such bucket. -/
def EmptyIfMissing (F : Fleet ι) {α : Type} (bucket : String) (s : Shared μ)
    (a : Except StoreError α) : Prop :=
  ∀ b, a = .error (.noSuchBucket b) → bucket = F.bucket → s.Bare

/-- What taking a version of a key away may come to: another is current, or none. -/
def Alters (F : Fleet ι) (bucket key : String) (s s' : Shared μ) : Prop :=
  s' = s ∨ bucket = F.bucket ∧
    ∃ found, s' = { s with objects := Function.update s.objects key found }

/-- How a request of a run is answered, and what becomes of what is shared. -/
def Answers (F : Fleet ι) (post : Post ι μ) : (r : Request) → Shared μ → r.Answer → Shared μ → Prop
  | .store (.put bucket key body), s, a, s' =>
    (s' = s ∧ (a = .ok () → bucket ≠ F.bucket)) ∨ (bucket = F.bucket ∧ s' = s.put key body)
  | .store (.get bucket key), s, a, s' =>
    s' = s ∧ ∀ found, a = .ok found → bucket = F.bucket → found = s.objects key
  | .store (.listObjects bucket _), s, a, s' => s' = s ∧ F.EmptyIfMissing bucket s a
  | .store (.listVersions bucket _), s, a, s' => s' = s ∧ F.EmptyIfMissing bucket s a
  | .store (.delete bucket key), s, a, s' =>
    F.Alters bucket key s s' ∧ F.EmptyIfMissing bucket s' a
  | .store (.deleteVersion bucket key _), s, a, s' =>
    F.Alters bucket key s s' ∧ F.EmptyIfMissing bucket s' a
  | .store (.deleteBucket bucket), s, a, s' =>
    ((s' = s ∧ (a = .ok () → bucket ≠ F.bucket)) ∨ (bucket = F.bucket ∧ s' = s.cleared)) ∧
      F.EmptyIfMissing bucket s' a
  | .record (.load stage), s, a, s' =>
    s' = s ∧ ∀ r, a = .ok r → stage = F.stage → r = s.records post.machine
  | .record (.save stage r), s, a, s' =>
    (s' = s ∧ (a = .ok () → stage ≠ F.stage)) ∨ (stage = F.stage ∧ s' = s.save post.machine r)
  | .record (.delete stage), s, a, s' =>
    (s' = s ∧ (a = .ok () → stage ≠ F.stage)) ∨
      (stage = F.stage ∧ s' = s.save post.machine .empty)
  | .stack (.listExports _), s, a, s' =>
    s' = s ∧ ∀ page, a = .ok page → ∀ e ∈ page.exports,
      e.name = bucketExport (F.stage.stackName (F.compilation post.compilation).project.name) →
        e.value = F.bucket
  | .onMachine .project, s, a, s' =>
    s' = s ∧ ∀ p, a = .ok p → p = (F.compilation post.compilation).project
  | .onMachine (.fingerprint f), s, a, s' =>
    s' = s ∧ a = (F.compilation post.compilation).fingerprint f
  | .onMachine (.read path), s, a, s' =>
    s' = s ∧ ∀ artifact body, path = post.settings.buildDir.joinText artifact → a = .ok body →
      body = (F.compilation post.compilation).artifact artifact
  | .onMachine (.source path), s, a, s' =>
    -- no file that is uploaded beside the artifacts goes where an artifact goes
    s' = s ∧ ∀ u ∈ (F.compilation post.compilation).project.fileUploadsFor F.stage,
      u.bucket = F.bucket → path = post.settings.projectRoot.join u.source →
        ∀ found us, a = .ok found →
          Artifacts.pendingUploads path (Artifacts.trimTarget u.target) found = .ok us →
            ∀ v ∈ us, F.Aside v.key
  | _, s, _, s' => s' = s

/-! ## Runs side by side -/

/-- Where a run stands: it has yet to decide, or it goes about what it has decided. -/
inductive Phase where
  | deciding (rest : Program (Except Failure Deploy.Prepared))
  | decided (p : Deploy.Prepared) (rest : Program (Except Failure DeployReport))

/-- A run. -/
structure Party (ι μ : Type) where
  post : Post ι μ
  patience : Nat
  skipHooks : Bool
  phase : Phase

/-- What a run is asked to do. -/
def Party.options (F : Fleet ι) (party : Party ι μ) : DeployOptions := ⟨F.stage, party.skipHooks⟩

/-- How a run waits. -/
def Party.waiting (party : Party ι μ) : Waiting := party.post.settings.waiting party.patience

/-- A run that begins. -/
def begin (F : Fleet ι) (post : Post ι μ) (patience : Nat) (skipHooks : Bool) : Party ι μ :=
  ⟨post, patience, skipHooks,
    .deciding (Deploy.prepare (post.settings.waiting patience) F.stage).run⟩

/-- One step of a run: a request and its answer, or the decision. -/
inductive Moves (F : Fleet ι) (party : Party ι μ) : Shared μ → Phase → Shared μ → Prop where
  | deciding {r : Request} {next : r.Answer → Program (Except Failure Deploy.Prepared)}
      {a : r.Answer} {s s' : Shared μ} :
    party.phase = .deciding (.ask r next) → F.Answers party.post r s a s' →
      Moves F party s (.deciding (next a)) s'
  | decide {p : Deploy.Prepared} {s : Shared μ} :
    party.phase = .deciding (.done (.ok p)) →
      Moves F party s (.decided p
        (Deploy.proceed party.post.settings party.waiting (party.options F) p).run) s
  | decided {p : Deploy.Prepared} {r : Request}
      {next : r.Answer → Program (Except Failure DeployReport)} {a : r.Answer} {s s' : Shared μ} :
    party.phase = .decided p (.ask r next) → F.Answers party.post r s a s' →
      Moves F party s (.decided p (next a)) s'

/-- What is shared, and the runs that have begun. -/
structure System (ι μ : Type) where
  shared : Shared μ
  parties : List (Party ι μ)

/-- What runs of a fleet lead to, whatever the order of their requests. -/
inductive Reached (F : Fleet ι) : System ι μ → Prop where
  | start : Reached F ⟨Shared.empty, []⟩
  | join {s : Shared μ} {parties : List (Party ι μ)} (post : Post ι μ) (patience : Nat)
      (skipHooks : Bool) :
    Reached F ⟨s, parties⟩ → Reached F ⟨s, F.begin post patience skipHooks :: parties⟩
  | move {s s' : Shared μ} {before after : List (Party ι μ)} {party : Party ι μ} {phase : Phase} :
    Reached F ⟨s, before ++ party :: after⟩ → F.Moves party s phase s' →
      Reached F ⟨s', before ++ { party with phase } :: after⟩

/-! ## Runs that nothing comes between -/

/-- Whether a world answers a run as a fleet answers it. -/
def Hosts (F : Fleet ι) (post : Post ι μ) (h : Handler (Shared μ)) : Prop :=
  ∀ r s, F.Answers post r s (h.answer r s).1 (h.answer r s).2

variable {F : Fleet ι} {h : Handler (Shared μ)} {s s' : Shared μ}

theorem Reached.deciding (before after : List (Party ι μ)) (party : Party ι μ)
    {rest : Program (Except Failure Deploy.Prepared)} {r : Except Failure Deploy.Prepared}
    (hosts : F.Hosts party.post h)
    (hS : Reached F ⟨s, before ++ { party with phase := .deciding rest } :: after⟩)
    (hrun : rest.run h s = (some r, s')) :
    Reached F ⟨s', before ++ { party with phase := .deciding (.done r) } :: after⟩ := by
  induction rest generalizing s with
  | done a =>
    cases hrun
    exact hS
  | ask request next ih => exact ih _ (hS.move (.deciding rfl (hosts request s))) hrun
  | unfinished => cases hrun

theorem Reached.decided (before after : List (Party ι μ)) (party : Party ι μ)
    {p : Deploy.Prepared} {rest : Program (Except Failure DeployReport)}
    {r : Except Failure DeployReport} (hosts : F.Hosts party.post h)
    (hS : Reached F ⟨s, before ++ { party with phase := .decided p rest } :: after⟩)
    (hrun : rest.run h s = (some r, s')) :
    Reached F ⟨s', before ++ { party with phase := .decided p (.done r) } :: after⟩ := by
  induction rest generalizing s with
  | done a =>
    cases hrun
    exact hS
  | ask request next ih => exact ih _ (hS.move (.decided rfl (hosts request s))) hrun
  | unfinished => cases hrun

variable {post : Post ι μ} {patience : Nat} {skipHooks : Bool} {parties : List (Party ι μ)}

/-- A run that begins and comes to its decision. -/
theorem Reached.prepare {p : Deploy.Prepared} (hosts : F.Hosts post h)
    (hS : Reached F ⟨s, parties⟩)
    (hrun : (Deploy.prepare (post.settings.waiting patience) F.stage).outcome h s =
      (some (.ok p), s')) :
    Reached F ⟨s', ⟨post, patience, skipHooks, .decided p (Deploy.proceed post.settings
      (post.settings.waiting patience) ⟨F.stage, skipHooks⟩ p).run⟩ :: parties⟩ := by
  have hdone := (hS.join post patience skipHooks).deciding [] parties
    (F.begin post patience skipHooks) hosts hrun
  show Reached F ⟨s', [] ++ _ :: parties⟩
  exact hdone.move (.decide rfl)

/-- A run that begins and comes to its end. -/
theorem Reached.deploy {report : DeployReport} (hosts : F.Hosts post h)
    (hS : Reached F ⟨s, parties⟩)
    (hrun : (deploy post.settings patience ⟨F.stage, skipHooks⟩).outcome h s =
      (some (.ok report), s')) :
    ∃ party, Reached F ⟨s', party :: parties⟩ := by
  rw [Deploy.deploy_eq_proceed] at hrun
  rcases Run.bind_cases h _ _ s with ⟨p, t, hprepare, -, hend⟩ | ⟨-, -, -, hnone⟩
  · rw [hend] at hrun
    exact ⟨_, Reached.decided [] parties (F.begin post patience skipHooks) hosts
      (hS.prepare hosts hprepare) hrun⟩
  · exact absurd (congrArg Prod.fst hrun) (hnone report)

/-! ## A small fleet -/

namespace Sample

/-- A function of the sample project. -/
def function (entryPoint : String) : FunctionSpec :=
  ⟨entryPoint, entryPoint ++ ".zip", ["dev"], entryPoint ++ "-version", []⟩

/-- The cart stays as it is from one compilation to the next, the payment function does not. -/
def compilation (again : Bool) : Compilation where
  project := ⟨"shop", if again then "t2" else "t1", [function "cart", function "pay"], [], [], [],
    true, none⟩
  artifact _ := (if again then "second" else "first").toUTF8
  fingerprint f := .ok (.ofText (if again && f.entryPoint = "pay" then "changed" else "built"))

/-- Two compilations of the sample project. -/
def fleet : Fleet Bool where
  stage := .dev
  bucket := "releases"
  compilation := compilation
  valid := by decide
  distinct := by decide
  noSlash := by decide

/-- A run on one of two machines. -/
def runner (machine again : Bool) : Post Bool Bool :=
  ⟨machine, again, ⟨⟨["."]⟩, .dev, ⟨["build"]⟩, ⟨["build"]⟩, ⟨["state"]⟩, 2, .standard, .standard⟩⟩

/-- A cloud that does everything it is asked to. The stack is there and has nothing to update;
nothing is listed, and a bucket is deleted with all that is in it. -/
def world (machine again : Bool) : Handler (Shared Bool) where
  answer
    | .store (.put bucket key body), s =>
      if bucket = "releases" then (.ok (), s.put key body) else (.error (.noSuchBucket bucket), s)
    | .store (.get bucket key), s =>
      if bucket = "releases" then (.ok (s.objects key), s) else (.error (.noSuchBucket bucket), s)
    | .store (.url _ key), s => (.ok key, s)
    | .store (.listObjects ..), s => (.ok ⟨[], none⟩, s)
    | .store (.listVersions ..), s => (.ok ⟨[], none⟩, s)
    | .store (.deleteBucket bucket), s =>
      if bucket = "releases" then (.ok (), s.cleared) else (.error (.noSuchBucket bucket), s)
    | .store _, s => (.error (.service "not offered"), s)
    | .stack (.create ..), s => (.ok .alreadyExists, s)
    | .stack (.update ..), s => (.ok .noChanges, s)
    | .stack (.listExports _), s => (.ok ⟨[⟨"shop-dev-DeploymentBucketName", "releases"⟩], none⟩, s)
    | .stack (.status _), s => (.ok .updateComplete, s)
    | .stack (.delete _), s => (.ok (), s)
    | .hook _, s => (.answered (.ok ()), s)
    | .record (.load stage), s => (if stage = .dev then .ok (s.records machine) else .ok .empty, s)
    | .record (.save stage r), s => if stage = .dev then (.ok (), s.save machine r) else (.ok (), s)
    | .record (.delete stage), s =>
      if stage = .dev then (.ok (), s.save machine .empty) else (.ok (), s)
    | .onMachine .project, s => (.ok (compilation again).project, s)
    | .onMachine (.template ..), s => (.ok "", s)
    | .onMachine (.fingerprint f), s => ((compilation again).fingerprint f, s)
    | .onMachine (.read p), s => (.ok ((compilation again).artifact p.text), s)
    | .onMachine (.source _), s => (.ok .missing, s)
    | .control .isCancelled, s => (false, s)
    | .control .now, s => (0, s)
    | .control (.sleep _), s => ((), s)
    | .control (.emit _), s => ((), s)
    | .control (.schedule jobs _), s => (.inOrder jobs, s)

theorem hosts (machine again : Bool) :
    fleet.Hosts (runner machine again) (world machine again) := by
  intro r s
  cases r with
  | store c =>
    cases c with
    | put bucket key body =>
      by_cases hbucket : bucket = "releases"
      · exact .inr ⟨hbucket, by simp [world, hbucket]⟩
      · exact .inl ⟨by simp [world, hbucket], fun _ => hbucket⟩
    | get bucket key =>
      by_cases hbucket : bucket = "releases"
      · simp [world, hbucket, Answers]
      · simp [world, hbucket, Answers]
    | url bucket key => rfl
    | listObjects bucket token => exact ⟨rfl, by simp [world, EmptyIfMissing]⟩
    | listVersions bucket cursor => exact ⟨rfl, by simp [world, EmptyIfMissing]⟩
    | delete bucket key => exact ⟨.inl rfl, by simp [world, EmptyIfMissing]⟩
    | deleteVersion bucket key id => exact ⟨.inl rfl, by simp [world, EmptyIfMissing]⟩
    | deleteBucket bucket =>
      by_cases hbucket : bucket = "releases"
      · exact ⟨.inr ⟨hbucket, by simp [world, hbucket]⟩, by simp [world, hbucket, EmptyIfMissing]⟩
      · exact ⟨.inl ⟨by simp [world, hbucket], fun _ => hbucket⟩, fun _ _ heq => absurd heq hbucket⟩
  | stack c =>
    cases c with
    | listExports token =>
      refine ⟨rfl, ?_⟩
      rintro page ⟨⟩ e he -
      rw [List.mem_singleton.1 he]
      rfl
    | _ => rfl
  | hook name => rfl
  | record c =>
    cases c with
    | load stage =>
      by_cases hstage : stage = .dev
      · simp [world, hstage, Answers, runner]
      · simp [world, hstage, Answers, fleet]
    | save stage r =>
      by_cases hstage : stage = .dev
      · exact .inr ⟨hstage, by simp [world, hstage, runner]⟩
      · exact .inl ⟨by simp [world, hstage], fun _ => hstage⟩
    | delete stage =>
      by_cases hstage : stage = .dev
      · exact .inr ⟨hstage, by simp [world, hstage, runner]⟩
      · exact .inl ⟨by simp [world, hstage], fun _ => hstage⟩
  | onMachine c =>
    cases c with
    | project => exact ⟨rfl, fun p hp => (Except.ok.inj hp).symm⟩
    | template kind stage => rfl
    | fingerprint f => exact ⟨rfl, rfl⟩
    | read path => exact ⟨rfl, fun _ _ _ hbody => (Except.ok.inj hbody).symm⟩
    | source path =>
      refine ⟨rfl, fun u hu => ?_⟩
      cases hu
  | control c => cases c <;> rfl

/-- A deploy of one of the compilations. -/
def deployed (again : Bool) : Run DeployReport :=
  deploy (runner false again).settings 10 ⟨.dev, true⟩

/-- What a deploy of the second compilation does first. -/
def prepared : Run Deploy.Prepared := Deploy.prepare ((runner false true).settings.waiting 10) .dev

end Sample

end Fleet

end Rollout
