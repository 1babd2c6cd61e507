import Rollout.Proofs.Run.Commit
import Rollout.Proofs.Run.Uploads

/-!
Runs by what they were told: the requests of a run that came to its end, each with its answer. The
answers may come from any world, also one that others change in between, so what is shown of the
exchanges of a run holds however it is set among other runs.

A deploy that succeeds stores its template once, then updates its stack once, and publishes its
marker once, and beside this it leaves all three alone.
-/

namespace Rollout

/-- Where one element of a list stands out, there is one way to cut the list there. -/
theorem eq_of_append_cons_eq {α : Type} {P : α → Prop} {l₁ l₂ r₁ r₂ : List α} {a b : α}
    (h : l₁ ++ a :: l₂ = r₁ ++ b :: r₂) (ha : P a) (hr₁ : ∀ x ∈ r₁, ¬P x) (hr₂ : ∀ x ∈ r₂, ¬P x) :
    l₁ = r₁ ∧ a = b ∧ l₂ = r₂ := by
  induction l₁ generalizing r₁ with
  | nil =>
    cases r₁ with
    | nil =>
      cases h
      exact ⟨rfl, rfl, rfl⟩
    | cons c r₁ =>
      cases h
      exact absurd ha (hr₁ _ List.mem_cons_self)
  | cons c l₁ ih =>
    cases r₁ with
    | nil =>
      cases h
      exact absurd ha (hr₂ _ (List.mem_append_right _ List.mem_cons_self))
    | cons d r₁ =>
      obtain ⟨rfl, hrest⟩ := List.cons.inj h
      obtain ⟨rfl, hab⟩ := ih hrest fun x hx => hr₁ x (List.mem_cons_of_mem _ hx)
      exact ⟨rfl, hab⟩

/-- A request, with the answer that was given to it. -/
structure Exchange where
  request : Request
  answer : request.Answer

namespace Program

variable {α β κ : Type} {p : Program α} {es : List Exchange} {a : α}

/-- What a program has been told when it comes to its end. -/
inductive Exchanges : Program α → List Exchange → α → Prop
  | done (a : α) : Exchanges (.done a) [] a
  | ask {r : Request} {next : r.Answer → Program α} {es : List Exchange} {b : α} (a : r.Answer)
      (h : Exchanges (next a) es b) : Exchanges (.ask r next) (⟨r, a⟩ :: es) b

theorem Exchanges.bind {f : α → Program β} {b : β} (h : (p.bind f).Exchanges es b) :
    ∃ es₁ a es₂, es = es₁ ++ es₂ ∧ p.Exchanges es₁ a ∧ (f a).Exchanges es₂ b := by
  induction p generalizing es with
  | done a => exact ⟨[], a, es, rfl, .done a, h⟩
  | ask r next ih =>
    cases h with
    | ask answer h =>
      obtain ⟨es₁, a, es₂, rfl, hp, hf⟩ := ih answer h
      exact ⟨⟨r, answer⟩ :: es₁, a, es₂, rfl, .ask answer hp, hf⟩
  | unfinished => cases h

theorem Exchanges.request {r : Request} {answer : r.Answer}
    (h : (Program.request r).Exchanges es answer) : es = [⟨r, answer⟩] := by
  cases h with
  | ask answer h =>
    cases h
    rfl

theorem Only.exchanges {A : Request → Prop} (hp : p.Only A) (h : p.Exchanges es a) :
    ∀ e ∈ es, A e.request := by
  induction h with
  | done a => exact nofun
  | ask answer _ ih => exact List.forall_mem_cons.2 ⟨hp.1, ih (hp.2 answer)⟩

/-- A program that keeps to a protocol which forbids nothing and tells nothing apart. -/
theorem Follows.exchanges {P : Protocol κ} {Q : α → κ → Prop} {k : κ}
    (hafter : ∀ r a, P.after k r a k) (hp : p.Follows P Q k) (h : p.Exchanges es a) : Q a k := by
  induction h with
  | done a => exact hp
  | ask answer _ ih => exact ih (hp.2 _ _ (hafter _ _))

end Program

/-- The keys under which objects were stored in a bucket, one after the other. -/
def keysPut (bucket : String) (es : List Exchange) : List String :=
  es.filterMap fun e => e.request.putKey? bucket

theorem mem_keysPut {bucket key : String} {es : List Exchange} :
    key ∈ keysPut bucket es ↔ ∃ e ∈ es, e.request.putKey? bucket = some key := List.mem_filterMap

theorem Program.Follows.keysPut {α : Type} {bucket : String} {A : List String → Prop}
    {Q : α → List String → Prop} {p : Program α} {keys : List String} {es : List Exchange} {a : α}
    (hp : p.Follows (storing bucket A) Q keys) (h : p.Exchanges es a) :
    Q a (keys ++ Rollout.keysPut bucket es) := by
  induction h generalizing keys with
  | done a => rwa [Rollout.keysPut, List.filterMap_nil, List.append_nil]
  | @ask r _ es _ answer _ ih =>
    have hkeys : Rollout.keysPut bucket (⟨r, answer⟩ :: es) =
        (r.putKey? bucket).toList ++ Rollout.keysPut bucket es := by
      rw [Rollout.keysPut, List.filterMap_cons]
      cases r.putKey? bucket with
      | none => rfl
      | some key => rfl
    rw [hkeys, ← List.append_assoc]
    exact ih (hp.2 _ _ rfl)

namespace Run

variable {α β : Type} {p : Run α} {es : List Exchange} {a : α}

/-- What a run has been told when it succeeds. -/
def Exchanges (p : Run α) (es : List Exchange) (a : α) : Prop :=
  Program.Exchanges p.run es (.ok a)

/-- With these exchanges a run came to a value, and may have gone on from there. -/
def Reaches (p : Run α) (es : List Exchange) (a : α) : Prop :=
  ∃ es₁, es₁ <+: es ∧ p.Exchanges es₁ a

theorem Exchanges.bind {f : α → Run β} {b : β} (h : (p >>= f).Exchanges es b) :
    ∃ es₁ a es₂, es = es₁ ++ es₂ ∧ p.Exchanges es₁ a ∧ (f a).Exchanges es₂ b := by
  obtain ⟨es₁, r, es₂, rfl, hp, hf⟩ := Program.Exchanges.bind h
  cases r with
  | ok a => exact ⟨es₁, a, es₂, rfl, hp, hf⟩
  | error e => cases hf

theorem Exchanges.pure {b : α} (h : (Pure.pure b : Run α).Exchanges es a) : es = [] ∧ a = b := by
  cases h
  exact ⟨rfl, rfl⟩

theorem Exchanges.ofProgram {ε : Type} {toFailure : ε → Failure} {q : Program (Except ε α)}
    (h : (Run.ofProgram toFailure q).Exchanges es a) : q.Exchanges es (.ok a) := by
  obtain ⟨es₁, r, es₂, rfl, hq, hf⟩ := Program.Exchanges.bind h
  cases r with
  | ok a =>
    cases hf
    rwa [List.append_nil]
  | error e => cases hf

theorem Exchanges.store {c : StoreCall} {toFailure : StoreError → Failure} {a : c.Result}
    (h : (Run.store c toFailure).Exchanges es a) : es = [⟨.store c, .ok a⟩] :=
  h.ofProgram.request

theorem Exchanges.stack {c : StackCall} {toFailure : ProviderError → Failure} {a : c.Result}
    (h : (Run.stack c toFailure).Exchanges es a) : es = [⟨.stack c, .ok a⟩] :=
  h.ofProgram.request

theorem Only.exchanges {A : Request → Prop} (hp : p.Only A) (h : p.Exchanges es a) :
    ∀ e ∈ es, A e.request := Program.Only.exchanges hp h

theorem Follows.exchanges {κ : Type} {P : Protocol κ} {Q : α → κ → Prop} {k : κ}
    (hafter : ∀ r a, P.after k r a k) (hp : p.Follows P Q k) (h : p.Exchanges es a) : Q a k :=
  Program.Follows.exchanges hafter hp h a rfl

end Run

/-! ## Requests of a deploy -/

theorem Request.eq_of_putKey? {bucket b key k : String} {body : ByteArray}
    (h : (Request.store (.put b k body)).putKey? bucket = some key) : b = bucket ∧ k = key := by
  simpa [putKey?] using h

/-- A request to update a stack. -/
def Request.IsUpdate : Request → Prop
  | stack (.update ..) => True
  | _ => False

instance : DecidablePred Request.IsUpdate
  | .store _ => .isFalse id
  | .stack (.create ..) => .isFalse id
  | .stack (.update ..) => .isTrue trivial
  | .stack (.delete _) => .isFalse id
  | .stack (.status _) => .isFalse id
  | .stack (.listExports _) => .isFalse id
  | .hook _ => .isFalse id
  | .record _ => .isFalse id
  | .onMachine _ => .isFalse id
  | .control _ => .isFalse id

/-- A request that a deploy to a stack makes. -/
def Request.Deploys (name : String) : Request → Prop
  | store (.put ..) => True
  | stack (.create name' _) => name' = name
  | stack (.update name' _) => name' = name
  | record (.save ..) => True
  | hook _ => True
  | control _ => True
  | r => r.Idle

/-- A request of a deploy that leaves templates and markers alone. -/
structure Request.Passing (name : String) (r : Request) : Prop where
  deploys : r.Deploys name
  noUpdate : ¬r.IsUpdate
  key : ∀ bucket key, r.putKey? bucket = some key → key ≠ templateKey ∧ key ≠ markerKey

namespace Request.Idle

variable {r : Request} {name : String}

theorem deploys (h : r.Idle) : r.Deploys name := by
  cases r with
  | store c => cases c <;> first | exact h.elim | exact h
  | stack c => cases c <;> first | exact h.elim | exact h
  | record c => cases c <;> first | exact h.elim | exact h
  | onMachine c => exact h
  | control c => trivial
  | hook name => trivial

theorem noUpdate (h : r.Idle) : ¬r.IsUpdate := by
  cases r with
  | stack c => cases c <;> first | exact h.elim | exact id
  | _ => exact id

theorem passing (h : r.Idle) : r.Passing name where
  deploys := h.deploys
  noUpdate := h.noUpdate
  key bucket key hkey := by
    rw [h.putKey?] at hkey
    cases hkey

end Request.Idle

theorem Run.Only.passing {α : Type} {name : String} {p : Run α} (h : p.Only Request.Idle) :
    p.Only (Request.Passing name) :=
  Program.Only.mono h fun _ => Request.Idle.passing

namespace Artifacts

variable {A : Request → Prop} {bucket : String}

/-- A batch reads files, stores them and tells of it. -/
theorem only_uploadAll (hidle : ∀ r, r.Idle → A r) {us : List PendingUpload}
    (hput : ∀ u ∈ us, ∀ body, A (.store (.put bucket u.key body))) (workers : Nat) :
    (uploadAll bucket workers us).Only A := by
  have hattempt (total : Nat) (vs : List PendingUpload) (s : BatchState)
      (hvs : ∀ v ∈ vs, v ∈ us) : (attemptAll bucket total vs s).Only A := by
    induction vs generalizing s with
    | nil => trivial
    | cons v vs ih =>
      have hrest : ∀ u ∈ vs, u ∈ us := fun u hu => hvs u (List.mem_cons_of_mem _ hu)
      refine Program.only_bind ?_ fun r => ?_
      · rw [uploadFile_run]
        refine ⟨hidle _ trivial, fun body => ?_⟩
        cases body with
        | error e => trivial
        | ok body =>
          exact ⟨hput v (hvs v List.mem_cons_self) body, fun r => by cases r <;> trivial⟩
      · cases r with
        | ok _ => exact ⟨hidle _ id, fun _ => ih _ hrest⟩
        | error e => exact ih _ hrest
  refine Run.only_bind (Run.only_liftProgram ⟨hidle _ trivial, fun _ => trivial⟩) fun order => ?_
  refine Run.only_bind (Run.only_liftProgram (hattempt _ _ _ fun v hv =>
    (order.arrange_perm us).mem_iff.1 hv)) fun s => ?_
  split
  · exact Run.only_throw _
  · exact Run.only_pure _

end Artifacts

namespace Lifecycle

/-- A wait that succeeds was told of a status that is no failure. -/
theorem exchanges_pollFrom {poll : PollPolicy} {name : String} {started rounds : Nat}
    {es : List Exchange} {status : StackStatus}
    (h : (pollFrom poll name started rounds).Exchanges es status) :
    status.isFailure = false ∧ ⟨.stack (.status name), .ok status⟩ ∈ es := by
  induction rounds generalizing es with
  | zero => cases h
  | succ rounds ih =>
    obtain ⟨e₁, _, _, rfl, -, h₁⟩ := h.bind
    obtain ⟨_, s, e₂, rfl, hs, h₂⟩ := h₁.bind
    obtain rfl := hs.stack
    by_cases hterminal : s.isTerminal
    · simp only [hterminal, if_true] at h₂
      by_cases hfailure : s.isFailure
      · simp only [hfailure, if_true] at h₂
        cases h₂
      · simp only [hfailure] at h₂
        obtain ⟨rfl, rfl⟩ := h₂.pure
        exact ⟨by simpa using hfailure, by simp⟩
    · simp only [hterminal] at h₂
      obtain ⟨e₃, now, _, rfl, -, h₃⟩ := h₂.bind
      by_cases htimeout : poll.timeout ≤ now - started
      · simp only [htimeout, if_true] at h₃
        cases h₃
      · simp only [htimeout, if_false] at h₃
        obtain ⟨e₄, _, _, rfl, -, h₄⟩ := h₃.bind
        obtain ⟨hfailure, hmem⟩ := ih h₄
        exact ⟨hfailure, by simp [hmem]⟩

theorem exchanges_pollUntilTerminal {w : Waiting} {name : String} {es : List Exchange}
    {status : StackStatus} (h : (pollUntilTerminal w name).Exchanges es status) :
    status.isFailure = false ∧ ⟨.stack (.status name), .ok status⟩ ∈ es := by
  obtain ⟨_, now, _, rfl, -, hpoll⟩ := h.bind
  obtain ⟨hfailure, hmem⟩ := exchanges_pollFrom hpoll
  exact ⟨hfailure, List.mem_append_right _ hmem⟩

end Lifecycle

namespace Deploy

variable {s : Settings} {w : Waiting} {stage : Stage} {options : DeployOptions} {p : Prepared}
  {es : List Exchange}

/-! ## Deciding -/

theorem passing_ensureStack (w : Waiting) (stack : String) (stage : Stage) :
    (ensureStack w stack stage).Only (Request.Passing stack) := by
  have hcreate (body : String) : (Request.stack (.create stack body)).Passing stack :=
    ⟨rfl, id, by rintro _ _ ⟨⟩⟩
  refine Run.only_bind (idle_readTemplate ..).passing fun body =>
    Run.only_bind (Run.only_ofProgram ⟨hcreate body, fun _ => trivial⟩) fun outcome => ?_
  cases outcome with
  | created =>
    exact Run.only_bind (Run.idle_emit id).passing fun _ =>
      Run.only_bind (idle_awaitStack ..).passing fun _ => Run.only_pure _
  | alreadyExists =>
    exact Run.only_bind (Run.idle_emit id).passing fun _ => Run.only_pure _

theorem idle_fingerprints (fs : List FunctionSpec) :
    (Tracking.fingerprints fs).Only Request.Idle := by
  induction fs with
  | nil => trivial
  | cons f fs ih => exact ⟨trivial, fun _ => Program.only_bind ih fun _ => trivial⟩

/-- Up to its decision a deploy looks, and creates its stack. -/
theorem exchanges_prepare (h : (prepare w stage).Exchanges es p) :
    Planned stage (.ok p.project) p ∧ (∃ es', es = ⟨.onMachine .project, .ok p.project⟩ :: es') ∧
      ∀ e ∈ es, e.request.Passing p.stack := by
  have hplanned := (follows_prepare_planned (P := ⟨fun _ _ => True, fun (_ : Unit) _ _ _ => True⟩)
    (fun _ _ => trivial) w stage ()).exchanges (fun _ _ => trivial) h
  refine ⟨hplanned, ?_⟩
  obtain ⟨_, project, e₂, rfl, hproject, h₁⟩ := h.bind
  have hrest : ∀ e ∈ e₂, e.request.Passing (stage.stackName project.name) := by
    refine Run.Only.exchanges ?_ h₁
    refine Run.only_bind (Run.idle_emit id).passing fun _ => ?_
    refine Run.only_bind (Run.only_liftProgram ⟨Request.Idle.passing trivial,
      fun r => by cases r <;> trivial⟩) fun _ => ?_
    refine Run.only_bind (passing_ensureStack ..) fun _ => ?_
    refine Run.only_bind (idle_resolveBucket ..).passing fun bucket => ?_
    refine Run.only_bind (Run.idle_emit id).passing fun _ => ?_
    refine Run.only_bind (Artifacts.idle_readMarker bucket).passing fun marker => ?_
    refine Run.only_bind (Run.only_liftProgram (Program.only_bind
      ((idle_fingerprints _).mono fun _ => Request.Idle.passing) fun _ => trivial)) fun plan => ?_
    exact Run.only_bind (Run.idle_emit id).passing fun _ => Run.only_pure _
  have hname : p.project = project := by
    obtain ⟨_, _, _, -, -, h₂⟩ := h₁.bind
    obtain ⟨_, _, _, -, -, h₃⟩ := h₂.bind
    obtain ⟨_, _, _, -, -, h₄⟩ := h₃.bind
    obtain ⟨_, _, _, -, -, h₅⟩ := h₄.bind
    obtain ⟨_, _, _, -, -, h₆⟩ := h₅.bind
    obtain ⟨_, _, _, -, -, h₇⟩ := h₆.bind
    obtain ⟨_, _, _, -, -, h₈⟩ := h₇.bind
    obtain ⟨_, _, _, -, -, h₉⟩ := h₈.bind
    obtain ⟨-, rfl⟩ := h₉.pure
    rfl
  rw [hplanned.stack, hname, hproject.ofProgram.request]
  exact ⟨⟨e₂, rfl⟩, List.forall_mem_cons.2 ⟨Request.Idle.passing trivial, hrest⟩⟩

/-! ## What is decided -/

/-- The exchanges of a deploy that goes about its decision, up to its end. -/
structure Delivery (stage : Stage) (p : Prepared) (files : List UploadedFile)
    (es : List Exchange) where
  /-- The template that was read. -/
  text : String
  /-- Where the rendered template was said to be. -/
  url : String
  outcome : UpdateOutcome
  before : List Exchange
  between : List Exchange
  waiting : List Exchange
  after : List Exchange
  eq : es = before ++
    ⟨.store (.put p.bucket templateKey (p.plan.tokens.render text).toUTF8), .ok ()⟩ :: (between ++
    ⟨.stack (.update p.stack url), .ok outcome⟩ :: (waiting ++
    ⟨.store (.put p.bucket markerKey p.project.timestamp.toUTF8), .ok ()⟩ :: after))
  read : ⟨.onMachine (.template .update stage), .ok text⟩ ∈ before
  addressed : ⟨.store (.url p.bucket templateKey), .ok url⟩ ∈ between
  ready : outcome = .updating →
    ∃ status, status.isFailure = false ∧ ⟨.stack (.status p.stack), .ok status⟩ ∈ waiting
  passing : ∀ e ∈ before ++ between ++ waiting, e.request.Passing p.stack
  deploys : ∀ e ∈ after, e.request.Deploys p.stack ∧ ¬e.request.IsUpdate
  keys : ∀ bucket, keysPut bucket after = fileKeys bucket files

theorem exchanges_uploadTemplate {values : Substitutions} {bucket url : String}
    (h : (uploadTemplate bucket stage values).Exchanges es url) :
    ∃ text es₁, es = [⟨.onMachine (.template .update stage), .ok text⟩,
        ⟨.store (.put bucket templateKey (values.render text).toUTF8), .ok ()⟩,
        ⟨.store (.url bucket templateKey), .ok url⟩] ++ es₁ ∧
      ∀ e ∈ es₁, e.request.Idle := by
  obtain ⟨_, text, _, rfl, hread, h₁⟩ := h.bind
  obtain ⟨_, url', _, rfl, hstore, h₂⟩ := h₁.bind
  obtain ⟨emitted, _, _, rfl, hemit, h₃⟩ := h₂.bind
  obtain ⟨rfl, rfl⟩ := h₃.pure
  obtain ⟨_, _, _, rfl, hput, hurl⟩ := hstore.bind
  obtain rfl := hread.ofProgram.request
  obtain rfl := hput.store
  obtain rfl := hurl.store
  refine ⟨text, emitted, by simp, ?_⟩
  exact (Run.idle_emit id).exchanges hemit

theorem exchanges_updateStack {stack url : String} {changed : Bool}
    (h : (updateStack w stack url).Exchanges es changed) :
    ∃ outcome waiting, es = ⟨.stack (.update stack url), .ok outcome⟩ :: waiting ∧
      (∀ e ∈ waiting, e.request.Idle) ∧
      (outcome = .updating → ∃ status, status.isFailure = false ∧
        ⟨.stack (.status stack), .ok status⟩ ∈ waiting) := by
  obtain ⟨_, outcome, waiting, rfl, hupdate, h₁⟩ := h.bind
  obtain rfl := hupdate.stack
  refine ⟨outcome, waiting, rfl, ?_⟩
  cases outcome with
  | noChanges =>
    exact ⟨(Run.only_bind (Run.idle_emit id) fun _ => Run.only_pure _).exchanges h₁, nofun⟩
  | updating =>
    refine ⟨(Run.only_bind (Run.idle_emit id) fun _ =>
      Run.only_bind (idle_awaitStack ..) fun _ => Run.only_pure _).exchanges h₁, fun _ => ?_⟩
    obtain ⟨_, _, _, rfl, -, h₂⟩ := h₁.bind
    obtain ⟨_, _, _, rfl, hawait, -⟩ := h₂.bind
    obtain ⟨_, status, _, rfl, hpoll, -⟩ := hawait.bind
    obtain ⟨hfailure, hmem⟩ := Lifecycle.exchanges_pollUntilTerminal hpoll
    exact ⟨status, hfailure, by simp [hmem]⟩

theorem exchanges_commit {r : Record} {bucket timestamp : String}
    (htimestamp : r.timestamp = some timestamp)
    (h : (Tracking.commit stage r bucket).Exchanges es ()) :
    es = [⟨.record (.save stage r), .ok ()⟩,
      ⟨.store (.put bucket markerKey timestamp.toUTF8), .ok ()⟩] := by
  obtain ⟨_, _, _, rfl, hsave, h₁⟩ := h.bind
  rw [hsave.ofProgram.request]
  simp only [htimestamp] at h₁
  rw [Run.Exchanges.store h₁]
  rfl

/-- What is stored last is what is reported. -/
theorem exchanges_finish {a : Applied} {report : DeployReport}
    (h : (finish s w options p a).Exchanges es report) :
    (∀ e ∈ es, e.request.Deploys p.stack ∧ ¬e.request.IsUpdate) ∧ report.bucket = p.bucket ∧
      ∀ bucket, keysPut bucket es = fileKeys bucket report.files := by
  refine ⟨(only_finish (A := fun r => r.Deploys p.stack ∧ ¬r.IsUpdate)
    (fun _ hr => ⟨hr.deploys, hr.noUpdate⟩) (fun _ _ _ => ⟨trivial, id⟩)
    (fun _ => ⟨trivial, id⟩) s w options p a).exchanges h, ?_, fun bucket => ?_⟩
  · obtain ⟨_, found, _, -, -, h₁⟩ := h.bind
    obtain ⟨_, files, _, -, -, h₂⟩ := h₁.bind
    have hreport {r : DeployReport} {e : Event} {es : List Exchange}
        (h : (Run.emit e >>= fun _ => pure r).Exchanges es report) : report = r := by
      obtain ⟨_, _, _, -, -, h⟩ := h.bind
      exact h.pure.2
    by_cases hskip : options.skipHooks = true
    · simp only [hskip, if_true] at h₂
      obtain ⟨_, hooks, _, -, -, h₃⟩ := h₂.bind
      rw [hreport h₃]
    · simp only [hskip] at h₂
      obtain ⟨_, hooks, _, -, -, h₃⟩ := h₂.bind
      rw [hreport h₃]
  · have hnone : InTurn [] True [] := .artifacts (List.Subperm.refl [])
    exact ((storing_finish s w options p a hnone fun _ _ _ => trivial).keysPut h report rfl).2

/-- From its decision on a deploy that succeeds delivers its template. -/
theorem exchanges_proceed {report : DeployReport}
    (hplanned : Planned options.stage (.ok p.project) p)
    (h : (proceed s w options p).Exchanges es report) :
    report.bucket = p.bucket ∧ Nonempty (Delivery options.stage p report.files es) := by
  obtain ⟨_, a, after, rfl, happly, hfinish⟩ := h.bind
  obtain ⟨hafter, hbucket, hkeys⟩ := exchanges_finish hfinish
  rw [apply_eq] at happly
  obtain ⟨_, _, _, rfl, hinstall, h₁⟩ := happly.bind
  obtain ⟨_, _, _, rfl, hcommit, h₂⟩ := h₁.bind
  obtain ⟨announced, _, _, rfl, hemit, h₃⟩ := h₂.bind
  obtain ⟨rfl, rfl⟩ := h₃.pure
  obtain rfl := exchanges_commit hplanned.record_spec.2.1 hcommit
  have hemit : ∀ e ∈ announced, e.request.Deploys p.stack ∧ ¬e.request.IsUpdate ∧
      ∀ bucket, e.request.putKey? bucket = none :=
    Run.Only.exchanges
      (A := fun r => r.Deploys p.stack ∧ ¬r.IsUpdate ∧ ∀ bucket, r.putKey? bucket = none)
      (Run.only_emit ⟨trivial, id, fun _ => rfl⟩) hemit
  obtain ⟨e₁, _, _, rfl, hcheck, h₄⟩ := hinstall.bind
  obtain ⟨e₂, _, _, rfl, hupload, h₅⟩ := h₄.bind
  obtain ⟨e₃, _, _, rfl, hcheck', h₆⟩ := h₅.bind
  obtain ⟨_, url, _, rfl, htemplate, h₇⟩ := h₆.bind
  obtain ⟨_, _, _, rfl, hupdate, h₈⟩ := h₇.bind
  obtain ⟨rfl, rfl⟩ := h₈.pure
  obtain ⟨text, e₄, rfl, htold⟩ := exchanges_uploadTemplate htemplate
  obtain ⟨outcome, waiting, rfl, hwaiting, hready⟩ := exchanges_updateStack hupdate
  have hputs : ∀ e ∈ e₂, e.request.Passing p.stack := by
    refine (Artifacts.only_uploadAll (fun _ => Request.Idle.passing) (fun u hu body =>
      ⟨trivial, id, fun bucket key hkey => ?_⟩) _).exchanges hupload
    obtain ⟨v, hv, rfl⟩ := List.mem_map.1 hu
    have hslash := Redeploy.slash_mem_key p.project.timestamp v.artifact
    rw [← (hplanned.artifact hv).1] at hslash
    obtain rfl : v.version.key = key := (Request.eq_of_putKey? hkey).2
    constructor
    · intro heq
      exact absurd (heq ▸ hslash) (by decide)
    · intro heq
      exact absurd (heq ▸ hslash) (by decide)
  have hidle {es : List Exchange} (h : ∀ e ∈ es, e.request.Idle) :
      ∀ e ∈ es, e.request.Passing p.stack := fun e he => (h e he).passing
  refine ⟨hbucket, ⟨{
    text, url, outcome
    before := e₁ ++ e₂ ++ e₃ ++ [⟨.onMachine (.template .update options.stage), .ok text⟩]
    between := ⟨.store (.url p.bucket templateKey), .ok url⟩ :: e₄
    waiting := waiting ++ [⟨.record (.save options.stage p.plan.record), .ok ()⟩]
    after := announced ++ after
    eq := by simp
    read := by simp
    addressed := List.mem_cons_self
    ready := fun h => ?_
    passing := ?_
    deploys := ?_
    keys := fun bucket => ?_ }⟩⟩
  · obtain ⟨status, hfailure, hmem⟩ := hready h
    exact ⟨status, hfailure, List.mem_append_left _ hmem⟩
  · simp only [List.forall_mem_append, List.forall_mem_cons]
    have hnone : ∀ e ∈ ([] : List Exchange), e.request.Passing p.stack := by
      rintro _ ⟨⟩
    have hsave : (Request.record (.save options.stage p.plan.record)).Passing p.stack :=
      ⟨trivial, id, by rintro _ _ ⟨⟩⟩
    exact ⟨⟨⟨⟨⟨hidle (Run.idle_checkCancelled.exchanges hcheck), hputs⟩,
      hidle (Run.idle_checkCancelled.exchanges hcheck')⟩, Request.Idle.passing trivial, hnone⟩,
      Request.Idle.passing trivial, hidle htold⟩, hidle hwaiting, hsave, hnone⟩
  · rw [List.forall_mem_append]
    exact ⟨fun e he => ⟨(hemit e he).1, (hemit e he).2.1⟩, hafter⟩
  · have hnil : keysPut bucket announced = [] :=
      List.filterMap_eq_nil_iff.2 fun e he => (hemit e he).2.2 bucket
    rw [keysPut, List.filterMap_append]
    exact (congrArg (· ++ _) hnil).trans (hkeys bucket)

/-- A deploy that succeeds has decided, and delivered what it decided on. -/
theorem exchanges_deploy {patience : Nat} {report : DeployReport}
    (h : (deploy s patience options).Exchanges es report) :
    ∃ p, (prepare (s.waiting patience) options.stage).Reaches es p ∧
      Planned options.stage (.ok p.project) p ∧
      (∃ es', es = ⟨.onMachine .project, .ok p.project⟩ :: es') ∧
      report.bucket = p.bucket ∧ Nonempty (Delivery options.stage p report.files es) := by
  obtain ⟨es₁, p, es₂, rfl, hprepare, hproceed⟩ := Run.Exchanges.bind h
  obtain ⟨hplanned, ⟨es', hproject⟩, hpassing⟩ := exchanges_prepare hprepare
  obtain ⟨hbucket, ⟨d⟩⟩ := exchanges_proceed hplanned hproceed
  refine ⟨p, ⟨es₁, List.prefix_append _ _, hprepare⟩, hplanned,
    ⟨es' ++ es₂, congrArg (· ++ es₂) hproject⟩, hbucket, ⟨{ d with
      before := es₁ ++ d.before
      eq := by rw [List.append_assoc, ← d.eq]
      read := List.mem_append_right _ d.read
      passing := fun e he => ?_ }⟩⟩
  rw [List.append_assoc, List.append_assoc] at he
  rcases List.mem_append.1 he with he | he
  · exact hpassing e he
  · exact d.passing e (by rwa [List.append_assoc])

namespace Delivery

variable {files : List UploadedFile} {e : Exchange} {bucket : String}

/-- The template that was stored. -/
def rendered (d : Delivery stage p files es) : String := p.plan.tokens.render d.text

theorem mem_iff (d : Delivery stage p files es) :
    e ∈ es ↔ e ∈ d.before ∨
      e = ⟨.store (.put p.bucket templateKey d.rendered.toUTF8), .ok ()⟩ ∨ e ∈ d.between ∨
      e = ⟨.stack (.update p.stack d.url), .ok d.outcome⟩ ∨ e ∈ d.waiting ∨
      e = ⟨.store (.put p.bucket markerKey p.project.timestamp.toUTF8), .ok ()⟩ ∨ e ∈ d.after := by
  have h := Iff.of_eq (congrArg (e ∈ ·) d.eq)
  simp only [List.mem_append, List.mem_cons] at h
  exact h

theorem mem_update (d : Delivery stage p files es) :
    ⟨.stack (.update p.stack d.url), .ok d.outcome⟩ ∈ es :=
  d.mem_iff.2 (.inr (.inr (.inr (.inl rfl))))

theorem mem_marker (d : Delivery stage p files es) :
    ⟨.store (.put p.bucket markerKey p.project.timestamp.toUTF8), .ok ()⟩ ∈ es :=
  d.mem_iff.2 (.inr (.inr (.inr (.inr (.inr (.inl rfl))))))

/-- Every exchange is one of three, or passes, or comes after the commit. -/
theorem cases (d : Delivery stage p files es) (he : e ∈ es) :
    e = ⟨.store (.put p.bucket templateKey d.rendered.toUTF8), .ok ()⟩ ∨
      e = ⟨.stack (.update p.stack d.url), .ok d.outcome⟩ ∨
      e = ⟨.store (.put p.bucket markerKey p.project.timestamp.toUTF8), .ok ()⟩ ∨
      e.request.Passing p.stack ∨ e ∈ d.after := by
  have hpassing := d.passing e
  simp only [List.mem_append] at hpassing
  rcases d.mem_iff.1 he with he | rfl | he | rfl | he | rfl | he
  · exact .inr (.inr (.inr (.inl (hpassing (.inl (.inl he))))))
  · exact .inl rfl
  · exact .inr (.inr (.inr (.inl (hpassing (.inl (.inr he))))))
  · exact .inr (.inl rfl)
  · exact .inr (.inr (.inr (.inl (hpassing (.inr he)))))
  · exact .inr (.inr (.inl rfl))
  · exact .inr (.inr (.inr (.inr he)))

theorem request_deploys (d : Delivery stage p files es) (he : e ∈ es) :
    e.request.Deploys p.stack := by
  rcases d.cases he with rfl | rfl | rfl | hpassing | he
  · trivial
  · rfl
  · trivial
  · exact hpassing.deploys
  · exact (d.deploys e he).1

/-- The key of an object that is stored after the commit is that of a file. -/
theorem mem_fileKeys (d : Delivery stage p files es) {key : String} (he : e ∈ d.after)
    (hkey : e.request.putKey? bucket = some key) : key ∈ fileKeys bucket files := by
  rw [← d.keys bucket]
  exact mem_keysPut.2 ⟨e, he, hkey⟩

/-- Unless a file goes there, the marker is the one object under its key. -/
theorem put_marker (d : Delivery stage p files es) (he : e ∈ es)
    (hkey : e.request.putKey? bucket = some markerKey) (hfiles : markerKey ∉ fileKeys bucket files) :
    e = ⟨.store (.put bucket markerKey p.project.timestamp.toUTF8), .ok ()⟩ := by
  rcases d.cases he with rfl | rfl | rfl | hpassing | he
  · exact absurd (Request.eq_of_putKey? hkey).2 (by decide)
  · cases hkey
  · rw [(Request.eq_of_putKey? hkey).1]
  · exact absurd rfl (hpassing.key _ _ hkey).2
  · exact absurd (d.mem_fileKeys he hkey) hfiles

/-- Unless a file goes there, the rendered template is the one object under its key. -/
theorem put_template (d : Delivery stage p files es) (he : e ∈ es)
    (hkey : e.request.putKey? bucket = some templateKey)
    (hfiles : templateKey ∉ fileKeys bucket files) :
    e = ⟨.store (.put bucket templateKey d.rendered.toUTF8), .ok ()⟩ := by
  rcases d.cases he with rfl | rfl | rfl | hpassing | he
  · rw [(Request.eq_of_putKey? hkey).1]
  · cases hkey
  · exact absurd (Request.eq_of_putKey? hkey).2 (by decide)
  · exact absurd rfl (hpassing.key _ _ hkey).1
  · exact absurd (d.mem_fileKeys he hkey) hfiles

/-- The stack is updated once. -/
theorem eq_of_isUpdate (d : Delivery stage p files es) {es₁ es₂ : List Exchange}
    (h : es = es₁ ++ e :: es₂) (he : e.request.IsUpdate) :
    es₁ = d.before ++
        ⟨.store (.put p.bucket templateKey d.rendered.toUTF8), .ok ()⟩ :: d.between ∧
      e = ⟨.stack (.update p.stack d.url), .ok d.outcome⟩ ∧
      es₂ = d.waiting ++
        ⟨.store (.put p.bucket markerKey p.project.timestamp.toUTF8), .ok ()⟩ :: d.after := by
  have hnone (e : Exchange) (he : e ∈ d.before ++ d.between ++ d.waiting) :
      ¬e.request.IsUpdate := (d.passing e he).noUpdate
  simp only [List.forall_mem_append] at hnone
  obtain ⟨⟨hbefore, hbetween⟩, hwaiting⟩ := hnone
  refine eq_of_append_cons_eq (P := fun e => e.request.IsUpdate) ?_ he ?_ ?_
  · rw [← h, List.append_assoc]
    exact d.eq
  · rw [List.forall_mem_append, List.forall_mem_cons]
    exact ⟨hbefore, id, hbetween⟩
  · rw [List.forall_mem_append, List.forall_mem_cons]
    exact ⟨hwaiting, id, fun e he => (d.deploys e he).2⟩

end Delivery

end Deploy

end Rollout
