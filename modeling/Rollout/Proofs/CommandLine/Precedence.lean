import Rollout.CommandLine.Invocation
import Rollout.Proofs.Outcome
import Rollout.Proofs.Text.Utf8

/-!
Which value of the stage and the region stands when several places give one: a flag before the
environment, the environment before the configuration file, and the file before what holds where
nothing is configured. A place below a flag has no say in the run, but for one thing: the stage
it gives is checked also when a flag stands above it.
-/

namespace Rollout

namespace Config

/-! ## What a document gives -/

/-- The keys of the section about the deploy, in their order. -/
def deployKeys : List String :=
  ["region", "stage", "build_dir", "descriptor_dir", "state_dir", "upload_concurrency"]

/-- What a section gives for a key. -/
def sectionValue? (key : String) : Toml → Option Toml
  | .arr items => items[deployKeys.idxOf key]?
  | v => (tableOf? v).bind (Toml.member? key)

/-- The section about the deploy in a document. The last of the name counts. -/
def deployValue? : List (String × Toml) → Option Toml
  | [] => none
  | (name, v) :: rest => (deployValue? rest).or (if name = "deploy" then some v else none)

/-- What a document gives for a key of the section about the deploy. -/
def given? (doc : List (String × Toml)) (key : String) : Option Toml :=
  (deployValue? doc).bind (sectionValue? key)

/-- The text that a document gives for a key of the section about the deploy. -/
def givenText? (doc : List (String × Toml)) (key : String) : Option String :=
  (given? doc key).bind string?

/-- The section about the deploy from what is given for its keys. -/
def deployOf? (given : String → Option Toml) : Option DeploySection := do
  let d := DeploySection.standard
  return {
    region := ← orStandard someString? d.region (given "region")
    stage := ← orStandard string? d.stage (given "stage")
    buildDir := ← orStandard path? d.buildDir (given "build_dir")
    descriptorDir := ← orStandard path? d.descriptorDir (given "descriptor_dir")
    stateDir := ← orStandard path? d.stateDir (given "state_dir")
    uploadConcurrency := ← orStandard count? d.uploadConcurrency (given "upload_concurrency") }

theorem deploySection?_fst (v : Toml) :
    (deploySection? v).map (·.1) =
      (sectionText? deployKeys v).bind fun _ => deployOf? fun key => sectionValue? key v := by
  have hfields (text : SectionText)
      (hvalues : text.values = deployKeys.map fun key => sectionValue? key v)
      (htext : sectionText? deployKeys v = some text) :
      (deploySection? v).map (·.1) = deployOf? fun key => sectionValue? key v := by
    rw [deploySection?, readSection]
    change ((sectionText? deployKeys v).bind _).map _ = _
    rw [htext, Option.bind_some, Option.map_map, hvalues]
    exact Option.map_id'
  cases v <;> first | exact hfields _ rfl rfl | rfl

theorem orStandard_eq_some {α : Type} {read : Toml → Option α} {standard x : α} {v : Option Toml}
    (h : orStandard read standard v = some x) : x = (v.bind read).getD standard := by
  cases v with
  | none => exact (Option.some.inj h).symm
  | some v =>
    rw [orStandard] at h
    rw [Option.bind_some, h, Option.getD_some]

/-- The stage and the region that a section gives, and what stands where it gives none. -/
theorem texts_of_deployOf? {given : String → Option Toml} {d : DeploySection}
    (h : deployOf? given = some d) :
    d.stage = ((given "stage").bind string?).getD DeploySection.standard.stage ∧
      d.region = (given "region").bind string? := by
  simp only [deployOf?, Option.pure_def, Option.bind_eq_bind, Option.bind_eq_some_iff] at h
  obtain ⟨region, hregion, stage, hstage, _, -, _, -, _, -, _, -, hd⟩ := h
  cases hd
  refine ⟨orStandard_eq_some hstage, ?_⟩
  rw [orStandard_eq_some hregion]
  cases given "region" with
  | none => rfl
  | some v => cases v <;> rfl

/-- What is left of a document without the section about the deploy. -/
def beside (doc : List (String × Toml)) : List (String × Toml) :=
  doc.filter fun e => e.1 ≠ "deploy"

/-- Two configurations that are alike in all sections but the one about the deploy. -/
structure AlikeBeside (c c' : Config) : Prop where
  polling : c.polling = c'.polling
  exports : c.exports = c'.exports
  provider : c.provider = c'.provider

theorem readKey_deploy {l l' : Loaded} {v : Toml} (h : readKey l "deploy" v = some l') :
    ∃ s, (deploySection? v).map (·.1) = some s ∧ l'.config = { l.config with deploy := s } := by
  rw [readKey, if_pos rfl] at h
  obtain ⟨⟨s, keys⟩, hs, rfl⟩ := Option.map_eq_some_iff.1 h
  exact ⟨s, by rw [hs]; rfl, rfl⟩

theorem readKey_beside {l m l' : Loaded} {name : String} {v : Toml} (hname : name ≠ "deploy")
    (hlm : AlikeBeside l.config m.config) (h : readKey l name v = some l') :
    l'.config.deploy = l.config.deploy ∧
      ∃ m', readKey m name v = some m' ∧ AlikeBeside l'.config m'.config := by
  obtain ⟨hpolling, hexports, hprovider⟩ := hlm
  unfold readKey at *
  rw [if_neg hname] at *
  split at h
  next hp =>
    obtain ⟨⟨s, keys⟩, hs, rfl⟩ := Option.map_eq_some_iff.1 h
    refine ⟨rfl,
      ⟨{ m.config with polling := s }, m.unknown ++ qualified name keys⟩, ?_, rfl, hexports, hprovider⟩
    rw [if_pos hp, hs]
    rfl
  next hp =>
  rw [if_neg hp]
  split at h
  next he =>
    obtain ⟨⟨s, keys⟩, hs, rfl⟩ := Option.map_eq_some_iff.1 h
    refine ⟨rfl,
      ⟨{ m.config with exports := s }, m.unknown ++ qualified name keys⟩, ?_, hpolling, rfl, hprovider⟩
    rw [if_pos he, hs]
    rfl
  next he =>
  rw [if_neg he]
  split at h
  next hr =>
    obtain ⟨⟨s, keys⟩, hs, rfl⟩ := Option.map_eq_some_iff.1 h
    refine ⟨rfl,
      ⟨{ m.config with provider := s }, m.unknown ++ qualified name keys⟩, ?_, hpolling, hexports, rfl⟩
    rw [if_pos hr, hs]
    rfl
  next hr =>
    cases h
    exact ⟨rfl, _, if_neg hr, hpolling, hexports, hprovider⟩

theorem readKeys_cons_eq_some {l l' : Loaded} {name : String} {v : Toml}
    {rest : List (String × Toml)} :
    readKeys l ((name, v) :: rest) = some l' ↔
      ∃ l₁, readKey l name v = some l₁ ∧ readKeys l₁ rest = some l' := by
  rw [readKeys, Option.bind_eq_some_iff]

theorem beside_cons {name : String} (hname : name ≠ "deploy") (v : Toml)
    (rest : List (String × Toml)) : beside ((name, v) :: rest) = (name, v) :: beside rest :=
  List.filter_cons_of_pos (by simpa using hname)

/-- The sections but the one about the deploy are read without it as they are with it. -/
theorem readKeys_beside {doc : List (String × Toml)} {l m l' : Loaded}
    (hlm : AlikeBeside l.config m.config) (h : readKeys l doc = some l') :
    ∃ m', readKeys m (beside doc) = some m' ∧ AlikeBeside l'.config m'.config := by
  induction doc generalizing l m with
  | nil =>
    cases h
    exact ⟨m, rfl, hlm⟩
  | cons e rest ih =>
    obtain ⟨name, v⟩ := e
    obtain ⟨l₁, hread, hrest⟩ := readKeys_cons_eq_some.1 h
    by_cases hname : name = "deploy"
    · subst hname
      obtain ⟨s, -, hs⟩ := readKey_deploy hread
      exact ih (by rw [hs]; exact ⟨hlm.polling, hlm.exports, hlm.provider⟩) hrest
    · obtain ⟨-, m₁, hm₁, halike⟩ := readKey_beside hname hlm hread
      obtain ⟨m', hm', halike'⟩ := ih halike hrest
      rw [beside_cons hname]
      exact ⟨m', readKeys_cons_eq_some.2 ⟨m₁, hm₁, hm'⟩, halike'⟩

/-- A document is read if all but the section about the deploy is, and that section is. -/
theorem readKeys_of_beside {doc : List (String × Toml)} {l m l' : Loaded}
    (hlm : AlikeBeside l.config m.config) (h : readKeys l (beside doc) = some l')
    (hdeploy : ∀ v, ("deploy", v) ∈ doc → (deploySection? v).isSome) :
    ∃ m', readKeys m doc = some m' ∧ AlikeBeside l'.config m'.config := by
  induction doc generalizing l m with
  | nil =>
    cases h
    exact ⟨m, rfl, hlm⟩
  | cons e rest ih =>
    obtain ⟨name, v⟩ := e
    have hrest : ∀ v, ("deploy", v) ∈ rest → (deploySection? v).isSome :=
      fun v hv => hdeploy v (.tail _ hv)
    by_cases hname : name = "deploy"
    · subst hname
      obtain ⟨⟨s, keys⟩, hs⟩ := Option.isSome_iff_exists.1 (hdeploy v (.head _))
      let m₁ : Loaded := ⟨{ m.config with deploy := s }, m.unknown ++ qualified "deploy" keys⟩
      have hread : readKey m "deploy" v = some m₁ := by
        rw [readKey, if_pos rfl, hs, Option.map_some]
      have halike : AlikeBeside l.config m₁.config := ⟨hlm.polling, hlm.exports, hlm.provider⟩
      obtain ⟨m', hm', halike'⟩ := ih halike h hrest
      exact ⟨m', readKeys_cons_eq_some.2 ⟨m₁, hread, hm'⟩, halike'⟩
    · rw [beside_cons hname] at h
      obtain ⟨l₁, hread, hl₁⟩ := readKeys_cons_eq_some.1 h
      obtain ⟨-, m₁, hm₁, halike⟩ := readKey_beside hname hlm hread
      obtain ⟨m', hm', halike'⟩ := ih halike hl₁ hrest
      exact ⟨m', readKeys_cons_eq_some.2 ⟨m₁, hm₁, hm'⟩, halike'⟩

/-- Of the sections about the deploy the last is read, and what stood before stands if there is
none. -/
theorem deploy_of_readKeys {doc : List (String × Toml)} {l l' : Loaded}
    (h : readKeys l doc = some l') :
    some l'.config.deploy = match deployValue? doc with
      | none => some l.config.deploy
      | some v => (deploySection? v).map (·.1) := by
  induction doc generalizing l with
  | nil =>
    cases h
    rfl
  | cons e rest ih =>
    obtain ⟨name, v⟩ := e
    obtain ⟨l₁, hread, hrest⟩ := readKeys_cons_eq_some.1 h
    rw [ih hrest, deployValue?]
    cases deployValue? rest with
    | some w => rfl
    | none =>
      by_cases hname : name = "deploy"
      · subst hname
        obtain ⟨s, hs, hconfig⟩ := readKey_deploy hread
        simp [hs, hconfig]
      · obtain ⟨hsame, -⟩ := readKey_beside hname ⟨rfl, rfl, rfl⟩ hread
        simp [hname, hsame]

theorem deployOf?_of_readKeys {doc : List (String × Toml)} {l : Loaded}
    (h : readKeys ⟨.standard, []⟩ doc = some l) :
    deployOf? (given? doc) = some l.config.deploy := by
  have hdeploy := deploy_of_readKeys h
  unfold given?
  cases hvalue : deployValue? doc with
  | none =>
    rw [hvalue] at hdeploy
    rw [hdeploy]
    rfl
  | some v =>
    rw [hvalue] at hdeploy
    simp only [deploySection?_fst] at hdeploy
    obtain ⟨-, -, hd⟩ := Option.bind_eq_some_iff.1 hdeploy.symm
    exact hd

/-! ## Documents that tell another stage and region -/

/-- Two configurations that may differ in the stage and the region. -/
def SameButPlace (c c' : Config) : Prop :=
  c' = { c with deploy := { c.deploy with stage := c'.deploy.stage, region := c'.deploy.region } }

/-- A document with other texts for the stage and the region, or with none, where the other was
the same. It has one section about the deploy at most. -/
structure Retold (doc doc' : List (String × Toml)) : Prop where
  beside : beside doc' = beside doc
  only : ∀ v, ("deploy", v) ∈ doc' →
    deployValue? doc' = some v ∧ (sectionText? deployKeys v).isSome
  same : ∀ key ∈ deployKeys, key ≠ "stage" → key ≠ "region" → given? doc' key = given? doc key
  texts : ∀ key, key = "stage" ∨ key = "region" → ∀ v, given? doc' key = some v → ∃ s, v = .str s

theorem deployOf?_retold {given told : String → Option Toml} {d : DeploySection}
    (h : deployOf? given = some d)
    (hsame : ∀ key ∈ deployKeys, key ≠ "stage" → key ≠ "region" → told key = given key)
    (htexts : ∀ key, key = "stage" ∨ key = "region" → ∀ v, told key = some v → ∃ s, v = .str s) :
    ∃ d', deployOf? told = some d' ∧ d' = { d with stage := d'.stage, region := d'.region } := by
  have hstage : ∃ stage,
      orStandard string? DeploySection.standard.stage (told "stage") = some stage := by
    cases hv : told "stage" with
    | none => exact ⟨_, rfl⟩
    | some v =>
      obtain ⟨s, rfl⟩ := htexts _ (.inl rfl) v hv
      exact ⟨s, rfl⟩
  have hregion : ∃ region,
      orStandard someString? DeploySection.standard.region (told "region") = some region := by
    cases hv : told "region" with
    | none => exact ⟨_, rfl⟩
    | some v =>
      obtain ⟨s, rfl⟩ := htexts _ (.inr rfl) v hv
      exact ⟨some s, rfl⟩
  obtain ⟨stage, hstage⟩ := hstage
  obtain ⟨region, hregion⟩ := hregion
  refine ⟨{ d with stage := stage, region := region }, ?_, rfl⟩
  simp only [deployOf?, Option.pure_def, Option.bind_eq_bind, Option.bind_eq_some_iff] at h ⊢
  obtain ⟨_, -, _, -, _, hbuild, _, hdescriptor, _, hstate, _, hconcurrency, hd⟩ := h
  cases hd
  refine ⟨_, hregion, _, hstage, _, ?_, _, ?_, _, ?_, _, ?_, rfl⟩
  · rw [hsame "build_dir" (by decide) (by decide) (by decide), hbuild]
  · rw [hsame "descriptor_dir" (by decide) (by decide) (by decide), hdescriptor]
  · rw [hsame "state_dir" (by decide) (by decide) (by decide), hstate]
  · rw [hsame "upload_concurrency" (by decide) (by decide) (by decide), hconcurrency]

/-- A document that tells any other stage and region is read, and no other setting changes. -/
theorem readKeys_retold {doc doc' : List (String × Toml)} {l : Loaded} (hr : Retold doc doc')
    (h : readKeys ⟨.standard, []⟩ doc = some l) :
    ∃ l', readKeys ⟨.standard, []⟩ doc' = some l' ∧ SameButPlace l.config l'.config := by
  obtain ⟨d', hd', hsame⟩ := deployOf?_retold (deployOf?_of_readKeys h) hr.same hr.texts
  have hsections (v : Toml) (hv : ("deploy", v) ∈ doc') : (deploySection? v).isSome := by
    obtain ⟨hvalue, htext⟩ := hr.only v hv
    obtain ⟨text, htext⟩ := Option.isSome_iff_exists.1 htext
    have hsection := deploySection?_fst v
    have hgiven : given? doc' = fun key => sectionValue? key v := by
      funext key
      rw [given?, hvalue, Option.bind_some]
    rw [htext, Option.bind_some, ← hgiven, hd'] at hsection
    rw [← Option.isSome_map, hsection, Option.isSome_some]
  obtain ⟨m, hm, halike⟩ := readKeys_beside ⟨rfl, rfl, rfl⟩ h
  rw [← hr.beside] at hm
  obtain ⟨l', hl', halike'⟩ := readKeys_of_beside ⟨rfl, rfl, rfl⟩ hm hsections
  refine ⟨l', hl', ?_⟩
  have hdeploy : l'.config.deploy = d' :=
    Option.some.inj ((deployOf?_of_readKeys hl').symm.trans hd')
  obtain ⟨⟨deploy, polling, exports, provider⟩, unknown⟩ := l'
  obtain ⟨hpolling, hexports, hprovider⟩ := halike
  obtain ⟨hpolling', hexports', hprovider'⟩ := halike'
  simp only [SameButPlace] at *
  rw [← hpolling', ← hexports', ← hprovider', ← hpolling, ← hexports, ← hprovider, hdeploy, ← hsame]

/-! ## An environment applied again -/

theorem setting_setting {α : Type} (env : Environment) (name : String) (read : String → Option α)
    (standing : α) :
    setting env name read (setting env name read standing) = setting env name read standing := by
  unfold setting
  cases (env.get? name).bind read <;> rfl

/-- An environment that is applied to a configuration that is under it already changes nothing. -/
theorem override_override (env : Environment) (c : Config) :
    (c.override env).override env = c.override env := by
  simp only [override, overrideDeploy, setting_setting]

/-! ## Environments that tell another stage and region -/

/-- Two environments that may differ in the variables for the stage and the region. -/
def SameVariables (env env' : Environment) : Prop :=
  ∀ name, name ≠ "LIFTOFF_STAGE" → name ≠ "LIFTOFF_REGION" → env'.get? name = env.get? name

theorem SameVariables.setting {α : Type} {env env' : Environment} (h : SameVariables env env')
    {name : String} (hstage : name ≠ "LIFTOFF_STAGE") (hregion : name ≠ "LIFTOFF_REGION")
    (read : String → Option α) (standing : α) :
    setting env' name read standing = setting env name read standing := by
  rw [Config.setting, Config.setting, h name hstage hregion]

theorem SameButPlace.override {env env' : Environment} {c c' : Config} (h : SameButPlace c c')
    (henv : SameVariables env env') : SameButPlace (c.override env) (c'.override env') := by
  unfold SameButPlace at *
  rw [h]
  simp [Config.override, overrideDeploy, henv.setting]

theorem SameButPlace.withRegion {c c' : Config} (h : SameButPlace c c') (region : Option String) :
    SameButPlace (CommandLine.withRegion region c) (CommandLine.withRegion region c') := by
  unfold SameButPlace at *
  cases region with
  | none => exact h
  | some r =>
    rw [h]
    rfl

/-- The settings of a project whose configured stage is allowed. -/
def settingsWith (c : Config) (root : Path) (stage : Stage) : Settings where
  projectRoot := root
  defaultStage := stage
  buildDir := root.join c.deploy.buildDir
  descriptorDir := root.join c.deploy.descriptorDir
  stateDir := root.join c.deploy.stateDir
  uploadConcurrency := max c.deploy.uploadConcurrency 1
  poll := ⟨seconds c.polling.interval, seconds c.polling.timeout⟩
  exports := .ofAttempts c.exports.attempts (seconds c.exports.interval)

theorem settings_eq (c : Config) (root : Path) :
    c.settings root = (Stage.named c.deploy.stage).map (c.settingsWith root) := by
  rw [settings]
  cases Stage.named c.deploy.stage <;> rfl

theorem SameButPlace.settingsWith {c c' : Config} (h : SameButPlace c c') (root : Path)
    (stage stage' : Stage) :
    c'.settingsWith root stage' = { c.settingsWith root stage with defaultStage := stage' } := by
  rw [h]
  rfl

end Config

namespace CommandLine

open Config

/-! ## What a command runs with -/

/-- What a command runs with, from the files, the environment and the arguments. -/
def loadContext (t : FileTree) (env : Environment) (a : Arguments) : Except Trouble Context := do
  (← configure t env a).context a

/-- The document of the configuration file, which is empty if the project has no file. -/
def document? (t : FileTree) (root : Path) (a : Arguments) : Option (List (String × Toml)) :=
  match a.config with
  | some file => read (root.joinText file)
  | none =>
    let file := root.joinText configFileName
    if t.exists? file then read file else some []
where
  /-- The document in a file. -/
  read (file : Path) : Option (List (String × Toml)) :=
    (t.readText file).toOption.bind Toml.parse?

/-- The stage where no flag gives one. -/
def lowerStage (env : Environment) (doc : List (String × Toml)) : String :=
  (env.get? "LIFTOFF_STAGE").getD ((givenText? doc "stage").getD DeploySection.standard.stage)

/-- The region where no flag gives one. -/
def lowerRegion? (env : Environment) (doc : List (String × Toml)) : Option String :=
  (env.get? "LIFTOFF_REGION").or (givenText? doc "region")

section

variable {t : FileTree} {env : Environment} {a : Arguments} {root : Path}
  {doc : List (String × Toml)} {l : Loaded}

theorem load_eq_ok {file : Path} (hdoc : document?.read t file = some doc)
    (hread : readKeys ⟨.standard, []⟩ doc = some l) :
    ∃ warnings, Config.load t file = .ok (l.config, warnings) := by
  obtain ⟨content, hcontent, hparse⟩ := Option.bind_eq_some_iff.1 hdoc
  have htext : t.readText file = .ok content := by
    cases h : t.readText file with
    | error e =>
      rw [h] at hcontent
      cases hcontent
    | ok c =>
      rw [h] at hcontent
      exact congrArg Except.ok (Option.some.inj hcontent)
  have hloaded : Config.parse? content = some l := by
    rw [Config.parse?, hparse, Option.bind_some, hread]
  rw [Config.load, Outcome.mapError_eq_ok.2 htext, Outcome.ok_bind]
  simp only [hloaded]
  exact ⟨_, rfl⟩

variable (env) in
/-- The configuration is the one of the document under the environment and the flag. -/
theorem configure_eq_ok (hroot : t.canonical (.ofString a.projectDir) = .ok root)
    (hdoc : document? t root a = some doc) (hread : readKeys ⟨.standard, []⟩ doc = some l) :
    ∃ warnings, configure t env a =
      .ok ⟨root, withRegion a.region (l.config.override env), warnings⟩ := by
  unfold document? at hdoc
  rw [configure, Outcome.mapError_eq_ok.2 hroot, Outcome.ok_bind]
  cases hfile : a.config with
  | some file =>
    rw [hfile] at hdoc
    obtain ⟨warnings, hloaded⟩ := load_eq_ok hdoc hread
    refine ⟨warnings, ?_⟩
    simp only [Outcome.mapError_eq_ok.2 hloaded, Outcome.ok_bind]
    rfl
  | none =>
    have hloaded : ∃ warnings, ofProject t env root = .ok (l.config.override env, warnings) := by
      simp only [hfile] at hdoc
      rw [ofProject]
      split at hdoc
      · rename_i hexists
        obtain ⟨warnings, hload⟩ := load_eq_ok hdoc hread
        exact ⟨warnings, by rw [if_pos hexists, loadUnder, hload]; rfl⟩
      · rename_i hexists
        cases hdoc
        cases hread
        simp only [hexists]
        exact ⟨[], rfl⟩
    obtain ⟨warnings, hloaded⟩ := hloaded
    refine ⟨warnings, ?_⟩
    simp only [Outcome.mapError_eq_ok.2 hloaded, Outcome.ok_bind, override_override]
    rfl

/-- What a command runs with: the stage below the flag is checked, and then the one that the flag
gives. -/
theorem loadContext_eq (hroot : t.canonical (.ofString a.projectDir) = .ok root)
    (hdoc : document? t root a = some doc) (hread : readKeys ⟨.standard, []⟩ doc = some l) :
    loadContext t env a =
      let c := withRegion a.region (l.config.override env)
      ((Stage.named c.deploy.stage).mapError Trouble.failed).bind fun lower =>
        ((Stage.named (a.stage.getD c.deploy.stage)).mapError Trouble.failed).map fun stage =>
          ⟨c, c.settingsWith root lower, stage⟩ := by
  obtain ⟨warnings, hconfigure⟩ := configure_eq_ok env hroot hdoc hread
  rw [loadContext, hconfigure]
  simp only [bind, Except.bind, Configured.context, settings_eq]
  cases hlower : Stage.named (withRegion a.region (l.config.override env)).deploy.stage with
  | error e => rfl
  | ok lower =>
    cases a.stage with
    | none =>
      simp only [Option.getD_none, hlower]
      rfl
    | some name =>
      simp only [Option.getD_some]
      cases Stage.named name <;> rfl

theorem stage_withRegion (region : Option String) (c : Config) :
    (withRegion region c).deploy.stage = c.deploy.stage := by
  cases region <;> rfl

theorem region_withRegion (region : Option String) (c : Config) :
    (withRegion region c).deploy.region = region.or c.deploy.region := by
  cases region <;> rfl

theorem stage_override (hread : readKeys ⟨.standard, []⟩ doc = some l) :
    (l.config.override env).deploy.stage = lowerStage env doc := by
  have hstage := (texts_of_deployOf? (deployOf?_of_readKeys hread)).1
  change setting env "LIFTOFF_STAGE" some l.config.deploy.stage = _
  rw [setting, hstage, lowerStage]
  cases env.get? "LIFTOFF_STAGE" <;> rfl

theorem region_override (hread : readKeys ⟨.standard, []⟩ doc = some l) :
    (l.config.override env).deploy.region = lowerRegion? env doc := by
  have hregion := (texts_of_deployOf? (deployOf?_of_readKeys hread)).2
  change setting env "LIFTOFF_REGION" (fun s => some (some s)) l.config.deploy.region = _
  rw [setting, hregion, lowerRegion?]
  cases env.get? "LIFTOFF_REGION" <;> rfl

end

theorem named_of_isStageName {name : String} (h : isStageName name = true) :
    Stage.named name = .ok ⟨name, h⟩ := by
  rw [Stage.named, Stage.ofName?, dif_pos h]

theorem named_eq_ok {name : String} {stage : Stage} :
    Stage.named name = .ok stage ↔ stage.name = name := by
  constructor
  · intro h
    rw [Stage.named, Stage.ofName?] at h
    split at h
    · rename_i hsome
      split at hsome
      · cases hsome
        cases h
        rfl
      · cases hsome
    · cases h
  · rintro rfl
    exact named_of_isStageName stage.valid

/-- Two ends of loading that no command can tell apart: the same failure, or what differs in the
configured stage and region alone. -/
inductive Alike (a : Arguments) : Except Trouble Context → Except Trouble Context → Prop where
  | failed (e : Trouble) : Alike a (.error e) (.error e)
  | loaded {x x' : Context} (stage : x'.stage = x.stage)
      (region : x'.config.deploy.region = x.config.deploy.region)
      (config : SameButPlace x.config x'.config)
      (settings : x'.settings = { x.settings with defaultStage := x'.settings.defaultStage })
      (runs : ∀ env warnings patience t,
        runLocked env a x' warnings patience t = runLocked env a x warnings patience t) :
      Alike a (.ok x) (.ok x')

theorem runLocked_congr {a : Arguments} {x x' : Context} (hstage : x'.stage = x.stage)
    (hconfig : SameButPlace x.config x'.config)
    (hsettings : x'.settings = { x.settings with defaultStage := x'.settings.defaultStage })
    (env : Environment) (warnings : List ConfigWarning) (patience : Nat) (t : FileTree) :
    runLocked env a x' warnings patience t = runLocked env a x warnings patience t := by
  obtain ⟨c, s, stage⟩ := x
  obtain ⟨c', s', stage'⟩ := x'
  simp only at hstage hconfig hsettings
  rw [hstage, hconfig, hsettings]
  rfl

section

variable {t t' : FileTree} {env env' : Environment} {a : Arguments} {root : Path}
  {doc doc' : List (String × Toml)} {l : Loaded}

/-- A load that succeeds checked the stage below the flag, and the one that it ends with. -/
theorem loadContext_eq_ok (hroot : t.canonical (.ofString a.projectDir) = .ok root)
    (hdoc : document? t root a = some doc) (hread : readKeys ⟨.standard, []⟩ doc = some l)
    {x : Context} :
    loadContext t env a = .ok x ↔
      ∃ lower : Stage, lower.name = lowerStage env doc ∧
        x.stage.name = a.stage.getD (lowerStage env doc) ∧
        x.config = withRegion a.region (l.config.override env) ∧
        x.settings = (withRegion a.region (l.config.override env)).settingsWith root lower := by
  rw [loadContext_eq hroot hdoc hread]
  simp only [stage_withRegion, stage_override hread]
  constructor
  · intro h
    cases hlower : Stage.named (lowerStage env doc) with
    | error e =>
      rw [hlower] at h
      cases h
    | ok lower =>
      cases hstage : Stage.named (a.stage.getD (lowerStage env doc)) with
      | error e =>
        rw [hlower, hstage] at h
        cases h
      | ok stage =>
        rw [hlower, hstage] at h
        cases h
        exact ⟨lower, named_eq_ok.1 hlower, named_eq_ok.1 hstage, rfl, rfl⟩
  · obtain ⟨c, settings, stage⟩ := x
    rintro ⟨lower, hlower, hstage, rfl, rfl⟩
    rw [named_eq_ok.2 hlower, named_eq_ok.2 hstage]
    rfl

theorem exists_loadContext_iff (hroot : t.canonical (.ofString a.projectDir) = .ok root)
    (hdoc : document? t root a = some doc) (hread : readKeys ⟨.standard, []⟩ doc = some l) :
    (∃ x, loadContext t env a = .ok x) ↔
      isStageName (lowerStage env doc) = true ∧
        ∀ name, a.stage = some name → isStageName name = true := by
  constructor
  · rintro ⟨x, hx⟩
    obtain ⟨lower, hlower, hstage, -⟩ := (loadContext_eq_ok hroot hdoc hread).1 hx
    refine ⟨hlower ▸ lower.valid, fun name hname => ?_⟩
    rw [hname, Option.getD_some] at hstage
    exact hstage ▸ x.stage.valid
  · rintro ⟨hlower, hflag⟩
    have hstage : isStageName (a.stage.getD (lowerStage env doc)) = true := by
      cases hname : a.stage with
      | none => exact hlower
      | some name => exact hflag name hname
    exact ⟨⟨_, _, ⟨_, hstage⟩⟩,
      (loadContext_eq_ok hroot hdoc hread).2 ⟨⟨_, hlower⟩, rfl, rfl, rfl, rfl⟩⟩

variable (env) in
/-- A flag stands above the environment, the environment above the configuration file, and the
file above what holds where nothing is configured. A load succeeds if the stage is allowed that
holds without the flag, and the flag's. Then no other stage and region below the flags makes a
difference: neither in the file nor in the environment. -/
theorem flags_prevail (hroot : t.canonical (.ofString a.projectDir) = .ok root)
    (hdoc : document? t root a = some doc) (hread : readKeys ⟨.standard, []⟩ doc = some l) :
    (∀ x, loadContext t env a = .ok x →
      x.stage.name = a.stage.getD (lowerStage env doc) ∧
        x.config.deploy.region = a.region.or (lowerRegion? env doc)) ∧
      ((∃ x, loadContext t env a = .ok x) ↔
        isStageName (lowerStage env doc) = true ∧
          ∀ name, a.stage = some name → isStageName name = true) ∧
      ∀ name region t' env' doc', a.stage = some name → a.region = some region →
        t'.canonical (.ofString a.projectDir) = .ok root → document? t' root a = some doc' →
        Retold doc doc' → SameVariables env env' →
        isStageName (lowerStage env doc) = true → isStageName (lowerStage env' doc') = true →
          Alike a (loadContext t env a) (loadContext t' env' a) := by
  refine ⟨fun x hx => ?_, exists_loadContext_iff hroot hdoc hread, ?_⟩
  · obtain ⟨-, -, hstage, hconfig, -⟩ := (loadContext_eq_ok hroot hdoc hread).1 hx
    exact ⟨hstage, by rw [hconfig, region_withRegion, region_override hread]⟩
  · intro name region t' env' doc' hname hregion hroot' hdoc' hretold hvars hlower hlower'
    obtain ⟨l', hread', hsame⟩ := readKeys_retold hretold hread
    have hc := (hsame.override hvars).withRegion a.region
    rw [loadContext_eq hroot hdoc hread, loadContext_eq hroot' hdoc' hread']
    simp only [stage_withRegion, stage_override hread, stage_override hread', hname,
      Option.getD_some, named_of_isStageName hlower, named_of_isStageName hlower']
    cases Stage.named name with
    | error e => exact .failed _
    | ok stage =>
      have hsettings := hc.settingsWith root ⟨_, hlower⟩ ⟨_, hlower'⟩
      refine .loaded rfl ?_ hc hsettings (runLocked_congr rfl hc hsettings)
      simp only [region_withRegion, hregion, Option.some_or]

end

namespace Sample

/-- A project in a directory of its own, with the text of its configuration file. -/
def project (text : String) : FileTree :=
  ⟨[(["p"], .dir), (["p", "liftoff.toml"], .file text.toUTF8)], [], []⟩

/-- The directory of the project. -/
def root : Path := ⟨["", "p"]⟩

/-- A plan for a stage and a region that flags give. -/
def flagged : Arguments :=
  { command := .plan
    stage := some "prod"
    region := some "north"
    skipHooks := false
    json := false
    verbose := 0
    projectDir := "/p"
    config := none }

/-- A file that tells a stage and a region. -/
def placed : String := "[deploy]\nstage = \"qa\"\nregion = \"east\"\nbuild_dir = \"out\"\n"

/-- A file that tells another stage and no region. -/
def unplaced : String := "[deploy]\nbuild_dir = \"out\"\nstage = \"dev\"\n"

/-- A file that tells a stage that is not allowed. -/
def misplaced : String := "[deploy]\nbuild_dir = \"out\"\nstage = \"q a\"\n"

/-- The document of a file with a stage and a region. -/
def placedDoc : List (String × Toml) :=
  [("deploy", .table [("stage", .str "qa"), ("region", .str "east"), ("build_dir", .str "out")])]

/-- The document of a file with a stage and no region. -/
def unplacedDoc (stage : String) : List (String × Toml) :=
  [("deploy", .table [("build_dir", .str "out"), ("stage", .str stage)])]

theorem canonical_project (text : String) :
    (project text).canonical (.ofString flagged.projectDir) = .ok root := rfl

theorem document_project {text : String} {doc : List (String × Toml)}
    (h : Toml.parse? text = some doc) : document? (project text) root flagged = some doc := by
  have hexists : (project text).exists? (root.joinText configFileName) = true := rfl
  have hread : (project text).read (root.joinText configFileName) = .ok text.toUTF8 := rfl
  have htext : (project text).readText (root.joinText configFileName) = .ok text := by
    rw [FileTree.readText, hread]
    simp only [bind, Except.bind, Text.fromUTF8?_toUTF8]
    rfl
  change (if (project text).exists? (root.joinText configFileName) then
    document?.read (project text) (root.joinText configFileName) else some []) = some doc
  rw [hexists, if_pos rfl, document?.read, htext]
  exact h

theorem document_placed : document? (project placed) root flagged = some placedDoc :=
  document_project (by decide +kernel)

theorem document_unplaced : document? (project unplaced) root flagged = some (unplacedDoc "dev") :=
  document_project (by decide +kernel)

theorem document_misplaced :
    document? (project misplaced) root flagged = some (unplacedDoc "q a") :=
  document_project (by decide +kernel)

/-- Any text for the stage, and none for the region, in place of what was told. -/
theorem retold_placed (stage : String) : Retold placedDoc (unplacedDoc stage) where
  beside := rfl
  only := by
    intro v hv
    cases hv with
    | head => exact ⟨rfl, rfl⟩
    | tail _ hv => cases hv
  same := by
    intro key hkey hstage hregion
    simp only [deployKeys, List.mem_cons, List.not_mem_nil, or_false] at hkey
    obtain rfl | rfl | rfl | rfl | rfl | rfl := hkey <;> first | rfl | contradiction
  texts := by
    rintro key (rfl | rfl) v hv
    · exact ⟨stage, (Option.some.inj hv).symm⟩
    · cases hv

theorem readKeys_placed : ∃ l, readKeys ⟨.standard, []⟩ placedDoc = some l := ⟨_, rfl⟩

end Sample

open Sample

/-- A plan in a project whose file and environment tell one stage and region, and in a project whose
file and environment tell others. -/
theorem flags_prevail_sample :
    (∃ x, loadContext (project placed) [("LIFTOFF_REGION", "west")] flagged = .ok x ∧
      x.stage.name = "prod" ∧ x.config.deploy.region = some "north") ∧
      Alike flagged (loadContext (project placed) [("LIFTOFF_REGION", "west")] flagged)
        (loadContext (project unplaced) [("LIFTOFF_STAGE", "test")] flagged) := by
  obtain ⟨l, hread⟩ := readKeys_placed
  obtain ⟨hvalues, hloads, halike⟩ :=
    flags_prevail [("LIFTOFF_REGION", "west")] (canonical_project placed) document_placed
      hread
  have hlower : isStageName (lowerStage [("LIFTOFF_REGION", "west")] placedDoc) = true := by decide
  obtain ⟨x, hx⟩ := hloads.2 ⟨hlower, by rintro name ⟨⟩; decide⟩
  obtain ⟨hstage, hregion⟩ := hvalues x hx
  have hflags : flagged.stage = some "prod" ∧ flagged.region = some "north" := ⟨rfl, rfl⟩
  rw [hflags.1, Option.getD_some] at hstage
  rw [hflags.2, Option.some_or] at hregion
  refine ⟨⟨x, hx, hstage, hregion⟩, ?_⟩
  have hvars : SameVariables [("LIFTOFF_REGION", "west")] [("LIFTOFF_STAGE", "test")] := by
    intro name hstage hregion
    simp [TextMap.get?, hstage.symm, hregion.symm]
  exact halike "prod" "north" _ _ _ rfl rfl (canonical_project unplaced) document_unplaced
    (retold_placed "dev") hvars hlower (by decide)

/-- A stage in the file that is not allowed stops a run whose stage and region flags give. -/
theorem lower_stage_prevails :
    Retold placedDoc (unplacedDoc "q a") ∧
      (∃ x, loadContext (project placed) [] flagged = .ok x) ∧
      loadContext (project misplaced) [] flagged = .error (.failed (.invalidStage "q a")) := by
  obtain ⟨l, hread⟩ := readKeys_placed
  obtain ⟨l', hread', -⟩ := readKeys_retold (retold_placed "q a") hread
  have hlower : isStageName (lowerStage [] placedDoc) = true := by decide
  refine ⟨retold_placed "q a", ?_, ?_⟩
  · exact (exists_loadContext_iff (canonical_project placed) document_placed hread).2
      ⟨hlower, by rintro name ⟨⟩; decide⟩
  · have hnamed : Stage.named (lowerStage [] (unplacedDoc "q a")) = .error (.invalidStage "q a") :=
      rfl
    rw [loadContext_eq (canonical_project misplaced) document_misplaced hread']
    simp only [stage_withRegion, stage_override hread', hnamed]
    rfl

end CommandLine

end Rollout
