import Rollout.Config
import Rollout.Toml.Document

/-!
The configuration as a TOML document. A section is a table, of which some keys are known, or an
array of their values in the order of the section. Keys nobody knows are reported and change
nothing.
-/

namespace Rollout

namespace Config

/-- The members a value holds if it is a table. A date counts as a table with one key. -/
def tableOf? : Toml → Option (List (String × Toml))
  | .table members => some members
  | .date text => some [("$__toml_private_datetime", .str text)]
  | _ => none

/-- The values given for the known keys of a section, and the keys that are not known. -/
structure SectionText where
  values : List (Option Toml)
  unknown : List String

/-- What a value gives for the keys of a section, in their order. -/
def sectionText? (known : List String) (v : Toml) : Option SectionText :=
  match v with
  | .arr items => some ⟨known.mapIdx fun i _ => items[i]?, []⟩
  | v =>
    (tableOf? v).map fun members =>
      ⟨known.map fun key => Toml.member? key members,
        (members.map (·.1)).filter fun key => !known.contains key⟩

/-- A value, or the standard one where none is given. -/
def orStandard {α : Type} (read : Toml → Option α) (standard : α) : Option Toml → Option α
  | none => some standard
  | some v => read v

/-- A string. -/
def string? : Toml → Option String
  | .str s => some s
  | _ => none

/-- A string for a setting that may have none. -/
def someString? (v : Toml) : Option (Option String) := (string? v).map some

/-- A path. -/
def path? (v : Toml) : Option Path := (string? v).map Path.ofString

/-- A natural number below `bound`. -/
def natBelow? (bound : Nat) : Toml → Option Nat
  | .int (.ofNat n) => if n < bound then some n else none
  | _ => none

/-- A count or a time of 64 bits. -/
def count? : Toml → Option Nat := natBelow? UInt64.size

/-- Whether a value holds nothing. -/
def isHollow : Toml → Bool
  | .table [] | .arr [] => true
  | _ => false

/-- A kind of cloud: its name, or a table with its name as the only key and nothing in it. -/
def providerKind? : Toml → Option ProviderKind
  | .str text => ProviderKind.ofText? text
  | .table [(name, v)] => if isHollow v then ProviderKind.ofText? name else none
  | _ => none

/-- The section of a value, read by `fields` from the values of the known keys, and the keys that
are not known. -/
def readSection {α : Type} (known : List String) (fields : List (Option Toml) → Option α)
    (v : Toml) : Option (α × List String) :=
  (sectionText? known v).bind fun text => (fields text.values).map fun a => (a, text.unknown)

/-- The section about the deploy. -/
def deploySection? : Toml → Option (DeploySection × List String) :=
  readSection ["region", "stage", "build_dir", "descriptor_dir", "state_dir",
    "upload_concurrency"] fun
  | [region, stage, buildDir, descriptorDir, stateDir, concurrency] => do
    let d := DeploySection.standard
    return {
      region := ← orStandard someString? d.region region
      stage := ← orStandard string? d.stage stage
      buildDir := ← orStandard path? d.buildDir buildDir
      descriptorDir := ← orStandard path? d.descriptorDir descriptorDir
      stateDir := ← orStandard path? d.stateDir stateDir
      uploadConcurrency := ← orStandard count? d.uploadConcurrency concurrency }
  | _ => none

/-- The section about polling. -/
def pollingSection? : Toml → Option (PollingSection × List String) :=
  readSection ["interval_secs", "timeout_secs"] fun
  | [interval, timeout] => do
    let d := PollingSection.standard
    return ⟨← orStandard count? d.interval interval, ← orStandard count? d.timeout timeout⟩
  | _ => none

/-- The section about exports; attempts are counted in 32 bits. -/
def exportsSection? : Toml → Option (ExportsSection × List String) :=
  readSection ["attempts", "interval_secs"] fun
  | [attempts, interval] => do
    let d := ExportsSection.standard
    return ⟨← orStandard (natBelow? UInt32.size) d.attempts attempts,
      ← orStandard count? d.interval interval⟩
  | _ => none

/-- The section about the provider. -/
def providerSection? : Toml → Option (ProviderSection × List String) :=
  readSection ["kind", "root", "endpoint"] fun
  | [kind, root, endpoint] => do
    let d := ProviderSection.standard
    return ⟨← orStandard providerKind? d.kind kind, ← orStandard path? d.root root,
      ← orStandard someString? d.endpoint endpoint⟩
  | _ => none

/-- A configuration with some of its sections set, and the unknown keys met so far. -/
structure Loaded where
  config : Config
  unknown : List String

/-- The unknown keys of a section by their full names. -/
def qualified (name : String) (keys : List String) : List String :=
  keys.map fun key => name ++ "." ++ key

/-- The configuration after one more key of the document. -/
def readKey (l : Loaded) (name : String) (v : Toml) : Option Loaded :=
  if name = "deploy" then
    (deploySection? v).map fun (s, keys) =>
      ⟨{ l.config with deploy := s }, l.unknown ++ qualified name keys⟩
  else if name = "polling" then
    (pollingSection? v).map fun (s, keys) =>
      ⟨{ l.config with polling := s }, l.unknown ++ qualified name keys⟩
  else if name = "exports" then
    (exportsSection? v).map fun (s, keys) =>
      ⟨{ l.config with exports := s }, l.unknown ++ qualified name keys⟩
  else if name = "provider" then
    (providerSection? v).map fun (s, keys) =>
      ⟨{ l.config with provider := s }, l.unknown ++ qualified name keys⟩
  else some { l with unknown := l.unknown ++ [name] }

/-- The configuration after the keys of a document. -/
def readKeys (l : Loaded) : List (String × Toml) → Option Loaded
  | [] => some l
  | (name, v) :: rest => (readKey l name v).bind fun l => readKeys l rest

/-- The configuration of a text, with the unknown keys in the order of the text. -/
def parse? (text : String) : Option Loaded :=
  (Toml.parse? text).bind (readKeys ⟨.standard, []⟩)

end Config

end Rollout
