import Rollout.Files.Path

/-!
The configuration of a project, section by section, with the values that hold where nothing is
configured.
-/

namespace Rollout

/-- The kind of cloud a project is deployed to. -/
inductive ProviderKind where
  | onDisk
  | aws
deriving DecidableEq, Repr

/-- The name of a kind of cloud. -/
def ProviderKind.text : ProviderKind → String
  | .onDisk => "local"
  | .aws => "aws"

/-- The kind with a given name. -/
def ProviderKind.ofText? (text : String) : Option ProviderKind :=
  if text = "local" then some .onDisk
  else if text = "aws" then some .aws
  else none

/-- What is deployed, and from where. -/
structure DeploySection where
  region : Option String
  stage : String
  buildDir : Path
  descriptorDir : Path
  stateDir : Path
  uploadConcurrency : Nat
deriving DecidableEq, Repr

/-- How a stack is waited for, in seconds. -/
structure PollingSection where
  interval : Nat
  timeout : Nat
deriving DecidableEq, Repr

/-- How exports are looked up: attempts, and seconds between them. -/
structure ExportsSection where
  attempts : Nat
  interval : Nat
deriving DecidableEq, Repr

/-- Where the cloud is. -/
structure ProviderSection where
  kind : ProviderKind
  root : Path
  endpoint : Option String
deriving DecidableEq, Repr

/-- The configuration of a project. -/
structure Config where
  deploy : DeploySection
  polling : PollingSection
  exports : ExportsSection
  provider : ProviderSection
deriving DecidableEq, Repr

/-- The sections of a project that configures nothing. -/
def DeploySection.standard : DeploySection :=
  { region := none
    stage := "dev"
    buildDir := .ofString "build"
    descriptorDir := .ofString "build/liftoff"
    stateDir := .ofString ".liftoff"
    uploadConcurrency := 4 }

@[inherit_doc DeploySection.standard]
def PollingSection.standard : PollingSection := ⟨5, 3600⟩

@[inherit_doc DeploySection.standard]
def ExportsSection.standard : ExportsSection := ⟨15, 3⟩

@[inherit_doc DeploySection.standard]
def ProviderSection.standard : ProviderSection := ⟨.onDisk, .ofString ".liftoff/cloud", none⟩

/-- The configuration of a project that configures nothing. -/
def Config.standard : Config := ⟨.standard, .standard, .standard, .standard⟩

instance : Inhabited Config := ⟨.standard⟩

/-- The name of the configuration file in the directory of a project. -/
def configFileName : String := "liftoff.toml"

end Rollout
