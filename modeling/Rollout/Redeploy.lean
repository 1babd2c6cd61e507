import Rollout.Project
import Rollout.Record
import Rollout.Substitution

/-!
Deciding what to redeploy. A function keeps its recorded version only if the record is trusted
and its fingerprint has not changed; every other function of the stage gets a fresh version.
The decision is made function by function, and everything a deploy needs to know is read off
the list of decisions.
-/

namespace Rollout

/-- Why every function is redeployed. -/
inductive FullReason where
  | firstDeployment
  | markerMismatch (mine : String) (theirs : Option String)
  | sharedArtifact
deriving DecidableEq, Repr

/-- Which functions are redeployed: the changed ones, or all. -/
inductive RedeployMode where
  | incremental
  | full (reason : FullReason)
deriving DecidableEq, Repr

/-- Whether only changed functions are redeployed. -/
def RedeployMode.isIncremental : RedeployMode → Bool
  | .incremental => true
  | .full _ => false

/-- The mode of a redeploy in one word. -/
def RedeployMode.kind : RedeployMode → String
  | .incremental => "incremental"
  | .full .firstDeployment => "first"
  | .full .sharedArtifact => "shared"
  | .full (.markerMismatch ..) => "mismatch"

/-- Why a function has no fingerprint. -/
inductive HashError where
  | notFound (entryPoint : String)
  | read (path : Path) (reason : String)
deriving DecidableEq, Repr

/-- The text of a missing fingerprint. -/
def HashError.message : HashError → String
  | .notFound entryPoint => "no compiled output found for entry point '" ++ entryPoint ++ "'"
  | .read path reason => "failed to read " ++ path.text ++ ": " ++ reason

/-- A function with its fingerprint, or the reason it has none. -/
abbrev Hashed := FunctionSpec × Except HashError ContentHash

/-- What becomes of a function. -/
inductive Decision where
  /-- Its recorded version stays. -/
  | reuse (deployed : Deployed)
  /-- It gets a fresh version. -/
  | deploy (deployed : Deployed)
deriving DecidableEq

/-- The version and the fingerprint a function has after the decision. -/
def Decision.deployed : Decision → Deployed
  | .reuse d => d
  | .deploy d => d

/-- Whether a function gets a fresh version. -/
def Decision.isDeploy : Decision → Bool
  | .reuse _ => false
  | .deploy _ => true

/-- An artifact to upload, and the version whose key it goes to. -/
structure ArtifactUpload where
  artifact : String
  version : FunctionVersion
deriving DecidableEq, Repr

/-- A function without a fingerprint, and why. -/
structure HashWarning where
  entryPoint : String
  message : String
deriving DecidableEq, Repr

/-- What a deploy of a stage is going to do. -/
structure RedeployPlan where
  mode : RedeployMode
  /-- The functions that get a fresh version. -/
  toDeploy : List FunctionSpec
  /-- The entry points that keep their version. -/
  reused : List String
  /-- The artifacts to upload. -/
  uploads : List ArtifactUpload
  /-- The record to save once the stack is updated. -/
  record : Record
  /-- The version of every active function, bound to its token. -/
  tokens : Substitutions
  hashWarnings : List HashWarning
  /-- The redeployed functions whose fresh version is the recorded one: their upload
  overwrites the artifact in use, and the stack template does not change. -/
  reissued : List String

namespace RedeployPlan

/-- How many functions are active in the stage. -/
def total (p : RedeployPlan) : Nat := p.toDeploy.length + p.reused.length

/-- The keys of the artifacts to upload. -/
def uploadKeys (p : RedeployPlan) : List String := p.uploads.map fun u => u.version.key

end RedeployPlan

namespace Redeploy

/-- How the functions to redeploy are chosen. -/
def mode (p : Project) (previous : Record) (marker : Option String) : RedeployMode :=
  if !p.assemble then .full .sharedArtifact
  else
    match previous.timestamp with
    | none => .full .firstDeployment
    | some mine =>
      if previous.isTrustedBy marker then .incremental
      else .full (.markerMismatch mine marker)

/-- The shared artifact that carries every function, if there is one. -/
def sharedArtifact? (p : Project) : Option String :=
  if p.assemble then none else p.sharedArtifact

/-- The version a function gets in this compilation. -/
def freshVersion (p : Project) (f : FunctionSpec) : FunctionVersion :=
  .mint p.timestamp ((sharedArtifact? p).getD f.artifact)

/-- The fingerprint of a function, if it has one. -/
def hash? (h : Hashed) : Option ContentHash :=
  match h.2 with
  | .ok hash => some hash
  | .error _ => none

/-- The recorded version that a function may keep. -/
def carried? (previous : Record) (incremental : Bool) (h : Hashed) : Option Deployed :=
  if incremental then
    (previous.get? h.1.entryPoint).filter fun d => d.isCurrent (hash? h)
  else none

/-- What becomes of a function. -/
def decide (p : Project) (previous : Record) (incremental : Bool) (h : Hashed) : Decision :=
  match carried? previous incremental h with
  | some d => .reuse d
  | none => .deploy ⟨freshVersion p h.1, hash? h⟩

/-- Every function with what becomes of it. -/
def decisions (p : Project) (previous : Record) (incremental : Bool) (hashed : List Hashed) :
    List (Hashed × Decision) :=
  hashed.map fun h => (h, decide p previous incremental h)

/-- The functions that get a fresh version. -/
def deployed (ds : List (Hashed × Decision)) : List FunctionSpec :=
  (ds.filter fun d => d.2.isDeploy).map fun d => d.1.1

/-- The functions that keep their version. -/
def kept (ds : List (Hashed × Decision)) : List FunctionSpec :=
  (ds.filter fun d => !d.2.isDeploy).map fun d => d.1.1

/-- The artifacts of the functions to deploy: one each, or one for all. -/
def uploads (p : Project) (fs : List FunctionSpec) : List ArtifactUpload :=
  match sharedArtifact? p with
  | some artifact => if fs.isEmpty then [] else [⟨artifact, .mint p.timestamp artifact⟩]
  | none => fs.map fun f => ⟨f.artifact, .mint p.timestamp f.artifact⟩

/-- The warning of a function without a fingerprint. -/
def warning? (h : Hashed) : Option HashWarning :=
  match h.2 with
  | .ok _ => none
  | .error e => some ⟨h.1.entryPoint, e.message⟩

/-- Whether the recorded version of a function is the fresh one. -/
def isReissued (p : Project) (previous : Record) (f : FunctionSpec) : Bool :=
  match previous.get? f.entryPoint with
  | some d => d.version = freshVersion p f
  | none => false

/-- The record of the decisions. -/
def record (timestamp : String) (ds : List (Hashed × Decision)) : Record :=
  ds.foldl (fun r d => r.set d.1.1.entryPoint d.2.deployed) (.ofCompilation timestamp)

/-- The version of each function, bound to its token. -/
def tokens (ds : List (Hashed × Decision)) : Substitutions :=
  .ofList (ds.map fun d => (d.1.1.versionToken, d.2.deployed.version.key))

/-- The plan for functions whose fingerprints are known. -/
def planHashed (p : Project) (previous : Record) (marker : Option String) (hashed : List Hashed) :
    RedeployPlan :=
  let m := mode p previous marker
  let ds := decisions p previous m.isIncremental hashed
  let toDeploy := deployed ds
  { mode := m
    toDeploy := toDeploy
    reused := (kept ds).map FunctionSpec.entryPoint
    uploads := uploads p toDeploy
    record := record p.timestamp ds
    tokens := tokens ds
    hashWarnings := hashed.filterMap warning?
    reissued := (toDeploy.filter (isReissued p previous)).map FunctionSpec.entryPoint }

/-- The plan for a stage, given how functions are fingerprinted. -/
def plan (p : Project) (stage : Stage) (previous : Record) (marker : Option String)
    (hasher : FunctionSpec → Except HashError ContentHash) : RedeployPlan :=
  planHashed p previous marker ((p.active stage).map fun f => (f, hasher f))

end Redeploy

end Rollout
