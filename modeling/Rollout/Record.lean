import Rollout.Function
import Rollout.TextMap

/-!
The deployment record of a stage: which version of each function was deployed last, with the
fingerprint it had then. The record is believed only while the marker in the deployment bucket
names the same compilation.
-/

namespace Rollout

/-- A deployed function: its version, and its fingerprint if it had one. -/
structure Deployed where
  version : FunctionVersion
  hash : Option ContentHash
deriving DecidableEq

/-- Whether a fingerprint is the recorded one; two missing fingerprints do not agree. -/
def Deployed.isCurrent (d : Deployed) (hash : Option ContentHash) : Bool :=
  match d.hash, hash with
  | some recorded, some current => recorded = current
  | _, _ => false

/-- What was deployed last in a stage. -/
structure Record where
  format : Nat
  timestamp : Option String
  functions : TextMap Deployed
deriving DecidableEq

namespace Record

/-- The format of the records written today. -/
def currentFormat : Nat := 1

/-- The record of a stage where nothing was deployed. -/
def empty : Record := ⟨currentFormat, none, []⟩

instance : Inhabited Record := ⟨empty⟩

/-- The record of a compilation about to be deployed. -/
def ofCompilation (timestamp : String) : Record := { empty with timestamp := some timestamp }

/-- The entry of a function. -/
def get? (r : Record) (entryPoint : String) : Option Deployed :=
  TextMap.get? entryPoint r.functions

/-- The record with the entry of a function set. -/
def set (r : Record) (entryPoint : String) (d : Deployed) : Record :=
  { r with functions := TextMap.insert entryPoint d r.functions }

/-- Whether the marker vouches for the record: both name the same compilation. -/
def isTrustedBy (r : Record) (marker : Option String) : Bool :=
  match r.timestamp, marker with
  | some mine, some theirs => mine = theirs
  | _, _ => false

end Record

end Rollout
