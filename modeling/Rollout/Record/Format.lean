import Rollout.Record
import Rollout.Failure
import Rollout.Toml.Document
import Rollout.Toml.Printer

/-!
Deployment records as TOML documents, written and read. A document gives its format, the
compilation it is about, and a table for each function.
-/

namespace Rollout

open Toml

/-- What is wrong with the text of a record. -/
inductive RecordFault where
  | unreadable
  | format (found : Nat)
deriving DecidableEq, Repr

namespace Record

/-- A line that gives a string to a key. -/
def stringLine (key value : String) : List Char :=
  key.toList ++ [' ', '=', ' '] ++ valueText value ++ ['\n']

/-- The table of a function. -/
def functionTable (entryPoint : String) (d : Deployed) : List Char :=
  "\n[functions.".toList ++ keyText entryPoint ++ [']', '\n'] ++
    stringLine "version" d.version.key ++
    match d.hash with
    | some hash => stringLine "hash" hash.text
    | none => []

/-- The tables of all functions; without any, one that holds none. -/
def functionTables (functions : TextMap Deployed) : List Char :=
  match functions with
  | [] => "\n[functions]\n".toList
  | fs => fs.flatMap fun (entryPoint, d) => functionTable entryPoint d

/-- The characters of a record. -/
def chars (r : Record) : List Char :=
  "version = ".toList ++ Nat.toDigits 10 r.format ++ ['\n'] ++
    (match r.timestamp with
      | some timestamp => stringLine "last_compilation_timestamp" timestamp
      | none => []) ++
    functionTables r.functions

/-- The text of a record. -/
def text (r : Record) : String := String.ofList r.chars

/-- A string, if the value is one. -/
def stringOf? : Toml → Option String
  | .str s => some s
  | _ => none

/-- A string that may be missing. -/
def missingOrString? : Option Toml → Option (Option String)
  | none => some none
  | some v => (stringOf? v).map some

/-- A function from its version and its fingerprint. -/
def deployedOf (version : String) (hash : Option String) : Deployed :=
  ⟨⟨version⟩, hash.map ContentHash.ofText⟩

/-- The entry of a function: a table, or an array of the version and the fingerprint. -/
def deployedOf? : Toml → Option Deployed
  | .table members => do
    let version ← (member? "version" members).bind stringOf?
    let hash ← missingOrString? (member? "hash" members)
    return deployedOf version hash
  | .arr (version :: rest) => do
    let version ← stringOf? version
    let hash ← missingOrString? rest.head?
    return deployedOf version hash
  | _ => none

/-- The entries of a table of functions. -/
def functionsOf : List (String × Toml) → Option (TextMap Deployed)
  | [] => some []
  | (entryPoint, v) :: rest =>
    match deployedOf? v, functionsOf rest with
    | some d, some m => some (TextMap.insert entryPoint d m)
    | _, _ => none

/-- The functions of a record; they may be missing. -/
def functionsOf? : Option Toml → Option (TextMap Deployed)
  | none => some []
  | some (.table members) => functionsOf members
  | some _ => none

/-- A format number: 32 bits. -/
def formatOf? : Toml → Option Nat
  | .int (.ofNat n) => if n < UInt32.size then some n else none
  | _ => none

/-- The record that the members of a document describe, of whatever format. -/
def ofMembers? (members : List (String × Toml)) : Option Record := do
  let format ← (member? "version" members).bind formatOf?
  let timestamp ← missingOrString? (member? "last_compilation_timestamp" members)
  let functions ← functionsOf? (member? "functions" members)
  return ⟨format, timestamp, functions⟩

/-- The record a text holds; only the current format is understood. -/
def parse (text : String) : Except RecordFault Record :=
  match (Toml.parse? text).bind ofMembers? with
  | none => .error .unreadable
  | some r => if r.format = currentFormat then .ok r else .error (.format r.format)

end Record

end Rollout
