import Rollout.Files.Path
import Rollout.Text.EditDistance

/-!
Warnings about keys of the configuration file that nobody knows: where the key seems to be, and
which known key may have been meant.
-/

namespace Rollout

/-- An unknown key of a configuration file. -/
structure ConfigWarning where
  key : String
  file : Path
  /-- The line, counted from one, if the key was found. -/
  line : Option Nat
  suggestion : Option String
deriving DecidableEq, Repr

namespace ConfigWarning

/-- The text of a warning. -/
def text (w : ConfigWarning) : String :=
  "unknown key '" ++ w.key ++ "' in " ++ w.file.text ++
    (match w.line with
      | some line => ":" ++ toString line
      | none => "") ++
    match w.suggestion with
    | some known => " (did you mean '" ++ known ++ "'?)"
    | none => ""

/-- The names of all known keys and sections. -/
def knownNames : List String :=
  ["deploy", "region", "stage", "build_dir", "descriptor_dir", "state_dir",
   "upload_concurrency", "polling", "interval_secs", "timeout_secs", "exports", "attempts",
   "provider", "kind", "root", "endpoint"]

/-- How far a suggestion may be from what was written. -/
def suggestionDistance : Nat := 2

/-- The first of the names nearest to a text, with its distance. -/
def nearest (text : String) : List String → Option (String × Nat)
  | [] => none
  | name :: names =>
    let distance := Text.editDistance text name
    match nearest text names with
    | some (other, d) => if d < distance then some (other, d) else some (name, distance)
    | none => some (name, distance)

/-- The known name that may have been meant. -/
def suggestion? (unknown : String) : Option String :=
  match nearest unknown knownNames with
  | some (name, distance) => if distance ≤ suggestionDistance then some name else none
  | none => none

/-- The number of the first line that holds a text. -/
def lineOf? (part content : String) : Option Nat :=
  ((Text.lines content).findIdx? fun line => Text.occursIn part.toList line.toList).map (· + 1)

/-- The warning about an unknown key of a file with a given content. The last name of the key is
what is looked for. -/
def ofKey (file : Path) (content key : String) : ConfigWarning :=
  let name := (Text.splitString '.' key).getLastD key
  ⟨key, file, lineOf? name content, suggestion? name⟩

end ConfigWarning

end Rollout
