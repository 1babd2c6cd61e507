import Rollout.Number.Decimal
import Rollout.Text.Blank
import Rollout.Text.Lowercase
import Rollout.Text.Split

/-!
Which log lines are shown. A filter is a list of directives, each a level for the lines whose
source begins with a given name; of the directives that fit a line the one with the longest name
counts.
-/

namespace Rollout.LogFilter

/-- The levels, from the fewest lines to the most. -/
def levelNames : List String := ["off", "error", "warn", "info", "debug", "trace"]

/-- The rank of warnings among the levels. -/
def warnRank : Nat := 2

/-- The rank of a level given by its name, in any case, or by its number. -/
def rank? (text : String) : Option Nat :=
  match levelNames.findIdx? fun name => name = Text.lowercase text with
  | some i => some i
  | none => (Number.parseBelow? levelNames.length text).filter fun _ => text.length = 1

/-- The filter of a run: the one asked for, if it is not blank, or a level that grows with the
verbosity from warnings (for a quiet run) or from infos. -/
def text (verbose : Nat) (quiet : Bool) (asked : Option String) : String :=
  match asked.filter fun t => !Text.isBlankText t with
  | some t => t
  | none =>
    let rank := warnRank + (if quiet then 0 else 1) + verbose
    "liftoff=" ++ levelNames.getD (min rank (levelNames.length - 1)) "trace"

/-- A directive: the start of the names it is about, and the rank up to which it shows. -/
structure Directive where
  source : String
  rank : Nat
deriving DecidableEq, Repr

/-- The directive of a text: a level, a name, or both. -/
def directive? (text : String) : Option Directive :=
  match rank? text with
  | some rank => some ⟨"", rank⟩
  | none =>
    match Text.splitFirst '=' text.toList with
    | none => some ⟨text, levelNames.length - 1⟩
    | some (source, level) =>
      (rank? (String.ofList level)).map fun rank => ⟨String.ofList source, rank⟩

/-- The directives of a filter; without any, errors are shown. -/
def directives (filter : String) : List Directive :=
  let ds := (Text.splitString ',' filter).filterMap fun part =>
    if part = "" then none else directive? part
  if ds.isEmpty then [⟨"", 1⟩] else ds

/-- The better of two directives: the one with the longer name, or the later. -/
def better (a b : Directive) : Directive := if b.source.length < a.source.length then a else b

/-- Whether a filter shows the lines of a rank from a source. -/
def shows (filter source : String) (rank : Nat) : Bool :=
  match (directives filter).filter fun d => Text.startsWith d.source source with
  | [] => false
  | d :: ds => rank ≤ (ds.foldl better d).rank

end Rollout.LogFilter
