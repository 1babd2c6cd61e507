/-!
Cutting text into pieces and putting pieces together. `split` keeps every character that is
not a separator, so joining the pieces again gives the text back; `lines` follows the usual
reading of a text file, where a line feed ends a line and does not start one.
-/

namespace Rollout.Text

/-- The pieces of a text between separators: always one more piece than separators. -/
def split (sep : Char) : List Char → List (List Char)
  | [] => [[]]
  | c :: cs =>
    if c = sep then [] :: split sep cs
    else
      match split sep cs with
      | [] => [[c]]
      | piece :: pieces => (c :: piece) :: pieces

/-- `split` on strings. -/
def splitString (sep : Char) (text : String) : List String :=
  (split sep text.toList).map String.ofList

/-- The pieces with `sep` written between neighbours. -/
def join (sep : String) : List String → String
  | [] => ""
  | [piece] => piece
  | piece :: pieces => piece ++ sep ++ join sep pieces

/-- The text before and after the first separator, when there is one. -/
def splitFirst (sep : Char) : List Char → Option (List Char × List Char)
  | [] => none
  | c :: cs =>
    if c = sep then some ([], cs)
    else (splitFirst sep cs).map fun (before, after) => (c :: before, after)

/-- What follows `start` in a text that begins with it. -/
def after? : List Char → List Char → Option (List Char)
  | [], text => some text
  | _ :: _, [] => none
  | p :: start, c :: text => if p = c then after? start text else none

/-- Whether a text begins with `start`. -/
def startsWith (start text : String) : Bool :=
  (after? start.toList text.toList).isSome

/-- Whether a text ends with `tail`. -/
def endsWith (tail text : String) : Bool :=
  (after? tail.toList.reverse text.toList.reverse).isSome

/-- Whether `part` occurs in a text. -/
def occursIn (part : List Char) : List Char → Bool
  | [] => part.isEmpty
  | c :: text => (after? part (c :: text)).isSome || occursIn part text

/-- A text cut behind the first occurrence of `part`, when there is one. -/
def cutAfter? (part : List Char) : List Char → Option (List Char × List Char)
  | [] => if part.isEmpty then some ([], []) else none
  | c :: text =>
    match after? part (c :: text) with
    | some rest => some (part, rest)
    | none => (cutAfter? part text).map fun (before, rest) => (c :: before, rest)

/-- A piece without its closing carriage return, if it has one. -/
def dropCarriageReturn (line : List Char) : List Char :=
  match line.reverse with
  | '\r' :: rest => rest.reverse
  | _ => line

/-- The lines among the pieces between line feeds. The last piece was not ended by a line
feed: it is a line only if it holds a character, and it keeps a carriage return. -/
def linesOfPieces : List (List Char) → List (List Char)
  | [] => []
  | [last] => if last.isEmpty then [] else [last]
  | piece :: pieces => dropCarriageReturn piece :: linesOfPieces pieces

/-- The lines of a text, ended by a line feed or by a carriage return and a line feed. -/
def lines (text : String) : List String :=
  (linesOfPieces (split '\n' text.toList)).map String.ofList

theorem split_ne_nil (sep : Char) (cs : List Char) : split sep cs ≠ [] := by
  cases cs with
  | nil => simp [split]
  | cons c cs =>
    unfold split
    split
    · simp
    · split <;> simp

end Rollout.Text
