import Rollout.Toml.Parser
import Rollout.Text.Hex

/-!
Writing strings and keys of a TOML document. Of the four ways to write a string the first that
suits it is taken: with the quotes that need no escapes, and over several lines only if the
string has line breaks or holds both kinds of quotes.
-/

namespace Rollout.Toml

/-- The four ways to write a string. -/
inductive Quoting where
  | basic
  | literal
  | longBasic
  | longLiteral
deriving DecidableEq, Repr

/-- A control character that only an escape can write. -/
def isControl (c : Char) : Bool :=
  (c.toNat < 0x20 || c.toNat = 0x7F) && c ≠ '\t' && c ≠ '\n'

/-- The longest run of a character in a text, given the run just before it. -/
def longestRun (q : Char) : (run : Nat) → List Char → Nat
  | run, [] => run
  | run, c :: cs => if c = q then longestRun q (run + 1) cs else max run (longestRun q 0 cs)

/-- How a string is written as a value. -/
def quotingOfValue (cs : List Char) : Quoting :=
  let control := cs.any isControl
  let newline := cs.contains '\n'
  if !control && !newline && !cs.contains '\\' && !cs.contains '"' then .basic
  else if !control && !newline && !cs.contains singleQuote then .literal
  else if !control && !cs.contains '\\' && longestRun '"' 0 cs ≤ 2 then .longBasic
  else if !control && longestRun singleQuote 0 cs ≤ 2 then .longLiteral
  else if newline then .longBasic
  else .basic

/-- How a key that is not bare is written: on one line. -/
def quotingOfKey (cs : List Char) : Quoting :=
  let control := cs.any isControl || cs.contains '\n'
  if !control && !cs.contains '\\' && !cs.contains '"' then .basic
  else if !control && !cs.contains singleQuote then .literal
  else .basic

/-- The two upper-case hexadecimal digits of a number below 256. -/
def hexPair (n : Nat) : List Char :=
  [(Text.hexDigit (n / 16)).toUpper, (Text.hexDigit (n % 16)).toUpper]

/-- A character between double quotes. -/
def escape (c : Char) : List Char :=
  if c = '"' then ['\\', '"']
  else if c = '\\' then ['\\', '\\']
  else if c = '\n' then ['\\', 'n']
  else if c = '\t' then ['\\', 't']
  else if c = '\r' then ['\\', 'r']
  else if c.toNat = 0x08 then ['\\', 'b']
  else if c.toNat = 0x0C then ['\\', 'f']
  else if isControl c then '\\' :: 'u' :: '0' :: '0' :: hexPair c.toNat
  else [c]

/-- The text between three double quotes, after so many double quotes in a row: of these only
every third is escaped, and line breaks stand as they are. -/
def longBasicText : (quotes : Nat) → List Char → List Char
  | _, [] => []
  | quotes, c :: cs =>
    if c = '"' then
      if quotes < 2 then '"' :: longBasicText (quotes + 1) cs
      else '\\' :: '"' :: longBasicText 0 cs
    else if c = '\n' then '\n' :: longBasicText 0 cs
    else escape c ++ longBasicText 0 cs

/-- Three of a character. -/
def three (q : Char) : List Char := [q, q, q]

/-- The line break after the opening of a string with line breaks. -/
def openingBreak (cs : List Char) : List Char :=
  if cs.contains '\n' then ['\n'] else []

/-- A string written in a given way. -/
def quoted : Quoting → List Char → List Char
  | .basic, cs => '"' :: (cs.flatMap escape ++ ['"'])
  | .literal, cs => singleQuote :: (cs ++ [singleQuote])
  | .longBasic, cs => three '"' ++ openingBreak cs ++ longBasicText 0 cs ++ three '"'
  | .longLiteral, cs => three singleQuote ++ openingBreak cs ++ cs ++ three singleQuote

/-- A string as a value. -/
def valueText (s : String) : List Char :=
  quoted (quotingOfValue s.toList) s.toList

/-- A key: bare if it can be. -/
def keyText (s : String) : List Char :=
  let cs := s.toList
  if !cs.isEmpty && cs.all isBareKeyChar then cs else quoted (quotingOfKey cs) cs

end Rollout.Toml
