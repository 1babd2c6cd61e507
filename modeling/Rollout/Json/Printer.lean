import Rollout.Json.Value
import Rollout.Text.Hex

/-!
Writing JSON values, on one line or indented by two blanks per level. Strings escape the
quote, the backslash and the control characters, and nothing else.
-/

namespace Rollout.Json

/-- A character inside a string. -/
def escapeChar (c : Char) : List Char :=
  if c = '"' then ['\\', '"']
  else if c = '\\' then ['\\', '\\']
  else if c.toNat = 0x08 then ['\\', 'b']
  else if c.toNat = 0x0C then ['\\', 'f']
  else if c = '\n' then ['\\', 'n']
  else if c = '\r' then ['\\', 'r']
  else if c = '\t' then ['\\', 't']
  else if c.toNat < 0x20 then
    ['\\', 'u', '0', '0', Text.hexDigit (c.toNat / 16), Text.hexDigit (c.toNat % 16)]
  else [c]

/-- A string with its quotes. -/
def stringText (s : String) : List Char :=
  '"' :: (s.toList.flatMap escapeChar ++ ['"'])

/-- The text of a number. -/
def numeralText : Numeral → List Char
  | .int n => intText n
  | .float x => floatText x

mutual

/-- A value on one line. -/
def compactChars : Json → List Char
  | .null => ['n', 'u', 'l', 'l']
  | .bool true => ['t', 'r', 'u', 'e']
  | .bool false => ['f', 'a', 'l', 's', 'e']
  | .number n => numeralText n
  | .str s => stringText s
  | .arr [] => ['[', ']']
  | .arr (x :: xs) => '[' :: (compactChars x ++ compactItems xs)
  | .obj [] => ['{', '}']
  | .obj ((name, v) :: rest) =>
    '{' :: (stringText name ++ ':' :: (compactChars v ++ compactMembers rest))

/-- The items of an array after the first, and its end. -/
def compactItems : List Json → List Char
  | [] => [']']
  | x :: xs => ',' :: (compactChars x ++ compactItems xs)

/-- The members of an object after the first, and its end. -/
def compactMembers : List (String × Json) → List Char
  | [] => ['}']
  | (name, v) :: rest => ',' :: (stringText name ++ ':' :: (compactChars v ++ compactMembers rest))

end

/-- A line break and the blanks of a level. -/
def newLine (level : Nat) : List Char :=
  '\n' :: List.replicate (2 * level) ' '

mutual

/-- A value spread over lines, at a level. -/
def prettyChars (level : Nat) : Json → List Char
  | .null => ['n', 'u', 'l', 'l']
  | .bool true => ['t', 'r', 'u', 'e']
  | .bool false => ['f', 'a', 'l', 's', 'e']
  | .number n => numeralText n
  | .str s => stringText s
  | .arr [] => ['[', ']']
  | .arr (x :: xs) =>
    '[' :: (newLine (level + 1) ++ prettyChars (level + 1) x ++ prettyItems level xs)
  | .obj [] => ['{', '}']
  | .obj ((name, v) :: rest) =>
    '{' :: (newLine (level + 1) ++ stringText name ++ ':' :: ' ' ::
      (prettyChars (level + 1) v ++ prettyMembers level rest))

/-- The items of an array after the first, and its end. -/
def prettyItems (level : Nat) : List Json → List Char
  | [] => newLine level ++ [']']
  | x :: xs => ',' :: (newLine (level + 1) ++ prettyChars (level + 1) x ++ prettyItems level xs)

/-- The members of an object after the first, and its end. -/
def prettyMembers (level : Nat) : List (String × Json) → List Char
  | [] => newLine level ++ ['}']
  | (name, v) :: rest =>
    ',' :: (newLine (level + 1) ++ stringText name ++ ':' :: ' ' ::
      (prettyChars (level + 1) v ++ prettyMembers level rest))

end

/-- A value on one line. -/
def compact (v : Json) : String := String.ofList (compactChars v)

/-- A value spread over lines. -/
def pretty (v : Json) : String := String.ofList (prettyChars 0 v)

end Rollout.Json
