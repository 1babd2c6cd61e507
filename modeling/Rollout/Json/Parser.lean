import Rollout.Json.Value
import Rollout.Text.Hex

/-!
Reading JSON documents. A document is read as written first: members in their order, repeats
included, numbers as literals, strings with the surrogates of their escapes unpaired. Nothing
is refused there but bad grammar, so a part nobody asks for may nest as deep and count as high
as it likes; `value?` then demands of a part that its numbers are in range, its strings are
text and its nesting stays within a limit.
-/

namespace Rollout.Json

/-- A piece of a string as written: a character, or a surrogate code unit from an escape. -/
inductive Piece where
  | char (c : Char)
  | high (unit : Nat)
  | low (unit : Nat)
deriving DecidableEq, Repr

/-- A document as written. -/
inductive Written where
  | null
  | bool (b : Bool)
  | number (l : Literal)
  | str (pieces : List Piece)
  | arr (items : List Written)
  | obj (members : List (List Piece × Written))

/-- The text of the pieces of a string; none if a surrogate stands alone. -/
def pairSurrogates : List Piece → Option (List Char)
  | [] => some []
  | .char c :: rest => (pairSurrogates rest).map (c :: ·)
  | .high h :: .low l :: rest =>
    (pairSurrogates rest).map
      (Char.ofNat (0x10000 + (h - 0xD800) * 0x400 + (l - 0xDC00)) :: ·)
  | _ => none

/-- The text of the pieces of a string, as a string. -/
def textOf? (pieces : List Piece) : Option String :=
  (pairSurrogates pieces).map String.ofList

/-- A blank between tokens. -/
def isSpace (c : Char) : Bool := c = ' ' || c = '\n' || c = '\r' || c = '\t'

/-- The document after leading blanks. -/
def skipSpace : List Char → List Char
  | [] => []
  | c :: cs => if isSpace c then skipSpace cs else c :: cs

/-- The code unit of four hexadecimal digits. -/
def codeUnit? (a b c d : Char) : Option Nat := do
  let high := (← Text.hexValue? a) * 16 + (← Text.hexValue? b)
  let low := (← Text.hexValue? c) * 16 + (← Text.hexValue? d)
  return high * 256 + low

/-- The piece a code unit stands for. -/
def pieceOfUnit (n : Nat) : Piece :=
  if 0xD800 ≤ n ∧ n ≤ 0xDBFF then .high n
  else if 0xDC00 ≤ n ∧ n ≤ 0xDFFF then .low n
  else .char (Char.ofNat n)

/-- The character of an escape of one letter. -/
def shortEscape? (c : Char) : Option Char :=
  if c = '"' then some '"'
  else if c = '\\' then some '\\'
  else if c = '/' then some '/'
  else if c = 'b' then some (Char.ofNat 0x08)
  else if c = 'f' then some (Char.ofNat 0x0C)
  else if c = 'n' then some '\n'
  else if c = 'r' then some '\r'
  else if c = 't' then some '\t'
  else none

/-- The pieces of a string up to its closing quote, and what follows the quote. -/
def readString : List Char → Option (List Piece × List Char)
  | [] => none
  | '"' :: cs => some ([], cs)
  | '\\' :: 'u' :: a :: b :: c :: d :: cs =>
    match codeUnit? a b c d, readString cs with
    | some n, some (pieces, rest) => some (pieceOfUnit n :: pieces, rest)
    | _, _ => none
  | '\\' :: e :: cs =>
    match shortEscape? e, readString cs with
    | some c, some (pieces, rest) => some (.char c :: pieces, rest)
    | _, _ => none
  | c :: cs =>
    if c = '\\' ∨ c.toNat < 0x20 then none
    else
      match readString cs with
      | some (pieces, rest) => some (.char c :: pieces, rest)
      | none => none

/-- The value of a decimal digit. -/
def digit? (c : Char) : Option Nat :=
  if 48 ≤ c.toNat ∧ c.toNat ≤ 57 then some (c.toNat - 48) else none

/-- The digits a text begins with, and the rest. -/
def readDigits : List Char → List Nat × List Char
  | [] => ([], [])
  | c :: cs =>
    match digit? c with
    | some d =>
      let (ds, rest) := readDigits cs
      (d :: ds, rest)
    | none => ([], c :: cs)

/-- The digits before the point: a zero alone, or digits that begin with none. -/
def readWhole (cs : List Char) : Option (List Nat × List Char) :=
  match readDigits cs with
  | ([], _) => none
  | (0 :: _ :: _, _) => none
  | (ds, rest) => some (ds, rest)

/-- The digits after a point, if there is one. -/
def readFraction : List Char → Option (Option (List Nat) × List Char)
  | '.' :: cs =>
    match readDigits cs with
    | ([], _) => none
    | (ds, rest) => some (some ds, rest)
  | cs => some (none, cs)

/-- The sign of an exponent. -/
def readSign : List Char → Bool × List Char
  | '-' :: cs => (true, cs)
  | '+' :: cs => (false, cs)
  | cs => (false, cs)

/-- The exponent, if there is one. -/
def readExponent : List Char → Option (Option (Bool × Nat) × List Char)
  | c :: cs =>
    if c = 'e' ∨ c = 'E' then
      let (minus, cs) := readSign cs
      match readDigits cs with
      | ([], _) => none
      | (ds, rest) => some (some (minus, ds.foldl (fun n d => n * 10 + d) 0), rest)
    else some (none, c :: cs)
  | [] => some (none, [])

/-- A number, after its sign. -/
def readUnsigned (negative : Bool) (cs : List Char) : Option (Literal × List Char) := do
  let (whole, cs) ← readWhole cs
  let (fraction, cs) ← readFraction cs
  let (exponent, cs) ← readExponent cs
  return (⟨negative, whole, fraction, exponent⟩, cs)

/-- A number. -/
def readNumber : List Char → Option (Literal × List Char)
  | '-' :: cs => readUnsigned true cs
  | cs => readUnsigned false cs

mutual

/-- A value, and what follows it. Every call of the three readers takes one from the fuel. -/
def readValue : Nat → List Char → Option (Written × List Char)
  | 0, _ => none
  | fuel + 1, cs =>
    match skipSpace cs with
    | 'n' :: 'u' :: 'l' :: 'l' :: rest => some (.null, rest)
    | 't' :: 'r' :: 'u' :: 'e' :: rest => some (.bool true, rest)
    | 'f' :: 'a' :: 'l' :: 's' :: 'e' :: rest => some (.bool false, rest)
    | '"' :: rest => (readString rest).map fun (pieces, rest) => (.str pieces, rest)
    | '[' :: rest =>
      match skipSpace rest with
      | ']' :: rest => some (.arr [], rest)
      | rest => (readItems fuel rest).map fun (items, rest) => (.arr items, rest)
    | '{' :: rest =>
      match skipSpace rest with
      | '}' :: rest => some (.obj [], rest)
      | rest => (readMembers fuel rest).map fun (members, rest) => (.obj members, rest)
    | rest => (readNumber rest).map fun (l, rest) => (.number l, rest)

/-- The items of an array that has some, and what follows its end. -/
def readItems : Nat → List Char → Option (List Written × List Char)
  | 0, _ => none
  | fuel + 1, cs =>
    match readValue fuel cs with
    | none => none
    | some (item, rest) =>
      match skipSpace rest with
      | ']' :: rest => some ([item], rest)
      | ',' :: rest => (readItems fuel rest).map fun (items, rest) => (item :: items, rest)
      | _ => none

/-- The members of an object that has some, and what follows its end. -/
def readMembers : Nat → List Char → Option (List (List Piece × Written) × List Char)
  | 0, _ => none
  | fuel + 1, cs =>
    match skipSpace cs with
    | '"' :: rest =>
      match readString rest with
      | none => none
      | some (name, rest) =>
        match skipSpace rest with
        | ':' :: rest =>
          match readValue fuel rest with
          | none => none
          | some (v, rest) =>
            match skipSpace rest with
            | '}' :: rest => some ([(name, v)], rest)
            | ',' :: rest =>
              (readMembers fuel rest).map fun (members, rest) => ((name, v) :: members, rest)
            | _ => none
        | _ => none
    | _ => none

end

/-- The document a text holds, with nothing but blanks around it. -/
def Written.parse? (text : String) : Option Written :=
  let cs := text.toList
  match readValue (2 * cs.length + 2) cs with
  | some (w, rest) => if (skipSpace rest).isEmpty then some w else none
  | none => none

mutual

/-- The value of a part of a document that may hold `depth` nested levels of arrays and
objects. Of members with one name the last stands. -/
def Written.value? : Nat → Written → Option Json
  | _, .null => some .null
  | _, .bool b => some (.bool b)
  | _, .number l => l.value?.map .number
  | _, .str pieces => (textOf? pieces).map .str
  | 0, .arr _ => none
  | 0, .obj _ => none
  | depth + 1, .arr items => (itemValues? depth items).map .arr
  | depth + 1, .obj members =>
    (memberValues? depth members).map fun l => .obj (TextMap.ofList l)

/-- The values of the items of an array. -/
def itemValues? : Nat → List Written → Option (List Json)
  | _, [] => some []
  | depth, w :: ws =>
    match Written.value? depth w, itemValues? depth ws with
    | some v, some vs => some (v :: vs)
    | _, _ => none

/-- The names and values of the members of an object. -/
def memberValues? : Nat → List (List Piece × Written) → Option (List (String × Json))
  | _, [] => some []
  | depth, (name, w) :: ws =>
    match textOf? name, Written.value? depth w, memberValues? depth ws with
    | some k, some v, some vs => some ((k, v) :: vs)
    | _, _, _ => none

end

/-- How deep the arrays and objects of a document may nest. -/
def nestingLimit : Nat := 127

/-- The value of a document. -/
def parse? (text : String) : Option Json :=
  (Written.parse? text).bind (Written.value? nestingLimit)

end Rollout.Json
