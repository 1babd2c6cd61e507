import Rollout.Toml.Scalar

/-!
Reading TOML 1.0 documents: keys, strings, arrays, inline tables, and the lines of a document
with their headers.
-/

namespace Rollout.Toml

/-- A blank within a line. -/
def isBlankChar (c : Char) : Bool := c = ' ' || c = '\t'

/-- A character allowed in comments and, quotes and backslashes apart, in strings. -/
def isPlain (c : Char) : Bool :=
  c = '\t' || (0x20 ≤ c.toNat && c.toNat ≠ 0x7F)

/-- A character of a bare key. -/
def isBareKeyChar (c : Char) : Bool := c.isAlphanum || c = '-' || c = '_'

/-- What follows blanks. -/
def skipBlanks (cs : List Char) : List Char := cs.dropWhile isBlankChar

/-- What follows a line break, if the text begins with one. -/
def afterBreak? : List Char → Option (List Char)
  | '\n' :: cs => some cs
  | '\r' :: '\n' :: cs => some cs
  | _ => none

/-- What follows a comment, if the text begins with one. -/
def skipComment : List Char → List Char
  | '#' :: cs => cs.dropWhile isPlain
  | cs => cs

/-- What follows the end of a line: blanks, a comment, and a line break or the end. -/
def endLine? (cs : List Char) : Option (List Char) :=
  match skipComment (skipBlanks cs) with
  | [] => some []
  | rest => afterBreak? rest

/-- What follows blanks, comments and line breaks. A comment must end with its line. -/
def skipLines : Nat → List Char → List Char
  | 0, cs => cs
  | fuel + 1, cs =>
    match skipBlanks cs with
    | '#' :: rest =>
      match afterBreak? (rest.dropWhile isPlain) with
      | some rest => skipLines fuel rest
      | none => '#' :: rest
    | rest =>
      match afterBreak? rest with
      | some rest => skipLines fuel rest
      | none => rest

/-- The character of `count` hexadecimal digits, and what follows them. -/
def readCodePoint (count : Nat) (cs : List Char) : Option (Char × List Char) :=
  let digits := (cs.take count).map (digitIn? 16)
  if digits.length = count ∧ digits.all Option.isSome then
    let n := ofDigits 16 (digits.filterMap id)
    if n < 0x110000 ∧ ¬(0xD800 ≤ n ∧ n ≤ 0xDFFF) then some (Char.ofNat n, cs.drop count) else none
  else none

/-- The character of an escape, after its backslash, and what follows it. -/
def readEscape : List Char → Option (Char × List Char)
  | [] => none
  | c :: cs =>
    if c = 'b' then some (Char.ofNat 0x08, cs)
    else if c = 't' then some ('\t', cs)
    else if c = 'n' then some ('\n', cs)
    else if c = 'f' then some (Char.ofNat 0x0C, cs)
    else if c = 'r' then some ('\r', cs)
    else if c = '"' then some ('"', cs)
    else if c = '\\' then some ('\\', cs)
    else if c = 'u' then readCodePoint 4 cs
    else if c = 'U' then readCodePoint 8 cs
    else none

/-- A basic string on one line, after its opening quote, and what follows its end. -/
def readBasic : Nat → List Char → Option (List Char × List Char)
  | 0, _ => none
  | fuel + 1, cs =>
    match cs with
    | [] => none
    | '"' :: rest => some ([], rest)
    | '\\' :: rest =>
      (readEscape rest).bind fun (c, rest) =>
        (readBasic fuel rest).map fun (text, rest) => (c :: text, rest)
    | c :: rest =>
      if isPlain c then (readBasic fuel rest).map fun (text, rest) => (c :: text, rest)
      else none

/-- A literal string on one line, after its opening quote, and what follows its end. -/
def readLiteral : List Char → Option (List Char × List Char)
  | [] => none
  | c :: rest =>
    if c.toNat = 39 then some ([], rest)
    else if isPlain c then (readLiteral rest).map fun (text, rest) => (c :: text, rest)
    else none

/-- How many times a character stands at the start of a text, and the rest. -/
def countLeading (q : Char) (cs : List Char) : Nat × List Char :=
  ((cs.takeWhile (· = q)).length, cs.dropWhile (· = q))

/-- The end of a string over several lines: of a run of quotes, up to two belong to the text
before the three that close it. -/
def closeRun (q : Char) (count : Nat) (rest : List Char) : List Char × List Char :=
  let inside := min (count - 3) 2
  (List.replicate inside q, List.replicate (count - 3 - inside) q ++ rest)

/-- What follows an escaped line end: blanks up to a line break, and all blanks and line
breaks after it. -/
def afterEscapedBreak? (cs : List Char) : Option (List Char) :=
  (afterBreak? (skipBlanks cs)).map fun rest => skipBreaks rest.length rest
where
  /-- What follows blanks and line breaks. -/
  skipBreaks : Nat → List Char → List Char
    | 0, cs => cs
    | fuel + 1, cs =>
      match afterBreak? (skipBlanks cs) with
      | some rest => skipBreaks fuel rest
      | none => skipBlanks cs

/-- A string over several lines with escapes, after its opening, and what follows its end. -/
def readLongBasic : Nat → List Char → Option (List Char × List Char)
  | 0, _ => none
  | fuel + 1, cs =>
    match cs with
    | [] => none
    | '"' :: _ =>
      let (count, rest) := countLeading '"' cs
      if 3 ≤ count then some (closeRun '"' count rest)
      else (readLongBasic fuel rest).map fun (text, rest) => (List.replicate count '"' ++ text, rest)
    | '\\' :: rest =>
      match afterEscapedBreak? rest with
      | some rest => readLongBasic fuel rest
      | none =>
        (readEscape rest).bind fun (c, rest) =>
          (readLongBasic fuel rest).map fun (text, rest) => (c :: text, rest)
    | c :: rest =>
      match afterBreak? (c :: rest) with
      | some rest => (readLongBasic fuel rest).map fun (text, rest) => ('\n' :: text, rest)
      | none =>
        if isPlain c then (readLongBasic fuel rest).map fun (text, rest) => (c :: text, rest)
        else none

/-- The single quote. -/
def singleQuote : Char := Char.ofNat 39

/-- A string over several lines without escapes, after its opening, and what follows it. -/
def readLongLiteral : Nat → List Char → Option (List Char × List Char)
  | 0, _ => none
  | fuel + 1, cs =>
    match cs with
    | [] => none
    | c :: rest =>
      if c = singleQuote then
        let (count, rest) := countLeading singleQuote cs
        if 3 ≤ count then some (closeRun singleQuote count rest)
        else
          (readLongLiteral fuel rest).map fun (text, rest) =>
            (List.replicate count singleQuote ++ text, rest)
      else
        match afterBreak? cs with
        | some rest => (readLongLiteral fuel rest).map fun (text, rest) => ('\n' :: text, rest)
        | none =>
          if isPlain c then (readLongLiteral fuel rest).map fun (text, rest) => (c :: text, rest)
          else none

/-- The text after a line break right behind the opening of a string, which does not count. -/
def dropFirstBreak (cs : List Char) : List Char := (afterBreak? cs).getD cs

/-- A string value, and what follows it; the text begins with its first quote. -/
def readString (cs : List Char) : Option (List Char × List Char) :=
  match cs with
  | '"' :: '"' :: '"' :: rest => readLongBasic (rest.length + 1) (dropFirstBreak rest)
  | '"' :: rest => readBasic (rest.length + 1) rest
  | a :: b :: c :: rest =>
    if a = singleQuote ∧ b = singleQuote ∧ c = singleQuote then
      readLongLiteral (rest.length + 1) (dropFirstBreak rest)
    else if a = singleQuote then readLiteral (b :: c :: rest)
    else none
  | a :: rest => if a = singleQuote then readLiteral rest else none
  | [] => none

/-- One part of a key, and what follows it. -/
def readKeyPart (cs : List Char) : Option (String × List Char) :=
  match cs with
  | [] => none
  | '"' :: rest =>
    (readBasic (rest.length + 1) rest).map fun (text, rest) => (String.ofList text, rest)
  | c :: rest =>
    if c = singleQuote then
      (readLiteral rest).map fun (text, rest) => (String.ofList text, rest)
    else
      match cs.takeWhile isBareKeyChar with
      | [] => none
      | text => some (String.ofList text, cs.dropWhile isBareKeyChar)

/-- The parts of a dotted key with the blanks around them, and what follows. -/
def readKeyParts : Nat → List Char → Option (List String × List Char)
  | 0, _ => none
  | fuel + 1, cs =>
    (readKeyPart (skipBlanks cs)).bind fun (part, rest) =>
      match skipBlanks rest with
      | '.' :: rest => (readKeyParts fuel rest).map fun (parts, rest) => (part :: parts, rest)
      | rest => some ([part], rest)

/-- How deep keys, arrays and inline tables may nest. -/
def depthLimit : Nat := 79

/-- A dotted key: the parts before its last, the last, and what follows. -/
def readKey (cs : List Char) : Option (List String × String × List Char) :=
  (readKeyParts (cs.length + 1) cs).bind fun (parts, rest) =>
    if depthLimit < parts.length then none
    else
      match parts.reverse with
      | last :: before => some (before.reverse, last, rest)
      | [] => none

mutual

/-- A value, and what follows it. `depth` arrays and inline tables may still be opened. -/
def readValue : Nat → (depth : Nat) → List Char → Option (Toml × List Char)
  | 0, _, _ => none
  | fuel + 1, depth, cs =>
    match cs with
    | [] => none
    | '[' :: rest =>
      match depth with
      | 0 => none
      | depth + 1 =>
        (readItems fuel depth (skipLines rest.length rest)).map fun (items, rest) =>
          (.arr items, rest)
    | '{' :: rest =>
      match depth with
      | 0 => none
      | depth + 1 =>
        match skipBlanks rest with
        | '}' :: rest => some (.table [], rest)
        | rest =>
          (readPairs fuel depth [] rest).map fun (members, rest) =>
            (.table (finishMembers members), rest)
    | c :: _ =>
      if c = '"' ∨ c = singleQuote then
        (readString cs).map fun (text, rest) => (.str (String.ofList text), rest)
      else
        let (word, rest) := readWord cs
        (scalar? word).map fun v => (v, rest)

/-- The items of an array and what follows its end; blanks and comments before are skipped. -/
def readItems : Nat → (depth : Nat) → List Char → Option (List Toml × List Char)
  | 0, _, _ => none
  | fuel + 1, depth, cs =>
    match cs with
    | ']' :: rest => some ([], rest)
    | _ =>
      (readValue fuel depth cs).bind fun (item, rest) =>
        match skipLines rest.length rest with
        | ']' :: rest => some ([item], rest)
        | ',' :: rest =>
          (readItems fuel depth (skipLines rest.length rest)).map fun (items, rest) =>
            (item :: items, rest)
        | _ => none

/-- The pairs of an inline table that has some, added to its members, and what follows. -/
def readPairs : Nat → (depth : Nat) → Members → List Char → Option (Members × List Char)
  | 0, _, _, _ => none
  | fuel + 1, depth, members, cs =>
    (readKey cs).bind fun (path, key, rest) =>
      match rest with
      | '=' :: rest =>
        (readValue fuel depth (skipBlanks rest)).bind fun (v, rest) =>
          (addValue path key v members).bind fun members =>
            match skipBlanks rest with
            | '}' :: rest => some (members, rest)
            | ',' :: rest => readPairs fuel depth members rest
            | _ => none
      | _ => none

end

end Rollout.Toml
