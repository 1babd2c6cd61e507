/-!
Bytes read as UTF-8. `decode` accepts well-formed text only; `decodeLossy` reads any bytes and
writes one replacement character for every longest ill-formed start of a sequence.
-/

namespace Rollout.Text

/-- The text that well-formed bytes spell. -/
def decode (bytes : ByteArray) : Option String :=
  String.fromUTF8? bytes

/-- How a byte can begin a sequence: how many bytes follow it, the bits it contributes, and the
range of the byte after it. -/
def leadByte (b : UInt8) : Option (Nat × Nat × Nat × Nat) :=
  let n := b.toNat
  if n < 0x80 then some (0, n, 0, 0)
  else if 0xC2 ≤ n ∧ n ≤ 0xDF then some (1, n - 0xC0, 0x80, 0xBF)
  else if n = 0xE0 then some (2, 0, 0xA0, 0xBF)
  else if n = 0xED then some (2, 0x0D, 0x80, 0x9F)
  else if 0xE1 ≤ n ∧ n ≤ 0xEF then some (2, n - 0xE0, 0x80, 0xBF)
  else if n = 0xF0 then some (3, 0, 0x90, 0xBF)
  else if 0xF1 ≤ n ∧ n ≤ 0xF3 then some (3, n - 0xF0, 0x80, 0xBF)
  else if n = 0xF4 then some (3, 4, 0x80, 0x8F)
  else none

/-- The replacement character. -/
def replacement : Char := Char.ofNat 0xFFFD

/-- Where the reader stands: between characters, or inside a sequence with so many bytes still
to come, the bits read so far and the range of the next byte. -/
inductive Utf8State where
  | start
  | inside (missing bits low high : Nat)

/-- The character a byte begins or is, read between two characters. -/
def readLead (b : UInt8) : List Char × Utf8State :=
  match leadByte b with
  | none => ([replacement], .start)
  | some (0, bits, _, _) => ([Char.ofNat bits], .start)
  | some (missing, bits, low, high) => ([], .inside missing bits low high)

/-- Reads the bytes from a state; a sequence that breaks off gives one replacement character,
and the byte that broke it is read again as a beginning. -/
def decodeFrom : Utf8State → List UInt8 → List Char
  | .start, [] => []
  | .inside .., [] => [replacement]
  | .start, b :: bs =>
    let (chars, state) := readLead b
    chars ++ decodeFrom state bs
  | .inside missing bits low high, b :: bs =>
    if low ≤ b.toNat ∧ b.toNat ≤ high then
      let bits := bits * 64 + (b.toNat - 0x80)
      if missing ≤ 1 then Char.ofNat bits :: decodeFrom .start bs
      else decodeFrom (.inside (missing - 1) bits 0x80 0xBF) bs
    else
      let (chars, state) := readLead b
      replacement :: chars ++ decodeFrom state bs

/-- The text of any bytes, with ill-formed parts replaced. -/
def decodeLossy (bytes : ByteArray) : String :=
  String.ofList (decodeFrom .start bytes.data.toList)

end Rollout.Text
