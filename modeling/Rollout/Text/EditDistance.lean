/-!
The edit distance between two byte strings: the least number of insertions, deletions and
substitutions of single bytes that turn one into the other, computed row by row.
-/

namespace Rollout.Text

/-- The cells of a row after its first one. `diagonal` and `above` walk the previous row,
`left` is the cell before, and `b` is the byte of this row. -/
def rowTail (b : UInt8) : (left diagonal : Nat) → (above : List Nat) → List UInt8 → List Nat
  | left, diagonal, up :: above, c :: cs =>
    let cell := min (min (up + 1) (left + 1)) (diagonal + if b = c then 0 else 1)
    cell :: rowTail b cell up above cs
  | _, _, _, _ => []

/-- The row for one more byte on the left: its first cell counts deletions only. -/
def nextRow (target : List UInt8) (b : UInt8) : List Nat → List Nat
  | [] => []
  | first :: above => (first + 1) :: rowTail b (first + 1) first above target

/-- The row of distances from `source` to every beginning of `target`. -/
def lastRow (source target : List UInt8) : List Nat :=
  source.foldl (fun row b => nextRow target b row) (List.range (target.length + 1))

/-- The edit distance between two lists of bytes. -/
def editDistanceBytes (source target : List UInt8) : Nat :=
  (lastRow source target).getLastD 0

/-- The edit distance between the UTF-8 forms of two texts. -/
def editDistance (source target : String) : Nat :=
  if source = target then 0
  else editDistanceBytes source.toByteArray.data.toList target.toByteArray.data.toList

end Rollout.Text
