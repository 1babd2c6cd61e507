import Rollout.Json.Number
import Rollout.TextMap

/-!
JSON values. The members of an object form a map: one value per name, in the order of the
names. Two numbers are the same value when they are equal integers or equal doubles, and the
two zeros are equal doubles.
-/

namespace Rollout

/-- A JSON value. -/
inductive Json where
  | null
  | bool (b : Bool)
  | number (n : Json.Numeral)
  | str (s : String)
  | arr (items : List Json)
  | obj (members : List (String × Json))

namespace Json

instance : Inhabited Json := ⟨.null⟩

/-- An integer as a value. -/
def int (n : Int) : Json := .number (.int n)

/-- A natural number as a value. -/
def nat (n : Nat) : Json := .int n

/-- A list of texts as a value. -/
def strs (texts : List String) : Json := .arr (texts.map .str)

/-- A text or null. -/
def strOrNull : Option String → Json
  | some s => .str s
  | none => .null

/-- An object from its members in any order. -/
def object (members : List (String × Json)) : Json := .obj (TextMap.ofList members)

/-- Whether two numbers are the same value. -/
def Numeral.same : Numeral → Numeral → Bool
  | .int m, .int n => m = n
  | .float x, .float y => x = y || (x.mantissa = 0 && y.mantissa = 0)
  | _, _ => false

mutual

/-- Whether two values are the same. -/
def same : Json → Json → Bool
  | .null, .null => true
  | .bool a, .bool b => a = b
  | .number m, .number n => m.same n
  | .str s, .str t => s = t
  | .arr xs, .arr ys => sameItems xs ys
  | .obj xs, .obj ys => sameMembers xs ys
  | _, _ => false

/-- Whether two lists of values are the same, item by item. -/
def sameItems : List Json → List Json → Bool
  | [], [] => true
  | x :: xs, y :: ys => same x y && sameItems xs ys
  | _, _ => false

/-- Whether two lists of members are the same, member by member. -/
def sameMembers : List (String × Json) → List (String × Json) → Bool
  | [], [] => true
  | (j, x) :: xs, (k, y) :: ys => j = k && same x y && sameMembers xs ys
  | _, _ => false

end

/-- The members of an object. -/
def members? : Json → Option (TextMap Json)
  | .obj members => some members
  | _ => none

/-- The text of a string. -/
def str? : Json → Option String
  | .str s => some s
  | _ => none

/-- The member of an object with a given name. -/
def member? (name : String) (v : Json) : Option Json :=
  v.members?.bind (TextMap.get? name)

/-- The value reached through objects by a list of names. -/
def path? : List String → Json → Option Json
  | [], v => some v
  | name :: names, v => (v.member? name).bind (path? names)

end Json

end Rollout
