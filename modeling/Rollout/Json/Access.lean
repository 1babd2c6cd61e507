import Rollout.Json.Value

/-!
Looking into a document whose writer may leave things out: what is missing reads as empty, as
zero, as no, or as the value given for it.
-/

namespace Rollout.Json

/-- A member of an object; null if there is none. -/
def part (v : Json) (name : String) : Json := (v.member? name).getD .null

/-- Whether a value is null. -/
def isNull : Json → Bool
  | .null => true
  | _ => false

/-- The text of a string; of anything else, no text. -/
def textOf (v : Json) : String := v.str?.getD ""

/-- The natural number a value is, or zero. -/
def natOf : Json → Nat
  | .number (.int n) => n.toNat
  | _ => 0

/-- The truth value a value is, or no. -/
def boolOf : Json → Bool
  | .bool b => b
  | _ => false

/-- The items of an array; of anything else, none. -/
def itemsOf : Json → List Json
  | .arr items => items
  | _ => []

/-- The members of an object; of anything else, none. -/
def membersOf (v : Json) : TextMap Json := v.members?.getD []

/-- The text of a member, if it has one. -/
def textAt? (v : Json) (name : String) : Option String := (v.part name).str?

/-- The text of a member. -/
def textAt (v : Json) (name : String) : String := (v.part name).textOf

/-- The natural number of a member. -/
def natAt (v : Json) (name : String) : Nat := (v.part name).natOf

/-- The natural number of a member, if it is given. -/
def natAt? (v : Json) (name : String) : Option Nat :=
  if (v.part name).isNull then none else some (v.natAt name)

/-- The truth value of a member. -/
def boolAt (v : Json) (name : String) : Bool := (v.part name).boolOf

/-- The truth value of a member, or another one where it is not given. -/
def boolOr (v : Json) (name : String) (missing : Bool) : Bool :=
  if (v.part name).isNull then missing else v.boolAt name

/-- The items of a member. -/
def itemsAt (v : Json) (name : String) : List Json := (v.part name).itemsOf

/-- The texts of the items of a member. -/
def textsAt (v : Json) (name : String) : List String := (v.itemsAt name).map textOf

/-- The two items of a pair. -/
def pairOf (v : Json) : Json × Json :=
  let items := v.itemsOf
  (items.headD .null, items.tail.headD .null)

/-- The texts of the two items of a pair. -/
def textPair (v : Json) : String × String := (v.pairOf.1.textOf, v.pairOf.2.textOf)

end Rollout.Json
