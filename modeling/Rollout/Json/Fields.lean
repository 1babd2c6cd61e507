import Rollout.Json.Parser

/-!
Reading records out of a JSON document. A record is an object, whose unknown members are passed
over, or an array that gives the fields in their declared order; a known member given twice is
refused.
-/

namespace Rollout.Json

/-- The text of a string. -/
def Written.text? : Written → Option String
  | .str pieces => textOf? pieces
  | _ => none

/-- A truth value. -/
def Written.bool? : Written → Option Bool
  | .bool b => some b
  | _ => none

/-- A natural number below `bound`, written as an integer. -/
def Written.natBelow? (bound : Nat) : Written → Option Nat
  | .number l =>
    match l.value? with
    | some (.int (.ofNat n)) => if n < bound then some n else none
    | _ => none
  | _ => none

/-- The values of a list, if each can be read. -/
def readAll {α : Type} (read : Written → Option α) : List Written → Option (List α)
  | [] => some []
  | w :: ws =>
    match read w, readAll read ws with
    | some a, some as => some (a :: as)
    | _, _ => none

/-- The items of an array. -/
def Written.list? {α : Type} (read : Written → Option α) : Written → Option (List α)
  | .arr items => readAll read items
  | _ => none

/-- The bindings of the members of an object, in their order. -/
def readBindings {α : Type} (read : Written → Option α) :
    List (List Piece × Written) → Option (List (String × α))
  | [] => some []
  | (name, w) :: ws =>
    match textOf? name, read w, readBindings read ws with
    | some k, some a, some as => some ((k, a) :: as)
    | _, _, _ => none

/-- The members of an object as a map; the last of several members of one name stands. -/
def Written.map? {α : Type} (read : Written → Option α) : Written → Option (TextMap α)
  | .obj members => (readBindings read members).map TextMap.ofList
  | _ => none

/-- A value or null. -/
def Written.optional? {α : Type} (read : Written → Option α) : Written → Option (Option α)
  | .null => some none
  | w => (read w).map some

/-- The members given for one field: at most one may be. -/
def fieldOf? (members : List (String × Written)) (name : String) : Option (Option Written) :=
  match members.filter fun m => m.1 = name with
  | [] => some none
  | [m] => some (some m.2)
  | _ => none

/-- What a document gives for each of the named fields. -/
def Written.fields? (names : List String) : Written → Option (List (Option Written))
  | .arr items =>
    if items.length ≤ names.length then
      some (items.map some ++ List.replicate (names.length - items.length) none)
    else none
  | .obj members => do
    let named ← readBindings some members
    names.mapM (fieldOf? named)
  | _ => none

/-- A field that must be given. -/
def required {α : Type} (read : Written → Option α) : Option Written → Option α
  | some w => read w
  | none => none

/-- A field with a value of its own where none is given. -/
def defaulted {α : Type} (read : Written → Option α) (value : α) : Option Written → Option α
  | some w => read w
  | none => some value

end Rollout.Json
