import Rollout.Text.Split

/-!
TOML values, and the tables of a document while it is being read. A table under construction
remembers how it came to be, because that decides what may still be added to it.
-/

namespace Rollout

/-- A TOML value. The members of a table keep the order of the document. Floats and dates are
kept as they were written. -/
inductive Toml where
  | str (s : String)
  | int (n : Int)
  | float (text : String)
  | bool (b : Bool)
  | date (text : String)
  | arr (items : List Toml)
  | table (members : List (String × Toml))

namespace Toml

instance : Inhabited Toml := ⟨.table []⟩

mutual

/-- Whether two values are the same. -/
def same : Toml → Toml → Bool
  | .str s, .str s' => s = s'
  | .int n, .int n' => n = n'
  | .float s, .float s' => s = s'
  | .bool b, .bool b' => b = b'
  | .date s, .date s' => s = s'
  | .arr vs, .arr ws => sameItems vs ws
  | .table ms, .table ns => sameMembers ms ns
  | _, _ => false

/-- Whether two arrays have the same items. -/
def sameItems : List Toml → List Toml → Bool
  | [], [] => true
  | v :: vs, w :: ws => same v w && sameItems vs ws
  | _, _ => false

/-- Whether two tables have the same members in the same order. -/
def sameMembers : List (String × Toml) → List (String × Toml) → Bool
  | [], [] => true
  | (k, v) :: ms, (l, w) :: ns => k = l && same v w && sameMembers ms ns
  | _, _ => false

end

mutual

theorem same_iff : (v w : Toml) → (same v w = true ↔ v = w)
  | .str s, w => by cases w <;> simp [same]
  | .int n, w => by cases w <;> simp [same]
  | .float s, w => by cases w <;> simp [same]
  | .bool b, w => by cases w <;> simp [same]
  | .date s, w => by cases w <;> simp [same]
  | .arr vs, w => by cases w <;> simp [same, sameItems_iff vs]
  | .table ms, w => by cases w <;> simp [same, sameMembers_iff ms]

theorem sameItems_iff : (vs ws : List Toml) → (sameItems vs ws = true ↔ vs = ws)
  | [], ws => by cases ws <;> simp [sameItems]
  | v :: vs, ws => by cases ws <;> simp [sameItems, same_iff v, sameItems_iff vs]

theorem sameMembers_iff : (ms ns : List (String × Toml)) → (sameMembers ms ns = true ↔ ms = ns)
  | [], ns => by cases ns <;> simp [sameMembers]
  | (k, v) :: ms, ns => by
    cases ns <;> simp [sameMembers, same_iff v, sameMembers_iff ms, Prod.ext_iff, and_assoc]

end

instance : DecidableEq Toml := fun v w => decidable_of_iff _ (same_iff v w)

/-- What a key of an unfinished table stands for. -/
inductive Node where
  /-- A value, to which nothing can be added. -/
  | value (v : Toml)
  /-- A table: whether it is only implied by a longer name, and whether by a dotted key. -/
  | table (implicit dotted : Bool) (members : List (String × Node))
  /-- An array of tables, each opened by a header of its own. -/
  | tables (items : List (List (String × Node)))

/-- The members of a table under construction. -/
abbrev Members := List (String × Node)

/-- The node of a key. -/
def find? (key : String) : Members → Option Node
  | [] => none
  | (k, n) :: rest => if k = key then some n else find? key rest

/-- Sets the node of a key in its place, or adds it at the end. -/
def assign (key : String) (n : Node) : Members → Members
  | [] => [(key, n)]
  | (k, m) :: rest => if k = key then (key, n) :: rest else (k, m) :: assign key n rest

/-- The members without a key. -/
def without (key : String) (members : Members) : Members :=
  members.filter fun m => m.1 ≠ key

/-- Goes down from a table by names, making implied tables on the way, and changes the members
of the table at the end; the change is told whether that table was made by dotted keys. A value
cannot be entered; of an array of tables the last one is meant. Dotted keys enter only tables
that dotted keys or longer headers made. -/
def descend (byKey : Bool) (change : Bool → Members → Option Members) :
    List String → (dotted : Bool) → Members → Option Members
  | [], dotted, members => change dotted members
  | name :: names, _, members =>
    match find? name members with
    | none =>
      (descend byKey change names byKey []).map fun inner =>
        assign name (.table true byKey inner) members
    | some (.value _) => none
    | some (.table implicit dotted inner) =>
      if byKey && !implicit then none
      else
        (descend byKey change names dotted inner).map fun inner =>
          assign name (.table implicit dotted inner) members
    | some (.tables items) =>
      match items.reverse with
      | [] => none
      | last :: before =>
        (descend byKey change names false last).map fun last =>
          assign name (.tables (before.reverse ++ [last])) members

/-- Adds a value under a dotted key. The key must be new, and a table that a header made is
not extended by dots. -/
def addValue (path : List String) (key : String) (v : Toml) (members : Members) :
    Option Members :=
  descend true (fun dotted inner =>
    if dotted = path.isEmpty then none
    else
      match find? key inner with
      | some _ => none
      | none => some (assign key (.value v) inner)) path false members

mutual

/-- The value a node stands for in the finished document. -/
def Node.finish : Node → Toml
  | .value v => v
  | .table _ _ members => .table (finishMembers members)
  | .tables items => .arr (finishTables items)

/-- The finished members of a table. -/
def finishMembers : List (String × Node) → List (String × Toml)
  | [] => []
  | (k, n) :: rest => (k, n.finish) :: finishMembers rest

/-- The finished tables of an array. -/
def finishTables : List (List (String × Node)) → List Toml
  | [] => []
  | members :: rest => .table (finishMembers members) :: finishTables rest

end

/-- The value of a key of a table. -/
def member? (key : String) : List (String × Toml) → Option Toml
  | [] => none
  | (k, v) :: rest => if k = key then some v else member? key rest

end Toml

end Rollout
