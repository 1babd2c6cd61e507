import Rollout.Json.Fields
import Rollout.Proofs.Json.Reading

/-!
Reading records out of printed values: what a reader makes of the document of a list, of a map
and of a number, given what it makes of their parts.
-/

namespace Rollout.Json

variable {α : Type}

@[simp] theorem text?_written (s : String) : (Json.str s).written.text? = some s :=
  textOf?_piecesOf s

@[simp] theorem bool?_written (b : Bool) : (Json.bool b).written.bool? = some b := rfl

theorem natBelow?_written {n : Nat} (h : n < UInt64.size) :
    (Json.nat n).written.natBelow? UInt64.size = some n := by
  have hvalue : (Literal.ofInt (n : Int)).value? = some (.int n) :=
    value?_ofInt ⟨by omega, by exact_mod_cast h⟩
  have hwritten : (Json.nat n).written = .number (.ofInt (n : Int)) := rfl
  rw [hwritten, Written.natBelow?, hvalue]
  exact if_pos h

theorem lt_of_natBelow? {bound n : Nat} {w : Written} (h : w.natBelow? bound = some n) :
    n < bound := by
  cases w with
  | number l =>
    rw [Written.natBelow?] at h
    split at h
    · split at h
      · cases h
        assumption
      · cases h
    · cases h
  | _ => cases h

theorem eq_of_natBelow?_written {bound m n : Nat}
    (h : (Json.nat n).written.natBelow? bound = some m) : m = n ∧ n < bound := by
  have hbound := lt_of_natBelow? h
  have hwritten : (Json.nat n).written = .number (.ofInt (n : Int)) := rfl
  rw [hwritten, Written.natBelow?] at h
  split at h
  · rename_i k hk
    split at h
    · cases h
      obtain rfl : m = n := Int.ofNat.inj (eq_of_value?_ofNat hk)
      exact ⟨rfl, hbound⟩
    · cases h
  · cases h

theorem list?_written {read : Written → Option α} {f : α → Json}
    (h : ∀ a, read (f a).written = some a) (as : List α) :
    (Json.arr (as.map f)).written.list? read = some as := by
  have hall : readAll read (writtenItems (as.map f)) = some as := by
    induction as with
    | nil => rfl
    | cons a as ih => simp [writtenItems, readAll, h, ih]
  exact hall

theorem readBindings_writtenMembers {read : Written → Option α} {f : α → Json}
    (h : ∀ a, read (f a).written = some a) (m : List (String × α)) :
    readBindings read (writtenMembers (m.map fun e => (e.1, f e.2))) = some m := by
  induction m with
  | nil => rfl
  | cons e m ih => simp [writtenMembers, readBindings, h, ih]

theorem map?_written {read : Written → Option α} {f : α → Json}
    (h : ∀ a, read (f a).written = some a) {m : TextMap α} (hm : m.Ordered) :
    (Json.obj (m.map fun e => (e.1, f e.2))).written.map? read = some m := by
  rw [written, Written.map?, readBindings_writtenMembers h, Option.map_some,
    TextMap.ofList_of_ordered hm]

theorem ordered_of_map? {read : Written → Option α} {w : Written} {m : TextMap α}
    (h : w.map? read = some m) : m.Ordered := by
  cases w with
  | obj members =>
    obtain ⟨l, -, rfl⟩ := Option.map_eq_some_iff.1 h
    exact TextMap.ordered_ofList l
  | _ => cases h

/-- The members of the document of an object, by their names. -/
theorem readBindings_some (members : List (String × Json)) :
    readBindings some (writtenMembers members) =
      some (members.map fun e => (e.1, e.2.written)) := by
  induction members with
  | nil => rfl
  | cons e members ih =>
    obtain ⟨name, v⟩ := e
    simp [writtenMembers, readBindings, ih]

theorem fields?_written (names : List String) (members : List (String × Json)) :
    (Json.obj members).written.fields? names =
      names.mapM (fieldOf? (members.map fun e => (e.1, e.2.written))) := by
  rw [written, Written.fields?, readBindings_some]
  rfl

end Rollout.Json
