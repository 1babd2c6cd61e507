import Rollout.Text.Order

/-!
Finite maps from texts, kept in the order of their keys. The equations about looking up what
was inserted or erased hold of every list of entries, ordered or not.
-/

namespace Rollout

/-- The entries of a map, in key order. -/
abbrev TextMap (α : Type) := List (String × α)

namespace TextMap

variable {α β : Type}

/-- The value of a key. -/
def get? (k : String) : TextMap α → Option α
  | [] => none
  | (k', v) :: rest => if k' = k then some v else get? k rest

/-- Binds a key, in place of its old value if it has one. -/
def insert (k : String) (v : α) : TextMap α → TextMap α
  | [] => [(k, v)]
  | (k', v') :: rest =>
    if k' = k then (k, v) :: rest
    else if Text.precedes k k' then (k, v) :: (k', v') :: rest
    else (k', v') :: insert k v rest

/-- Drops a key. -/
def erase (k : String) (m : TextMap α) : TextMap α :=
  m.filter fun e => e.1 ≠ k

/-- Whether a key is bound. -/
def contains (k : String) (m : TextMap α) : Bool :=
  (m.get? k).isSome

/-- The bound keys, in order. -/
def keys (m : TextMap α) : List String :=
  m.map (·.1)

/-- The bound values, in key order. -/
def values (m : TextMap α) : List α :=
  m.map (·.2)

/-- The map of a list of bindings; the last binding of a key stands. -/
def ofList (l : List (String × α)) : TextMap α :=
  l.foldl (fun m e => m.insert e.1 e.2) []

/-- All bindings of `m`, and over them those of `n`. -/
def union (m n : TextMap α) : TextMap α :=
  n.foldl (fun m e => m.insert e.1 e.2) m

/-- The keys stand in order, each once. -/
def Ordered (m : TextMap α) : Prop :=
  m.Pairwise fun a b => Text.precedes a.1 b.1 = true

@[simp] theorem get?_nil (k : String) : get? k ([] : TextMap α) = none := rfl

theorem get?_cons (k : String) (e : String × α) (m : TextMap α) :
    get? k (e :: m) = if e.1 = k then some e.2 else get? k m := rfl

theorem get?_insert (k k' : String) (v : α) (m : TextMap α) :
    get? k' (insert k v m) = if k = k' then some v else get? k' m := by
  induction m with
  | nil => simp [insert, get?]
  | cons e m ih =>
    obtain ⟨a, b⟩ := e
    simp only [insert]
    split
    · rename_i h; subst h
      simp only [get?]
      split <;> rfl
    · split
      · simp only [get?]
      · simp only [get?, ih]
        split
        · rename_i hak; subst hak
          split
          · rename_i h _ hk; exact absurd hk.symm h
          · rfl
        · rfl

@[simp] theorem get?_insert_self (k : String) (v : α) (m : TextMap α) :
    get? k (insert k v m) = some v := by simp [get?_insert]

theorem get?_insert_of_ne {k k' : String} (h : k ≠ k') (v : α) (m : TextMap α) :
    get? k' (insert k v m) = get? k' m := by simp [get?_insert, h]

theorem get?_erase (k k' : String) (m : TextMap α) :
    get? k' (erase k m) = if k = k' then none else get? k' m := by
  induction m with
  | nil => simp [erase]
  | cons e m ih =>
    obtain ⟨a, b⟩ := e
    by_cases ha : a = k
    · subst ha
      simp only [erase, List.filter_cons, ne_eq, not_true_eq_false, decide_false,
        Bool.false_eq_true, if_false]
      rw [show (List.filter (fun e => decide ¬e.1 = a) m) = erase a m from rfl, ih]
      simp only [get?_cons]
      split <;> rfl
    · simp only [erase, List.filter_cons, ne_eq, ha, not_false_eq_true, decide_true, if_true]
      rw [show (List.filter (fun e => decide ¬e.1 = k) m) = erase k m from rfl]
      simp only [get?_cons, ih]
      split
      · rename_i h; subst h
        rw [if_neg (fun h => ha h.symm)]
      · rfl

end TextMap

end Rollout
