import Mathlib.Order.Bounds.Defs
import Rollout.Text.EditDistance

/-!
The edit distance computed row by row is the least number of edits. An edit inserts, drops or
replaces one byte anywhere; `Turns n` are `n` edits after each other. Between the two stands the
distance by the first bytes (`distance`): it is enough edits, no fewer will do, and the cells of a
row are the distances of what the rows and the cells have come to so far.
-/

namespace Rollout.Text

variable {s s' t u : List UInt8} {b c : UInt8} {m n : Nat}

/-! ## Edits -/

/-- One edit of one byte. -/
inductive Edit : List UInt8 → List UInt8 → Prop where
  | insert (l r : List UInt8) (b : UInt8) : Edit (l ++ r) (l ++ b :: r)
  | drop (l r : List UInt8) (b : UInt8) : Edit (l ++ b :: r) (l ++ r)
  | replace (l r : List UInt8) (b c : UInt8) : Edit (l ++ b :: r) (l ++ c :: r)

/-- So many edits, one after the other. -/
inductive Turns : Nat → List UInt8 → List UInt8 → Prop where
  | none (s : List UInt8) : Turns 0 s s
  | more {n : Nat} {s s' t : List UInt8} (edit : Edit s s') (rest : Turns n s' t) :
      Turns (n + 1) s t

theorem Edit.symm (h : Edit s t) : Edit t s := by
  cases h with
  | insert l r b => exact .drop l r b
  | drop l r b => exact .insert l r b
  | replace l r b c => exact .replace l r c b

theorem Edit.cons (h : Edit s t) (a : UInt8) : Edit (a :: s) (a :: t) := by
  cases h with
  | insert l r b => exact .insert (a :: l) r b
  | drop l r b => exact .drop (a :: l) r b
  | replace l r b c => exact .replace (a :: l) r b c

theorem Edit.reverse (h : Edit s t) : Edit s.reverse t.reverse := by
  cases h with
  | insert l r b =>
    rw [List.reverse_append, List.reverse_append, List.reverse_cons, List.append_assoc]
    exact .insert r.reverse l.reverse b
  | drop l r b =>
    rw [List.reverse_append, List.reverse_append, List.reverse_cons, List.append_assoc]
    exact .drop r.reverse l.reverse b
  | replace l r b c =>
    rw [List.reverse_append, List.reverse_append, List.reverse_cons, List.reverse_cons,
      List.append_assoc, List.append_assoc]
    exact .replace r.reverse l.reverse b c

namespace Turns

theorem trans (hm : Turns m s t) (hn : Turns n t u) : Turns (m + n) s u := by
  induction hm with
  | none s => rwa [Nat.zero_add]
  | more edit _ ih =>
    rw [Nat.add_right_comm]
    exact .more edit (ih hn)

theorem one (h : Edit s t) : Turns 1 s t := .more h (.none t)

theorem symm (h : Turns n s t) : Turns n t s := by
  induction h with
  | none s => exact .none s
  | more edit _ ih => exact ih.trans (one edit.symm)

theorem cons (h : Turns n s t) (a : UInt8) : Turns n (a :: s) (a :: t) := by
  induction h with
  | none s => exact .none (a :: s)
  | more edit _ ih => exact .more (edit.cons a) ih

theorem reverse (h : Turns n s t) : Turns n s.reverse t.reverse := by
  induction h with
  | none s => exact .none s.reverse
  | more edit _ ih => exact .more edit.reverse ih

theorem reverse_iff : Turns n s.reverse t.reverse ↔ Turns n s t := by
  refine ⟨fun h => ?_, reverse⟩
  simpa using h.reverse

theorem eq_of_zero (h : Turns 0 s t) : s = t := by
  cases h
  rfl

end Turns

/-! ## The distance by the first bytes -/

/-- What it costs to put one byte where another is. -/
def replacing (b c : UInt8) : Nat := if b = c then 0 else 1

theorem replacing_le (b c : UInt8) : replacing b c ≤ 1 := by
  unfold replacing
  split <;> omega

/-- The distance of two lists of bytes: the first byte is dropped, or one is inserted before it, or
it becomes the first byte of the other list. -/
def distance : List UInt8 → List UInt8 → Nat
  | [], t => t.length
  | _ :: s, [] => s.length + 1
  | b :: s, c :: t =>
    min (min (distance s (c :: t) + 1) (distance (b :: s) t + 1)) (distance s t + replacing b c)

@[simp] theorem distance_nil (t : List UInt8) : distance [] t = t.length := by
  rw [distance]

@[simp] theorem distance_nil_right (s : List UInt8) : distance s [] = s.length := by
  cases s with
  | nil => rw [distance]
  | cons b s => rw [distance, List.length_cons]

theorem distance_cons_cons (b c : UInt8) (s t : List UInt8) :
    distance (b :: s) (c :: t) =
      min (min (distance s (c :: t) + 1) (distance (b :: s) t + 1))
        (distance s t + replacing b c) := by
  rw [distance]

/-- There are that many edits. -/
theorem turns_distance (s t : List UInt8) : Turns (distance s t) s t := by
  induction s generalizing t with
  | nil =>
    rw [distance_nil]
    induction t with
    | nil => exact .none []
    | cons c t ih => exact ih.trans (.one (.insert [] t c))
  | cons b s ih =>
    have hdrop : Edit (b :: s) s := .drop [] s b
    induction t with
    | nil =>
      rw [distance_nil_right]
      have := ih []
      rw [distance_nil_right] at this
      exact .more hdrop this
    | cons c t iht =>
      have hinsert : Turns (distance (b :: s) t + 1) (b :: s) (c :: t) :=
        iht.trans (.one (.insert [] t c))
      have hreplace : Turns (distance s t + replacing b c) (b :: s) (c :: t) := by
        rw [replacing]
        split
        · subst c
          exact (ih t).cons b
        · exact .more (.replace [] s b c) ((ih t).cons c)
      rw [distance_cons_cons]
      rcases Nat.le_total (min (distance s (c :: t) + 1) (distance (b :: s) t + 1))
        (distance s t + replacing b c) with h | h
      · rw [Nat.min_eq_left h]
        rcases Nat.le_total (distance s (c :: t) + 1) (distance (b :: s) t + 1) with h' | h'
        · rw [Nat.min_eq_left h']
          exact .more hdrop (ih (c :: t))
        · rwa [Nat.min_eq_right h']
      · rwa [Nat.min_eq_right h]

/-! ## No fewer edits will do -/

theorem distance_insert (s t : List UInt8) (c : UInt8) :
    distance s (c :: t) ≤ distance s t + 1 := by
  cases s with
  | nil => simp
  | cons b s =>
    rw [distance_cons_cons]
    omega

/-- Two lists are almost alike if the one is as far from any list as the other, but for one edit. -/
def Nearby (s s' : List UInt8) : Prop := ∀ t, distance s t ≤ distance s' t + 1

theorem nearby_drop (s : List UInt8) (b : UInt8) : Nearby (b :: s) s := by
  intro t
  cases t with
  | nil => simp
  | cons c t =>
    rw [distance_cons_cons]
    omega

theorem nearby_insert (s : List UInt8) (b : UInt8) : Nearby s (b :: s) := by
  intro t
  induction t with
  | nil =>
    simp only [distance_nil_right, List.length_cons]
    omega
  | cons c t ih =>
    have := distance_insert s t c
    rw [distance_cons_cons]
    omega

theorem nearby_replace (s : List UInt8) (b c : UInt8) : Nearby (b :: s) (c :: s) := by
  intro t
  induction t with
  | nil => simp
  | cons d t ih =>
    have := replacing_le b d
    rw [distance_cons_cons, distance_cons_cons]
    omega

theorem Nearby.cons (h : Nearby s s') (b : UInt8) : Nearby (b :: s) (b :: s') := by
  intro t
  induction t with
  | nil =>
    have := h []
    simp only [distance_nil_right, List.length_cons] at this ⊢
    omega
  | cons c t ih =>
    have := h t
    have := h (c :: t)
    rw [distance_cons_cons, distance_cons_cons]
    omega

theorem Nearby.append (h : Nearby s s') (l : List UInt8) : Nearby (l ++ s) (l ++ s') := by
  induction l with
  | nil => exact h
  | cons b l ih => exact ih.cons b

theorem Edit.nearby (h : Edit s t) : Nearby s t := by
  cases h with
  | insert l r b => exact (nearby_insert r b).append l
  | drop l r b => exact (nearby_drop r b).append l
  | replace l r b c => exact (nearby_replace r b c).append l

theorem distance_self (s : List UInt8) : distance s s = 0 := by
  induction s with
  | nil => rw [distance_nil, List.length_nil]
  | cons b s ih =>
    rw [distance_cons_cons, ih, replacing, if_pos rfl]
    omega

theorem Turns.distance_le (h : Turns n s t) : distance s t ≤ n := by
  induction h with
  | none s => exact Nat.le_of_eq (distance_self s)
  | @more n s s' t edit _ ih =>
    have : distance s t ≤ distance s' t + 1 := edit.nearby t
    omega

theorem isLeast_distance (s t : List UInt8) : IsLeast {n | Turns n s t} (distance s t) :=
  ⟨turns_distance s t, fun _ h => h.distance_le⟩

/-! ## Row by row -/

/-- The distance by the last bytes. -/
def distanceBack (s t : List UInt8) : Nat := distance s.reverse t.reverse

theorem distanceBack_concat (s t : List UInt8) (b c : UInt8) :
    distanceBack (s ++ [b]) (t ++ [c]) =
      min (min (distanceBack s (t ++ [c]) + 1) (distanceBack (s ++ [b]) t + 1))
        (distanceBack s t + replacing b c) := by
  simp only [distanceBack, List.reverse_append, List.reverse_singleton, List.singleton_append]
  exact distance_cons_cons ..

/-- The distances of `s` from what `t` and the beginnings of `more` make together, all but the
empty one. -/
def distances (s t : List UInt8) : (more : List UInt8) → List Nat
  | [] => []
  | c :: more => distanceBack s (t ++ [c]) :: distances s (t ++ [c]) more

theorem rowTail_eq (s : List UInt8) (b : UInt8) (t more : List UInt8) :
    rowTail b (distanceBack (s ++ [b]) t) (distanceBack s t) (distances s t more) more =
      distances (s ++ [b]) t more := by
  induction more generalizing t with
  | nil => rfl
  | cons c more ih =>
    have hcell : min (min (distanceBack s (t ++ [c]) + 1) (distanceBack (s ++ [b]) t + 1))
        (distanceBack s t + if b = c then 0 else 1) = distanceBack (s ++ [b]) (t ++ [c]) :=
      (distanceBack_concat s t b c).symm
    simp only [distances, rowTail, hcell, ih]

theorem nextRow_eq (s : List UInt8) (b : UInt8) (target : List UInt8) :
    nextRow target b (distanceBack s [] :: distances s [] target) =
      distanceBack (s ++ [b]) [] :: distances (s ++ [b]) [] target := by
  have hfirst : distanceBack s [] + 1 = distanceBack (s ++ [b]) [] := by
    simp [distanceBack]
  rw [nextRow, hfirst, rowTail_eq]

theorem distances_nil (t more : List UInt8) :
    distances [] t more = List.range' (t.length + 1) more.length := by
  induction more generalizing t with
  | nil => rfl
  | cons c more ih =>
    rw [distances, ih, List.length_cons, List.range'_succ]
    simp [distanceBack]

/-- The row of a list of bytes holds its distances from all beginnings of the target. -/
theorem lastRow_eq (source target : List UInt8) :
    lastRow source target = distanceBack source [] :: distances source [] target := by
  have hfrom (s more : List UInt8) :
      more.foldl (fun row b => nextRow target b row) (distanceBack s [] :: distances s [] target) =
        distanceBack (s ++ more) [] :: distances (s ++ more) [] target := by
    induction more generalizing s with
    | nil => rw [List.append_nil, List.foldl_nil]
    | cons b more ih => rw [List.foldl_cons, nextRow_eq, ih, List.append_assoc, List.singleton_append]
  have hstart : List.range (target.length + 1) = distanceBack [] [] :: distances [] [] target := by
    rw [distances_nil, List.range_eq_range', List.range'_succ]
    simp [distanceBack]
  rw [lastRow, hstart, hfrom, List.nil_append]

theorem getLastD_distances (s t more : List UInt8) :
    (distanceBack s t :: distances s t more).getLastD 0 = distanceBack s (t ++ more) := by
  induction more generalizing t with
  | nil => rw [List.append_nil, distances, List.getLastD_cons, List.getLastD_nil]
  | cons c more ih =>
    have := ih (t ++ [c])
    rw [List.getLastD_cons] at this
    rw [distances, List.getLastD_cons, List.getLastD_cons, this, List.append_assoc,
      List.singleton_append]

theorem isLeast_editDistanceBytes (s t : List UInt8) :
    IsLeast {n | Turns n s t} (editDistanceBytes s t) := by
  rw [editDistanceBytes, lastRow_eq, getLastD_distances, List.nil_append]
  have h := isLeast_distance s.reverse t.reverse
  simp only [Turns.reverse_iff] at h
  exact h

end Rollout.Text
