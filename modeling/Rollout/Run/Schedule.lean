/-!
Schedules: the order in which jobs that run side by side come to their end. Nothing is promised
about it but that every job gets its turn once.
-/

namespace Rollout

/-- An order of `n` jobs, by their numbers. -/
structure Schedule (n : Nat) where
  order : List Nat
  perm : order.Perm (List.range n)

namespace Schedule

/-- One job after the other. -/
def inOrder (n : Nat) : Schedule n := ⟨List.range n, .refl _⟩

instance (n : Nat) : Inhabited (Schedule n) := ⟨inOrder n⟩

/-- The jobs of a list in the order of a schedule. -/
def arrange {α : Type} (jobs : List α) (s : Schedule jobs.length) : List α :=
  s.order.filterMap fun i => jobs[i]?

/-- The first entry of a number. -/
def lookup {β : Type} (i : Nat) : List (Nat × β) → Option β
  | [] => none
  | (j, b) :: rest => if j = i then some b else lookup i rest

/-- Outcomes that came in the order of a schedule, put back into the order of the jobs. -/
def restore {β : Type} {n : Nat} (s : Schedule n) (outcomes : List β) : List β :=
  (List.range n).filterMap fun i => lookup i (s.order.zip outcomes)

end Schedule

end Rollout
