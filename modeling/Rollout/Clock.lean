/-!
A clock that only waiting moves on.
-/

namespace Rollout

/-- The time that has passed, in milliseconds, and how often it was waited for. -/
structure Clock where
  elapsed : Nat
  sleeps : Nat
deriving DecidableEq, Repr

namespace Clock

/-- The clock before any waiting. -/
def start : Clock := ⟨0, 0⟩

instance : Inhabited Clock := ⟨start⟩

/-- The clock after waiting. -/
def sleep (duration : Nat) (c : Clock) : Clock := ⟨c.elapsed + duration, c.sleeps + 1⟩

end Clock

end Rollout
