/-!
How long a run waits: how often it asks for the status of a stack and when it gives up, and how
often it looks for an export. Times are in milliseconds.
-/

namespace Rollout

/-- A number of seconds as a time. -/
def seconds (n : Nat) : Nat := n * 1000

/-- Asking for a status every `interval` until `timeout` has passed. -/
structure PollPolicy where
  interval : Nat
  timeout : Nat
deriving DecidableEq, Repr

/-- Polling every five seconds for an hour. -/
def PollPolicy.standard : PollPolicy := ⟨seconds 5, seconds (60 * 60)⟩

instance : Inhabited PollPolicy := ⟨.standard⟩

/-- Trying several times, with `interval` between two attempts. There is at least one. -/
structure RetryPolicy where
  attempts : Nat
  interval : Nat
  attempts_pos : 0 < attempts
deriving DecidableEq, Repr

/-- So many attempts, but at least one. -/
def RetryPolicy.ofAttempts (attempts interval : Nat) : RetryPolicy :=
  ⟨max attempts 1, interval, by omega⟩

/-- Fifteen attempts, three seconds apart. -/
def RetryPolicy.standard : RetryPolicy := .ofAttempts 15 (seconds 3)

instance : Inhabited RetryPolicy := ⟨.standard⟩

end Rollout
