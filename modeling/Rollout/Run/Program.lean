import Rollout.Run.Request

/-!
Programs: what a run does next depends on the answers to its requests alone. A program is a
tree of requests, each with the programs that follow its answers, so a run can be cut off,
watched or set among other runs without a word about any particular world. A world is a handler
that answers requests out of a state.
-/

namespace Rollout

/-- A program. -/
inductive Program (α : Type) where
  | done (a : α)
  | ask (r : Request) (next : r.Answer → Program α)
  /-- The end of patience in a loop without a bound of its own. -/
  | unfinished

namespace Program

variable {α β γ : Type}

/-- One program after another. -/
def bind : Program α → (α → Program β) → Program β
  | done a, next => next a
  | ask r rest, next => ask r fun answer => (rest answer).bind next
  | unfinished, _ => unfinished

instance : Monad Program where
  pure := done
  bind := bind

theorem bind_done (p : Program α) : p.bind done = p := by
  induction p with
  | done a => rfl
  | ask r rest ih => exact congrArg (ask r) (funext ih)
  | unfinished => rfl

theorem bind_assoc (p : Program α) (f : α → Program β) (g : β → Program γ) :
    (p.bind f).bind g = p.bind fun a => (f a).bind g := by
  induction p with
  | done a => rfl
  | ask r rest ih => exact congrArg (ask r) (funext ih)
  | unfinished => rfl

/-- The answer to a request. -/
def request (r : Request) : Program r.Answer := ask r done

end Program

/-- A world: how it answers a request, and what it is afterwards. -/
structure Handler (σ : Type) where
  answer : (r : Request) → σ → r.Answer × σ

/-- The end of a program in a world, and the world it leaves; no end if it ran out of
patience. -/
def Program.run {σ α : Type} (h : Handler σ) : Program α → σ → Option α × σ
  | done a, s => (some a, s)
  | ask r next, s => (next (h.answer r s).1).run h (h.answer r s).2
  | unfinished, s => (none, s)

theorem Program.run_bind {σ α β : Type} (h : Handler σ) (p : Program α) (f : α → Program β)
    (s : σ) :
    (p.bind f).run h s =
      match p.run h s with
      | (some a, s') => (f a).run h s'
      | (none, s') => (none, s') := by
  induction p generalizing s with
  | done a => rfl
  | ask r next ih => exact ih _ _
  | unfinished => rfl

/-- A program that may fail. -/
abbrev Run (α : Type) : Type := ExceptT Failure Program α

namespace Run

/-- A program that does not fail, as part of a run. -/
def liftProgram {α : Type} (p : Program α) : Run α := ExceptT.lift p

/-- The outcome of a program, as the outcome of a run. -/
def ofProgram {ε α : Type} (toFailure : ε → Failure) (p : Program (Except ε α)) : Run α :=
  ExceptT.mk (p.bind fun
    | .ok a => .done (.ok a)
    | .error e => .done (.error (toFailure e)))

/-- A call of the object store whose errors are told by `toFailure`. -/
def store (c : StoreCall) (toFailure : StoreError → Failure) : Run c.Result :=
  ofProgram toFailure (Program.request (.store c))

/-- A call of the stack provider whose errors are told by `toFailure`. -/
def stack (c : StackCall) (toFailure : ProviderError → Failure) : Run c.Result :=
  ofProgram toFailure (Program.request (.stack c))

/-- A call of the records. -/
def record (c : RecordCall) : Run c.Result :=
  ofProgram .record (Program.request (.record c))

/-- The time that has passed. -/
def now : Run Nat := liftProgram (Program.request (.control .now))

/-- Waits. -/
def sleep (duration : Nat) : Run Unit := liftProgram (Program.request (.control (.sleep duration)))

/-- Reports an event. -/
def emit (e : Event) : Run Unit := liftProgram (Program.request (.control (.emit e)))

/-- How jobs run by so many workers come to their end. -/
def schedule (jobs workers : Nat) : Run (Schedule jobs) :=
  liftProgram (Program.request (.control (.schedule jobs workers)))

/-- Stops here if the run was asked to. -/
def checkCancelled : Run Unit := do
  if ← liftProgram (Program.request (.control .isCancelled)) then throw .cancelled

/-- The end of patience. -/
def unfinished {α : Type} : Run α := ExceptT.mk .unfinished

end Run

end Rollout
