import Rollout.Clock
import Rollout.Proofs.Run.Protocol
import Rollout.Rehearsal.Script
import Rollout.Run.Lifecycle

/-!
Waiting, with every answer foretold. An oracle says what the provider answers to each of its calls
and whether the flag is up at each look, without an end and without any link between the answers;
the clock goes on while a run sleeps and at no other time.

Polling ends in the first round in which the flag is up, the provider errs or the status is final.
If there is none up to the round in which the timeout has passed, it ends in that one.
-/

namespace Rollout

/-- What a provider answers to the calls made of it, and whether the flag is up when it is looked
at, by the number of the call and of the look. -/
structure Oracle where
  status : Nat → Except ProviderError StackStatus
  page : Nat → Except ProviderError ExportPage
  raised : Nat → Bool

namespace Oracle

/-- How far a run has come: the requests it has made, how many of them were calls of the provider
and looks at the flag, and the clock. -/
structure Progress where
  requests : List Request
  calls : Nat
  looks : Nat
  clock : Clock

namespace Progress

/-- The progress at the start of a run. -/
def start (clock : Clock) : Progress := ⟨[], 0, 0, clock⟩

/-- The progress after a request. -/
def next (s : Progress) : Request → Progress
  | .stack c => ⟨s.requests ++ [.stack c], s.calls + 1, s.looks, s.clock⟩
  | .control .isCancelled =>
    ⟨s.requests ++ [.control .isCancelled], s.calls, s.looks + 1, s.clock⟩
  | .control (.sleep duration) =>
    ⟨s.requests ++ [.control (.sleep duration)], s.calls, s.looks, s.clock.sleep duration⟩
  | r => { s with requests := s.requests ++ [r] }

/-- The progress after requests made one after the other. -/
def after (s : Progress) (rs : List Request) : Progress := rs.foldl next s

end Progress

/-- What an oracle says about the run itself. -/
def answerControl (o : Oracle) (s : Progress) : (c : ControlCall) → c.Answer
  | .isCancelled => o.raised s.looks
  | .now => s.clock.elapsed
  | .sleep _ => ()
  | .emit _ => ()
  | .schedule jobs _ => .inOrder jobs

/-- What the provider answers. Only statuses and exports are foretold. -/
def answerStack (o : Oracle) (s : Progress) : (c : StackCall) → Except ProviderError c.Result
  | .status _ => o.status s.calls
  | .listExports _ => o.page s.calls
  | .create .. => .error (.unavailable "not foretold")
  | .update .. => .error (.unavailable "not foretold")
  | .delete _ => .error (.unavailable "not foretold")

/-- What an oracle answers: it has a stack provider, and nothing else. -/
def answer (o : Oracle) (s : Progress) : (r : Request) → r.Answer
  | .store _ => .error (.service "no object store")
  | .stack c => o.answerStack s c
  | .hook _ => .crashed
  | .record _ => .error (.files (.ofString "") "no records")
  | .onMachine c => Rehearsal.look c
  | .control c => o.answerControl s c

/-- The handler of an oracle. -/
def handler (o : Oracle) : Handler Progress := ⟨fun r s => (o.answer s r, s.next r)⟩

end Oracle

namespace Run

variable {σ α β : Type} {h : Handler σ} {s s' : σ}

/-- A run goes on where its first part ended well. -/
theorem outcome_bind_of_ok {p : Run α} {a : α} (hp : p.outcome h s = (some (.ok a), s'))
    (f : α → Run β) : (p >>= f).outcome h s = (f a).outcome h s' := by
  show Program.run h (p.run.bind _) s = _
  rw [Program.run_bind, show Program.run h p.run s = _ from hp]
  rfl

/-- A run ends where its first part failed. -/
theorem outcome_bind_of_error {p : Run α} {e : Failure}
    (hp : p.outcome h s = (some (.error e), s')) (f : α → Run β) :
    (p >>= f).outcome h s = (some (.error e), s') := by
  show Program.run h (p.run.bind _) s = _
  rw [Program.run_bind, show Program.run h p.run s = _ from hp]
  rfl

end Run

namespace Oracle

variable {o : Oracle}

/-- Looking at the flag. -/
theorem outcome_checkCancelled (s : Progress) : Run.checkCancelled.outcome o.handler s =
    (some (if o.raised s.looks then .error .cancelled else .ok ()),
      s.next (.control .isCancelled)) := by
  rw [Run.checkCancelled, Run.outcome_bind_of_ok (a := o.raised s.looks) rfl]
  cases o.raised s.looks <;> rfl

/-- Asking for a status. -/
theorem outcome_status (name : String) (s : Progress) :
    (Lifecycle.status name).outcome o.handler s =
      (some ((o.status s.calls).mapError .provider), s.next (.stack (.status name))) := by
  have hask : Program.run o.handler (Program.request (.stack (.status name))) s =
      (some (o.status s.calls), s.next (.stack (.status name))) := rfl
  show Program.run o.handler (Program.bind _ _) s = _
  rw [Program.run_bind, hask]
  cases o.status s.calls <;> rfl

end Oracle

/-! ## Timeouts -/

namespace PollPolicy

variable {p : PollPolicy} {n : Nat}

/-- How many sleeps it takes until the timeout has passed. -/
def sleeps (p : PollPolicy) : Nat := (p.timeout + p.interval - 1) / p.interval

theorem timeout_le_sleeps (h : 0 < p.interval) : p.timeout ≤ p.sleeps * p.interval := by
  have := Nat.lt_div_mul_add h (a := p.timeout + p.interval - 1)
  unfold sleeps
  omega

theorem sleeps_lt (h : 0 < p.interval) : p.sleeps * p.interval < p.timeout + p.interval := by
  have := Nat.div_mul_le_self (p.timeout + p.interval - 1) p.interval
  unfold sleeps
  omega

theorem lt_timeout (h : 0 < p.interval) (hn : n < p.sleeps) : n * p.interval < p.timeout := by
  have hnext : (n + 1) * p.interval ≤ p.sleeps * p.interval := Nat.mul_le_mul_right _ hn
  have := sleeps_lt h
  rw [Nat.succ_mul] at hnext
  omega

end PollPolicy

/-! ## Polling -/

namespace Oracle

variable {o : Oracle} {poll : PollPolicy} {name : String} {clock : Clock} {rounds : Nat}

/-- How a round ends polling, if it does: the flag is up before the status is asked for, the
provider errs, or the status is final. -/
def verdict (o : Oracle) (name : String) (k : Nat) : Option (Except Failure StackStatus) :=
  if o.raised k then some (.error .cancelled)
  else
    match o.status k with
    | .error e => some (.error (.provider e))
    | .ok s =>
      if s.isTerminal then some (if s.isFailure then .error (.stackFailed name s) else .ok s)
      else none

/-- The requests of a round: a look at the flag, the question, a look at the time and a sleep. -/
def round (poll : PollPolicy) (name : String) : List Request :=
  [.control .isCancelled, .stack (.status name), .control .now, .control (.sleep poll.interval)]

/-- The progress when a round begins: the time was taken, and the rounds before were gone through. -/
def before (poll : PollPolicy) (name : String) (clock : Clock) (rounds : Nat) : Progress :=
  (Progress.start clock).after
    (.control .now :: (List.replicate rounds (round poll name)).flatten)

theorem before_succ : before poll name clock (rounds + 1) =
    (before poll name clock rounds).after (round poll name) := by
  rw [before, List.replicate_succ', List.flatten_concat, ← List.cons_append, Progress.after,
    List.foldl_append]
  rfl

theorem calls_before : (before poll name clock rounds).calls = rounds := by
  induction rounds with
  | zero => rfl
  | succ rounds ih =>
    rw [before_succ]
    exact congrArg (· + 1) ih

theorem looks_before : (before poll name clock rounds).looks = rounds := by
  induction rounds with
  | zero => rfl
  | succ rounds ih =>
    rw [before_succ]
    exact congrArg (· + 1) ih

theorem elapsed_before :
    (before poll name clock rounds).clock.elapsed = clock.elapsed + rounds * poll.interval := by
  induction rounds with
  | zero => rw [Nat.zero_mul]; rfl
  | succ rounds ih =>
    rw [before_succ, Nat.succ_mul, ← Nat.add_assoc]
    exact congrArg (· + poll.interval) ih

/-- A round of polling. -/
theorem outcome_pollFrom (started rounds : Nat) (s : Progress) :
    (Lifecycle.pollFrom poll name started (rounds + 1)).outcome o.handler s =
      if o.raised s.looks then (some (.error .cancelled), s.after [.control .isCancelled])
      else
        match o.status s.calls with
        | .error e =>
          (some (.error (.provider e)), s.after [.control .isCancelled, .stack (.status name)])
        | .ok st =>
          if st.isTerminal then
            (some (if st.isFailure then .error (.stackFailed name st) else .ok st),
              s.after [.control .isCancelled, .stack (.status name)])
          else if poll.timeout ≤ s.clock.elapsed - started then
            (some (.error (.pollTimeout name (s.clock.elapsed - started))),
              s.after [.control .isCancelled, .stack (.status name), .control .now])
          else
            (Lifecycle.pollFrom poll name started rounds).outcome o.handler
              (s.after (round poll name)) := by
  have hlook := o.outcome_checkCancelled s
  have hask := o.outcome_status name (s.next (.control .isCancelled))
  rw [Lifecycle.pollFrom]
  by_cases hraised : o.raised s.looks
  · rw [if_pos hraised] at hlook ⊢
    exact Run.outcome_bind_of_error hlook _
  rw [if_neg hraised] at hlook ⊢
  rw [Run.outcome_bind_of_ok hlook]
  rw [show (s.next (.control .isCancelled)).calls = s.calls from rfl] at hask
  cases hstatus : o.status s.calls with
  | error e =>
    rw [hstatus] at hask
    exact Run.outcome_bind_of_error hask _
  | ok st =>
    rw [hstatus] at hask
    rw [Run.outcome_bind_of_ok hask]
    dsimp only
    split
    · split <;> rfl
    · rw [Run.outcome_bind_of_ok (a := s.clock.elapsed) rfl]
      split
      · rfl
      · exact Run.outcome_bind_of_ok rfl _

/-- A round that ends polling asks for the status unless the flag is up. -/
theorem pollFrom_of_verdict {r : Except Failure StackStatus} (h : o.verdict name rounds = some r)
    (started more : Nat) :
    (Lifecycle.pollFrom poll name started (more + 1)).outcome o.handler
        (before poll name clock rounds) =
      (some r, (before poll name clock rounds).after
        (if o.raised rounds then [.control .isCancelled]
        else [.control .isCancelled, .stack (.status name)])) := by
  rw [outcome_pollFrom, looks_before, calls_before]
  unfold verdict at h
  by_cases hraised : o.raised rounds
  · rw [if_pos hraised] at h
    cases h
    rw [if_pos hraised, if_pos hraised]
  rw [if_neg hraised] at h
  rw [if_neg hraised, if_neg hraised]
  cases hstatus : o.status rounds with
  | error e =>
    rw [hstatus] at h
    cases h
    rfl
  | ok st =>
    rw [hstatus] at h
    obtain ⟨hterminal, hr⟩ := Option.ite_none_right_eq_some.1 h
    cases hr
    exact if_pos hterminal

/-- After any other round the time is looked at, and there is a sleep unless it has run out. -/
theorem pollFrom_of_none (h : o.verdict name rounds = none) (more : Nat) :
    (Lifecycle.pollFrom poll name clock.elapsed (more + 1)).outcome o.handler
        (before poll name clock rounds) =
      if poll.timeout ≤ rounds * poll.interval then
        (some (.error (.pollTimeout name (rounds * poll.interval))),
          (before poll name clock rounds).after
            [.control .isCancelled, .stack (.status name), .control .now])
      else
        (Lifecycle.pollFrom poll name clock.elapsed more).outcome o.handler
          (before poll name clock (rounds + 1)) := by
  rw [outcome_pollFrom, looks_before, calls_before, elapsed_before, Nat.add_sub_cancel_left]
  unfold verdict at h
  by_cases hraised : o.raised rounds
  · rw [if_pos hraised] at h
    cases h
  rw [if_neg hraised] at h ⊢
  cases hstatus : o.status rounds with
  | error e =>
    rw [hstatus] at h
    cases h
  | ok st =>
    rw [hstatus] at h
    have hterminal : ¬st.isTerminal := by simpa using h
    dsimp only
    rw [if_neg hterminal, before_succ]

/-- Rounds that do not end polling are gone through until the timeout. -/
theorem pollFrom_skip (hinterval : 0 < poll.interval) (more : Nat) (hrounds : rounds ≤ poll.sleeps)
    (hnone : ∀ k < rounds, o.verdict name k = none) :
    (Lifecycle.pollFrom poll name clock.elapsed (rounds + more)).outcome o.handler
        (before poll name clock 0) =
      (Lifecycle.pollFrom poll name clock.elapsed more).outcome o.handler
        (before poll name clock rounds) := by
  induction rounds generalizing more with
  | zero => rw [Nat.zero_add]
  | succ rounds ih =>
    have hlt := PollPolicy.lt_timeout hinterval (Nat.lt_of_succ_le hrounds)
    rw [Nat.succ_add, ← Nat.add_succ, ih _ (by omega) fun k hk => hnone k (by omega),
      pollFrom_of_none (hnone rounds (by omega)), if_neg (by omega)]

end Oracle

namespace Lifecycle

open Oracle

/-- Polling ends exactly when it should. With `N` the number of sleeps until the timeout has passed,
polling ends in the first round up to `N` that ends it, in which the status is not asked for if the
flag is up, and with the timeout if there is none up to `N`; every round before that asked for the
status once and slept once. -/
theorem pollUntilTerminal_ends (o : Oracle) (w : Waiting) (name : String) (clock : Clock)
    (hinterval : 0 < w.poll.interval) (hpatience : w.poll.sleeps < w.patience) :
    (∀ k ≤ w.poll.sleeps, (∀ earlier < k, o.verdict name earlier = none) →
      ∀ r, o.verdict name k = some r →
        (pollUntilTerminal w name).outcome o.handler (.start clock) =
          (some r, (before w.poll name clock k).after
            (if o.raised k then [.control .isCancelled]
            else [.control .isCancelled, .stack (.status name)]))) ∧
    ((∀ k ≤ w.poll.sleeps, o.verdict name k = none) →
      (pollUntilTerminal w name).outcome o.handler (.start clock) =
        (some (.error (.pollTimeout name (w.poll.sleeps * w.poll.interval))),
          (before w.poll name clock w.poll.sleeps).after
            [.control .isCancelled, .stack (.status name), .control .now])) ∧
    w.poll.timeout ≤ w.poll.sleeps * w.poll.interval ∧
    w.poll.sleeps * w.poll.interval < w.poll.timeout + w.poll.interval := by
  have hstart : (pollUntilTerminal w name).outcome o.handler (.start clock) =
      (pollFrom w.poll name clock.elapsed w.patience).outcome o.handler
        (before w.poll name clock 0) := Run.outcome_bind_of_ok (a := clock.elapsed) rfl _
  refine ⟨fun k hk hnone r hr => ?_, fun hnone => ?_,
    PollPolicy.timeout_le_sleeps hinterval, PollPolicy.sleeps_lt hinterval⟩
  · obtain ⟨more, hmore⟩ : ∃ more, w.patience = k + (more + 1) := ⟨w.patience - k - 1, by omega⟩
    rw [hstart, hmore, pollFrom_skip hinterval (more + 1) hk hnone, pollFrom_of_verdict hr]
  · obtain ⟨more, hmore⟩ : ∃ more, w.patience = w.poll.sleeps + (more + 1) :=
      ⟨w.patience - w.poll.sleeps - 1, by omega⟩
    rw [hstart, hmore, pollFrom_skip hinterval (more + 1) (Nat.le_refl _) fun k hk =>
      hnone k (Nat.le_of_lt hk), pollFrom_of_none (hnone _ (Nat.le_refl _)),
      if_pos (PollPolicy.timeout_le_sleeps hinterval)]

namespace Sample

/-- A stack that is complete when it is asked about for the third time. -/
def slow : Oracle := ⟨fun n => .ok (if n < 2 then .createInProgress else .createComplete),
  fun _ => .error (.unavailable "no exports"), fun _ => false⟩

/-- Every five seconds, for twelve seconds. -/
def brief : Waiting := ⟨⟨seconds 5, seconds 12⟩, .standard, 4⟩

end Sample

/-- A stack is waited for through two sleeps; if it took longer, the timeout would have passed after
three. -/
theorem pollUntilTerminal_ends_sample :
    0 < Sample.brief.poll.interval ∧ Sample.brief.poll.sleeps < Sample.brief.patience ∧
      (pollUntilTerminal Sample.brief "shop-dev").outcome Sample.slow.handler (.start .start) =
        (some (.ok .createComplete), (before Sample.brief.poll "shop-dev" .start 2).after
          [.control .isCancelled, .stack (.status "shop-dev")]) :=
  ⟨by decide, by decide, (pollUntilTerminal_ends Sample.slow Sample.brief "shop-dev" .start
    (by decide) (by decide)).1 2 (by decide) (by decide) _ rfl⟩

end Lifecycle

end Rollout
