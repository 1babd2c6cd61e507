import Rollout.Clock
import Rollout.Run.Program

/-!
Scripts for rehearsals: a stack provider that answers from lists, one answer a call, and keeps
the calls made of it.
-/

namespace Rollout

/-- A scripted answer: what the provider says, and whether the run is asked to stop just then. -/
structure Cue (α : Type) where
  answer : Except ProviderError α
  cancel : Bool

/-- What a scripted provider is going to say. -/
structure Script where
  create : Except ProviderError CreateOutcome
  update : Except ProviderError UpdateOutcome
  delete : Except ProviderError Unit
  statuses : List (Cue StackStatus)
  /-- Whether the last status is said again and again. -/
  repeatLast : Bool
  pages : List (Cue ExportPage)

/-- A rehearsal: the script from here on, the calls made so far, the clock and the flag. -/
structure Rehearsal where
  script : Script
  calls : List StackCall
  clock : Clock
  cancelled : Bool

namespace Rehearsal

/-- The next status and the statuses after it. Beyond the last there is no stack. -/
def nextStatus (repeatLast : Bool) :
    List (Cue StackStatus) → Cue StackStatus × List (Cue StackStatus)
  | [] => (⟨.ok .absent, false⟩, [])
  | [last] => (last, if repeatLast then [last] else [])
  | next :: rest => (next, rest)

/-- The next page and the pages after it. Beyond the last, pages are empty. -/
def nextPage : List (Cue ExportPage) → Cue ExportPage × List (Cue ExportPage)
  | [] => (⟨.ok ⟨[], none⟩, false⟩, [])
  | next :: rest => (next, rest)

/-- The rehearsal after a call. -/
def logged (s : Rehearsal) (c : StackCall) : Rehearsal := { s with calls := s.calls ++ [c] }

/-- How a scripted provider answers. -/
def answerStack (s : Rehearsal) :
    (c : StackCall) → Except ProviderError c.Result × Rehearsal
  | .create .. => (s.script.create, s)
  | .update .. => (s.script.update, s)
  | .delete _ => (s.script.delete, s)
  | .status _ =>
    let (cue, statuses) := nextStatus s.script.repeatLast s.script.statuses
    (cue.answer,
      { s with script := { s.script with statuses }, cancelled := s.cancelled || cue.cancel })
  | .listExports _ =>
    let (cue, pages) := nextPage s.script.pages
    (cue.answer,
      { s with script := { s.script with pages }, cancelled := s.cancelled || cue.cancel })

/-- How a rehearsal answers about the run itself. -/
def answerControl (s : Rehearsal) : (c : ControlCall) → c.Answer × Rehearsal
  | .isCancelled => (s.cancelled, s)
  | .now => (s.clock.elapsed, s)
  | .sleep duration => ((), { s with clock := s.clock.sleep duration })
  | .emit _ => ((), s)
  | .schedule jobs _ => (.inOrder jobs, s)

/-- What a machine without any files shows. -/
def look : (c : LocalCall) → c.Answer
  | .project => .error (.files .notFound)
  | .template .. => .error (.files .notFound)
  | .fingerprint f => .error (.notFound f.entryPoint)
  | .read _ => .error .notFound
  | .source _ => .ok .missing

/-- How a rehearsal answers: it has a stack provider, and nothing else. -/
def answer : (r : Request) → Rehearsal → r.Answer × Rehearsal
  | .store _, s => (.error (.service "no object store"), s)
  | .stack c, s => (s.logged c).answerStack c
  | .hook _, s => (.crashed, s)
  | .record _, s => (.error (.files (.ofString "") "no records"), s)
  | .onMachine c, s => (look c, s)
  | .control c, s => s.answerControl c

/-- The handler of a rehearsal. -/
def handler : Handler Rehearsal := ⟨answer⟩

end Rehearsal

end Rollout
