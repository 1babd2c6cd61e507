import Mathlib.Algebra.BigOperators.Group.Multiset.Basic
import Rollout.Proofs.Run.Batch

/-!
The workers of a batch, side by side. Each claims the next upload, carries it out request by
request, counts and reports it or notes its failure, and leaves when nothing is left to claim.
Whoever is next to do something is not said: a step is one worker's, between any two steps of the
others.

What the workers have in hand, what they have put on record and what they have asked for always
add up. That is a matter of each single move.
-/

namespace Rollout.Artifacts

/-- What a worker of a batch is at. -/
inductive Worker where
  /-- It is going to claim an upload. -/
  | free
  /-- It has a rest of an upload left to do, after some requests. -/
  | uploading (u : PendingUpload) (asked : List Request) (rest : Program (Except Failure Unit))
  /-- It has counted an upload and is going to report it. -/
  | reporting (count : Nat) (u : PendingUpload)
  /-- It found nothing left to claim. -/
  | gone

/-- What the workers of a batch share. -/
structure Board (σ : Type) where
  /-- The number of the upload to claim next. -/
  next : Nat
  done : Nat
  /-- The uploads reported as done, each with its count. -/
  reported : List (Nat × PendingUpload)
  refused : List (PendingUpload × Failure)
  /-- All requests made so far. -/
  log : List Request
  world : σ

/-- A batch under way. -/
structure Crew (σ : Type) where
  workers : List Worker
  board : Board σ

variable {σ α : Type}

/-- The report of an upload that is done. -/
def announcement (total count : Nat) (u : PendingUpload) : Request :=
  .control (.emit (.artifactUploaded count total u.key))

/-- What is told of uploads that failed: nothing if there are none. -/
def verdictOf (failures : List UploadFailure) : Except Failure Unit :=
  if failures.isEmpty then .ok ()
  else .error (.uploadsFailed (Text.sortWith (fun a b => Text.precedes a.key b.key) failures))

namespace Board

/-- A batch before anything is claimed. -/
def start (w : σ) : Board σ := ⟨0, 0, [], [], [], w⟩

/-- What the batch ends with. -/
def result (b : Board σ) : Except Failure Unit :=
  verdictOf (b.refused.map fun e => ⟨e.1.key, e.2.message⟩)

end Board

/-- What one worker does next, with what all workers share. -/
inductive Move (h : Handler σ) (bucket : String) (us : List PendingUpload) :
    Worker → Board σ → Worker → Board σ → Prop
  | claim {b u} (hu : us[b.next]? = some u) :
    Move h bucket us .free b (.uploading u [] (uploadFile bucket u).run) { b with next := b.next + 1 }
  | leave {b} (hnone : us[b.next]? = none) :
    Move h bucket us .free b .gone { b with next := b.next + 1 }
  | ask {b u asked r rest} :
    Move h bucket us (.uploading u asked (.ask r rest)) b
      (.uploading u (asked ++ [r]) (rest (h.answer r b.world).1))
      { b with log := b.log ++ [r], world := (h.answer r b.world).2 }
  | count {b u asked} :
    Move h bucket us (.uploading u asked (.done (.ok ()))) b
      (.reporting (b.done + 1) u) { b with done := b.done + 1 }
  | report {b n u} :
    Move h bucket us (.reporting n u) b .free
      { b with
        reported := b.reported ++ [(n, u)]
        log := b.log ++ [announcement us.length n u]
        world := (h.answer (announcement us.length n u) b.world).2 }
  | refuse {b u asked e} :
    Move h bucket us (.uploading u asked (.done (.error e))) b .free
      { b with refused := b.refused ++ [(u, e)] }

namespace Crew

variable {h : Handler σ} {bucket : String} {us : List PendingUpload} {c c' c'' : Crew σ}

/-- A batch that so many workers are about to begin. -/
def start (workers : Nat) (w : σ) : Crew σ := ⟨List.replicate workers .free, .start w⟩

/-- A batch that all workers have left. -/
def Finished (c : Crew σ) : Prop := ∀ w ∈ c.workers, w = .gone

/-- A move of some worker. -/
inductive Step (h : Handler σ) (bucket : String) (us : List PendingUpload) :
    Crew σ → Crew σ → Prop
  | of {before after w w' b b'} (hmove : Move h bucket us w b w' b') :
    Step h bucket us ⟨before ++ w :: after, b⟩ ⟨before ++ w' :: after, b'⟩

/-- So many moves, one after the other, by any workers. -/
inductive Steps (h : Handler σ) (bucket : String) (us : List PendingUpload) :
    Nat → Crew σ → Crew σ → Prop
  | refl (c : Crew σ) : Steps h bucket us 0 c c
  | step {n : Nat} {c c' c'' : Crew σ} (hsteps : Steps h bucket us n c c') (hstep : Step h bucket us c' c'') :
    Steps h bucket us (n + 1) c c''

theorem length_workers_steps {n : Nat} (hsteps : Steps h bucket us n c c') :
    c'.workers.length = c.workers.length := by
  induction hsteps with
  | refl c => rfl
  | step hsteps hstep ih =>
    obtain @⟨before, after, w, w', b, b', hmove⟩ := hstep
    rw [← ih, List.length_append, List.length_append, List.length_cons, List.length_cons]

/-! ## What adds up -/

/-- Whether what the board has a total of is what the workers have in hand and what is put on
record. -/
def Balanced (total settled : Board σ → Multiset α) (held : Worker → Multiset α) (c : Crew σ) :
    Prop :=
  total c.board = (c.workers.map held).sum + settled c.board

/-- A move keeps the balance if it adds to the total what it adds to the hand of the worker and to
the record. -/
theorem Balanced.move {total settled : Board σ → Multiset α} {held : Worker → Multiset α}
    {before after : List Worker} {w w' : Worker} {b b' : Board σ}
    (hc : Balanced total settled held ⟨before ++ w :: after, b⟩)
    (hmove : total b' + (held w + settled b) = total b + (held w' + settled b')) :
    Balanced total settled held ⟨before ++ w' :: after, b'⟩ := by
  unfold Balanced at hc ⊢
  simp only [List.map_append, List.map_cons, List.sum_append, List.sum_cons] at hc ⊢
  rw [hc] at hmove
  refine add_right_cancel (b := held w + settled b) (hmove.trans ?_)
  ac_rfl

/-- Once all workers are gone, everything is on record. -/
theorem Balanced.finished {total settled : Board σ → Multiset α} {held : Worker → Multiset α}
    (hc : Balanced total settled held c) (hheld : held .gone = 0) (hfinished : c.Finished) :
    total c.board = settled c.board := by
  have hzero : ∀ x ∈ c.workers.map held, x = 0 := by
    intro x hx
    obtain ⟨w, hw, rfl⟩ := List.mem_map.1 hx
    rw [hfinished w hw, hheld]
  rw [hc, List.sum_eq_zero hzero, zero_add]

end Crew

end Rollout.Artifacts
