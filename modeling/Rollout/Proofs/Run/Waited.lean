import Rollout.Proofs.Run.Oracle
import Rollout.Proofs.Text.Joined

/-!
What a wait reports. A status is read by its name, or else by how its text ends: every status that
ends in a failure is final and counts as one, but of the rollbacks that are complete only those
known by name do. A wait ends with the first final status it is answered, as a success if that is
not a failure, whatever world it asks.
-/

namespace Rollout

/-! ## Statuses -/

namespace StackStatus

variable {s : StackStatus} {raw : String}

theorem mem_of_find? {l : List (String × StackStatus)} (h : find? raw l = some s) :
    (raw, s) ∈ l := by
  induction l with
  | nil => cases h
  | cons e l ih =>
    rw [find?] at h
    split at h
    · rename_i heq
      cases h
      exact heq ▸ List.mem_cons_self
    · exact List.mem_cons_of_mem _ (ih h)

/-- The listed text of a status is its text. -/
theorem text_of_mem_known : ∀ e ∈ known, e.2.text = e.1 := by decide

/-- The text of a status that was read is the text it was read from. -/
theorem text_ofText (raw : String) : (ofText raw).text = raw := by
  unfold ofText
  cases h : find? raw known with
  | none => rfl
  | some s => exact text_of_mem_known _ (mem_of_find? h)

/-- Nothing ends both in a failure and in progress. -/
theorem isTerminal_of_endsWith {tail : String} (h : Text.endsWith tail s.text = true)
    (hapart : Text.endsWith tail "_IN_PROGRESS" = false ∧ Text.endsWith "_IN_PROGRESS" tail = false) :
    s.isTerminal = true := by
  rw [isTerminal, Bool.not_eq_true']
  refine Bool.eq_false_iff.2 fun hprogress => ?_
  rcases Text.endsWith_or_of_endsWith h hprogress with hends | hends
  · rw [hapart.1] at hends
    cases hends
  · rw [hapart.2] at hends
    cases hends

/-- A status that ends in a failure is one, known or not. -/
theorem isFailure_of_endsWith (h : Text.endsWith "_FAILED" s.text = true) : s.isFailure = true := by
  cases s with
  | other text => exact h
  | _ => revert h; decide

/-- A failure either ends as one or is a rollback known by name. -/
theorem isFailure_iff : s.isFailure = true ↔
    Text.endsWith "_FAILED" s.text = true ∨ s = .rollbackComplete ∨ s = .updateRollbackComplete := by
  cases s with
  | other text => simp [isFailure, StackStatus.text]
  | _ => decide

theorem isTerminal_of_isFailure (h : s.isFailure = true) : s.isTerminal = true := by
  rcases isFailure_iff.1 h with h | rfl | rfl
  · exact isTerminal_of_endsWith h (by decide)
  · decide
  · decide

/-- A complete rollback is a failure exactly if its name is known. -/
theorem isFailure_of_rolledBack (h : Text.endsWith "ROLLBACK_COMPLETE" s.text = true) :
    s.isFailure = s.isKnown := by
  cases s with
  | other text =>
    refine Bool.eq_false_iff.2 fun hfailed => ?_
    rcases Text.endsWith_or_of_endsWith h hfailed with hends | hends
    · revert hends; decide
    · revert hends; decide
  | _ => revert h; decide

/-- What the three questions about a status have to do with each other and with its text. -/
structure Consistent (s : StackStatus) : Prop where
  failure : s.isFailure = true → s.isTerminal = true
  gone : s.isGone = true → s.isTerminal = true ∧ s.isFailure = false
  failed : Text.endsWith "_FAILED" s.text = true → s.isTerminal = true ∧ s.isFailure = true
  /-- A rollback that is complete is final; it counts as a failure if it is known by name. -/
  rolledBack : Text.endsWith "ROLLBACK_COMPLETE" s.text = true →
    s.isTerminal = true ∧ s.isFailure = s.isKnown

theorem consistent (s : StackStatus) : s.Consistent where
  failure := isTerminal_of_isFailure
  gone h := by
    cases s with
    | absent => decide
    | deleteComplete => decide
    | _ => cases h
  failed h := ⟨isTerminal_of_endsWith h (by decide), isFailure_of_endsWith h⟩
  rolledBack h := ⟨isTerminal_of_endsWith h (by decide), isFailure_of_rolledBack h⟩

end StackStatus

/-! ## What a run is told -/

/-- The status that an answer tells. -/
def Request.statusTold : (r : Request) → r.Answer → Option StackStatus
  | .stack (.status _), answer => answer.toOption
  | _, _ => none

namespace Run

variable {σ α β : Type} {h : Handler σ} {t t' : σ} {p : Run α}

/-- The statuses that a run is told, one after the other. -/
def statuses (h : Handler σ) (p : Run α) (t : σ) : List StackStatus :=
  (p.moments h t).filterMap fun m => m.request.statusTold m.answer

/-- A run that asks for no status is told none. -/
theorem Only.statuses_eq_nil (hp : p.Only fun r => ∀ answer, r.statusTold answer = none) :
    p.statuses h t = [] :=
  List.filterMap_eq_nil_iff.2 fun _ hm => Only.of_mem_moments hp hm _

theorem statuses_bind_of_ok {a : α} (hp : p.outcome h t = (some (.ok a), t')) (f : α → Run β) :
    (p >>= f).statuses h t = p.statuses h t ++ (f a).statuses h t' := by
  rcases bind_cases h p f t with ⟨b, s', hb, hmoments, -⟩ | ⟨hnone, -⟩
  · rw [hp] at hb
    cases hb
    rw [statuses, hmoments, List.filterMap_append]
    rfl
  · exact absurd (congrArg Prod.fst hp) (hnone a)

theorem statuses_bind_of_error {e : Failure} (hp : p.outcome h t = (some (.error e), t'))
    (f : α → Run β) : (p >>= f).statuses h t = p.statuses h t := by
  rcases bind_cases h p f t with ⟨b, s', hb, -⟩ | ⟨-, hmoments, -⟩
  · rw [hp] at hb
    cases hb
  · rw [statuses, hmoments]
    rfl

end Run

namespace Lifecycle

variable {σ : Type} {h : Handler σ} {t : σ} {poll : PollPolicy} {name : String}

/-- The statuses of a wait and its outcome: it goes on as long as none is final, and ends with the
first that is. -/
structure Reports (name : String) (statuses : List StackStatus)
    (outcome : Option (Except Failure StackStatus)) : Prop where
  /-- A success is about the last status, and that one is final and no failure. -/
  ok : ∀ s, outcome = some (.ok s) →
    statuses.getLast? = some s ∧ s.isTerminal = true ∧ s.isFailure = false
  /-- A failing status that is told is what the wait fails with. -/
  failing : ∀ s ∈ statuses, s.isFailure = true → outcome = some (.error (.stackFailed name s))

/-- Without a status there is no success to report. -/
theorem Reports.nil {outcome : Option (Except Failure StackStatus)}
    (houtcome : ∀ s, outcome ≠ some (.ok s)) : Reports name [] outcome where
  ok s hs := absurd hs (houtcome s)
  failing s hs := by cases hs

theorem Reports.final {s : StackStatus} (hs : s.isTerminal = true) :
    Reports name [s] (some (if s.isFailure then .error (.stackFailed name s) else .ok s)) where
  ok s' hs' := by
    split at hs'
    · cases hs'
    · rename_i hfailure
      cases hs'
      exact ⟨rfl, hs, Bool.eq_false_iff.2 hfailure⟩
  failing s' hs' hfailure := by
    rw [List.mem_singleton] at hs'
    rw [← hs', if_pos hfailure]

/-- A status that is not final changes nothing about what is reported in the end. -/
theorem Reports.cons {s : StackStatus} {statuses : List StackStatus}
    {outcome : Option (Except Failure StackStatus)} (hs : s.isTerminal = false)
    (hrest : Reports name statuses outcome) : Reports name (s :: statuses) outcome where
  ok s' hs' := by
    obtain ⟨hlast, hfinal⟩ := hrest.ok s' hs'
    exact ⟨by rw [List.getLast?_cons, hlast]; rfl, hfinal⟩
  failing s' hs' hfailure := by
    rcases List.mem_cons.1 hs' with rfl | hs'
    · rw [StackStatus.isTerminal_of_isFailure hfailure] at hs
      cases hs
    · exact hrest.failing s' hs' hfailure

/-! ## A wait -/

theorem checkCancelled_cases (h : Handler σ) (t : σ) :
    Run.checkCancelled.outcome h t =
        (some (.error .cancelled), (h.answer (.control .isCancelled) t).2) ∨
      Run.checkCancelled.outcome h t =
        (some (.ok ()), (h.answer (.control .isCancelled) t).2) := by
  have hlook : Run.checkCancelled.outcome h t =
      ((if (h.answer (.control .isCancelled) t).1 then throw .cancelled else pure () : Run Unit)).outcome
        h (h.answer (.control .isCancelled) t).2 := Run.outcome_bind_of_ok rfl _
  rw [hlook]
  cases (h.answer (.control .isCancelled) t).1 with
  | true => exact .inl rfl
  | false => exact .inr rfl

/-- Asking for the status tells it, or fails. -/
theorem status_cases (h : Handler σ) (name : String) (t : σ) : ∃ t',
    (∃ s, (status name).outcome h t = (some (.ok s), t') ∧ (status name).statuses h t = [s]) ∨
    (∃ e, (status name).outcome h t = (some (.error (.provider e)), t') ∧
      (status name).statuses h t = []) := by
  have hrun : (status name).run = (Program.request (.stack (.status name))).bind _ := rfl
  simp only [Run.outcome, Run.statuses, Run.moments, hrun, Program.request, Program.bind,
    Program.run, Program.moments]
  generalize h.answer (.stack (.status name)) t = answered
  obtain ⟨answer, t'⟩ := answered
  refine ⟨t', ?_⟩
  cases answer with
  | ok s => exact .inl ⟨s, rfl, rfl⟩
  | error e => exact .inr ⟨e, rfl, rfl⟩

theorem statuses_checkCancelled (h : Handler σ) (t : σ) : Run.checkCancelled.statuses h t = [] :=
  Run.Only.statuses_eq_nil (Run.only_checkCancelled fun _ => rfl)

/-- Polling reports what it is told, however many rounds it may go. -/
theorem reports_pollFrom (h : Handler σ) (poll : PollPolicy) (name : String)
    (started rounds : Nat) (t : σ) :
    Reports name ((pollFrom poll name started rounds).statuses h t)
      ((pollFrom poll name started rounds).outcome h t).1 := by
  induction rounds generalizing t with
  | zero => exact Reports.nil (by rintro s ⟨⟩)
  | succ rounds ih =>
    rw [pollFrom]
    rcases checkCancelled_cases h t with hlook | hlook
    · rw [Run.statuses_bind_of_error hlook, Run.outcome_bind_of_error hlook,
        statuses_checkCancelled]
      exact Reports.nil (by rintro s ⟨⟩)
    rw [Run.statuses_bind_of_ok hlook, Run.outcome_bind_of_ok hlook, statuses_checkCancelled,
      List.nil_append]
    obtain ⟨t', ⟨s, hask, htold⟩ | ⟨e, hask, htold⟩⟩ := status_cases h name
      (h.answer (.control .isCancelled) t).2
    · rw [Run.statuses_bind_of_ok hask, Run.outcome_bind_of_ok hask, htold]
      cases hterminal : s.isTerminal with
      | true =>
        rw [if_pos rfl]
        have hfinal : Reports name [s] _ := Reports.final hterminal
        cases hfailure : s.isFailure with
        | true =>
          rw [hfailure] at hfinal
          exact hfinal
        | false =>
          rw [hfailure] at hfinal
          exact hfinal
      | false =>
        refine Reports.cons hterminal ?_
        rw [if_neg Bool.false_ne_true]
        have hnow : Run.now.outcome h t' = (some (.ok (h.answer (.control .now) t').1), _) := rfl
        rw [Run.statuses_bind_of_ok hnow, Run.outcome_bind_of_ok hnow]
        dsimp only
        split
        · exact Reports.nil (by rintro s ⟨⟩)
        · have hsleep (t : σ) : (Run.sleep poll.interval).outcome h t = (some (.ok ()), _) := rfl
          rw [Run.statuses_bind_of_ok (hsleep _), Run.outcome_bind_of_ok (hsleep _)]
          exact ih _
    · rw [Run.statuses_bind_of_error hask, Run.outcome_bind_of_error hask, htold]
      exact Reports.nil (by rintro s ⟨⟩)

theorem reports_pollUntilTerminal (h : Handler σ) (w : Waiting) (name : String) (t : σ) :
    Reports name ((pollUntilTerminal w name).statuses h t)
      ((pollUntilTerminal w name).outcome h t).1 := by
  have hnow : Run.now.outcome h t = (some (.ok (h.answer (.control .now) t).1), _) := rfl
  rw [pollUntilTerminal, Run.statuses_bind_of_ok hnow, Run.outcome_bind_of_ok hnow]
  exact reports_pollFrom ..

/-- A wait reports what became of a change. Every text is kept by the status it is read as; what
the questions about a status answer goes together, and with how its text ends; and a wait, in
whatever world, fails with the first failing status that it is told and succeeds with none. So a
success is never about a status that ends in a failure, nor about a complete rollback known by
name. -/
theorem waits_honestly (raw : String) (s : StackStatus) {σ : Type} (h : Handler σ) (w : Waiting)
    (name : String) (t : σ) :
    (StackStatus.ofText raw).text = raw ∧ s.Consistent ∧
      Reports name ((pollUntilTerminal w name).statuses h t)
        ((pollUntilTerminal w name).outcome h t).1 ∧
      (((pollUntilTerminal w name).outcome h t).1 = some (.ok s) →
        Text.endsWith "_FAILED" s.text = false ∧
          (Text.endsWith "ROLLBACK_COMPLETE" s.text = true → s.isKnown = false)) := by
  have hreports := reports_pollUntilTerminal h w name t
  refine ⟨StackStatus.text_ofText raw, StackStatus.consistent s, hreports, fun hs => ?_⟩
  obtain ⟨-, -, hfailure⟩ := hreports.ok s hs
  refine ⟨Bool.eq_false_iff.2 fun hends => ?_, fun hends => ?_⟩
  · rw [((StackStatus.consistent s).failed hends).2] at hfailure
    cases hfailure
  · rw [← ((StackStatus.consistent s).rolledBack hends).2]
    exact hfailure

namespace Sample

/-- A stack whose status is this one whenever it is asked for. -/
def settled (s : StackStatus) : Oracle := ⟨fun _ => .ok s,
  fun _ => .error (.unavailable "no exports"), fun _ => false⟩

/-- A wait for it. -/
def wait (s : StackStatus) : Option (Except Failure StackStatus) :=
  ((pollUntilTerminal brief "shop-dev").outcome (settled s).handler (.start .start)).1

theorem wait_eq {s : StackStatus} (hs : s.isTerminal = true) :
    wait s = some (if s.isFailure then .error (.stackFailed "shop-dev" s) else .ok s) := by
  rw [wait, pollUntilTerminal, Run.outcome_bind_of_ok (a := 0) rfl]
  refine (congrArg Prod.fst (Oracle.outcome_pollFrom 0 3 _)).trans ?_
  simp only [settled, Bool.false_eq_true, if_false, hs, if_true]

end Sample

/-- An update that was made is a success, and an import that failed to be rolled back is none. -/
theorem waits_honestly_sample :
    Sample.wait .updateComplete = some (.ok .updateComplete) ∧
      (Text.endsWith "_FAILED" "UPDATE_COMPLETE" = false ∧
        (Text.endsWith "ROLLBACK_COMPLETE" "UPDATE_COMPLETE" = true →
          StackStatus.updateComplete.isKnown = false)) ∧
      Sample.wait (.other "IMPORT_ROLLBACK_FAILED") =
        some (.error (.stackFailed "shop-dev" (.other "IMPORT_ROLLBACK_FAILED"))) := by
  have hmade : Sample.wait .updateComplete = some (.ok .updateComplete) :=
    Sample.wait_eq (by decide)
  obtain ⟨-, -, -, hwait⟩ := waits_honestly "UPDATE_COMPLETE" .updateComplete
    (Sample.settled .updateComplete).handler Sample.brief "shop-dev" (.start .start)
  obtain ⟨-, -, hreports, -⟩ := waits_honestly "IMPORT_ROLLBACK_FAILED"
    (.other "IMPORT_ROLLBACK_FAILED") (Sample.settled (.other "IMPORT_ROLLBACK_FAILED")).handler
    Sample.brief "shop-dev" (.start .start)
  refine ⟨hmade, hwait hmade,
    hreports.failing (.other "IMPORT_ROLLBACK_FAILED") ?_ (by decide)⟩
  exact List.mem_cons_self

/-- A complete rollback whose name is not known is reported as a success. -/
theorem rollback_reported_ok :
    ∃ s : StackStatus, StackStatus.ofText "IMPORT_ROLLBACK_COMPLETE" = s ∧
      Text.endsWith "ROLLBACK_COMPLETE" s.text = true ∧ Sample.wait s = some (.ok s) :=
  ⟨_, rfl, by decide, Sample.wait_eq (by decide)⟩

end Lifecycle

end Rollout
