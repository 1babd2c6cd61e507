import Rollout.Proofs.Run.HalfEmptied
import Rollout.Proofs.Run.Prediction

/-!
Runs that are bound to succeed. In a world that does not ask a run to stop, what it finds on the
disk decides what comes of looking for an export and of waiting for a stack, whatever the time; so
what one run was told, another run on the same files is told as well.
-/

namespace Rollout

variable {site : Site} {t t' : FileTree} {α β : Type}

/-- A world that never asks a run to stop. -/
def DiskWorld.Undisturbed (d : DiskWorld site) : Prop :=
  ∀ w, (d.handler.answer (.control .isCancelled) w).1 = false

/-- A run that only looks finds the disk as it is at every request. -/
theorem Program.Follows.onDiskWhile {P : FileTree → Prop} {Q : α → FileTree → Prop}
    {p : Program α} (h : p.Follows site.onDisk Q t) (hidle : p.Only Request.Idle) (hP : P t) :
    p.Follows (site.onDiskWhile P) Q t := by
  induction p with
  | done a => exact h
  | ask r next ih =>
    refine ⟨hP, fun a t' ha => ?_⟩
    obtain rfl := Site.answers_idle hidle.1 ha
    exact ih a (h.2 a t' ha) (hidle.2 a)
  | unfinished => trivial

/-- What is allowed to hold at every request may be less. -/
theorem Program.Follows.onDiskWhile_mono {P P' : FileTree → Prop} {Q : α → FileTree → Prop}
    {p : Program α} (h : p.Follows (site.onDiskWhile P) Q t) (hP : ∀ t, P t → P' t) :
    p.Follows (site.onDiskWhile P') Q t := by
  induction p generalizing t with
  | done a => exact h
  | ask r next ih => exact ⟨hP t h.1, fun a t' ha => ih a (h.2 a t' ha)⟩
  | unfinished => trivial

namespace Run

theorem Follows.onDiskWhile {P : FileTree → Prop} {Q : α → FileTree → Prop} {p : Run α}
    (h : p.Follows site.onDisk Q t) (hidle : p.Only Request.Idle) (hP : P t) :
    p.Follows (site.onDiskWhile P) Q t := Program.Follows.onDiskWhile h hidle hP

theorem Follows.onDiskWhile_mono {P P' : FileTree → Prop} {Q : α → FileTree → Prop} {p : Run α}
    (h : p.Follows (site.onDiskWhile P) Q t) (hP : ∀ t, P t → P' t) :
    p.Follows (site.onDiskWhile P') Q t := Program.Follows.onDiskWhile_mono h hP

variable {d : DiskWorld site} {Q : α → FileTree → Prop}

/-- From a disk on, a run comes to its end and succeeds, and ends as `Q` says. -/
def Succeeds (d : DiskWorld site) (Q : α → FileTree → Prop) (p : Run α) (t : FileTree) : Prop :=
  ∀ w, d.files w = t → ∃ a w', p.outcome d.handler w = (some (.ok a), w') ∧ Q a (d.files w')

theorem Succeeds.mono {Q' : α → FileTree → Prop} {p : Run α} (h : p.Succeeds d Q t)
    (hQ : ∀ a t', Q a t' → Q' a t') : p.Succeeds d Q' t := by
  intro w hw
  obtain ⟨a, w', hrun, hend⟩ := h w hw
  exact ⟨a, w', hrun, hQ a _ hend⟩

theorem succeeds_pure {a : α} (h : Q a t) : (pure a : Run α).Succeeds d Q t :=
  fun w hw => ⟨a, w, rfl, hw.symm ▸ h⟩

theorem Succeeds.bind {R : β → FileTree → Prop} {p : Run α} {f : α → Run β}
    (h : p.Succeeds d Q t) (hf : ∀ a t', Q a t' → (f a).Succeeds d R t') :
    (p >>= f).Succeeds d R t := by
  intro w hw
  obtain ⟨a, w₁, hrun, hQ⟩ := h w hw
  obtain ⟨b, w₂, hrest, hR⟩ := hf a _ hQ w₁ rfl
  refine ⟨b, w₂, ?_, hR⟩
  rcases bind_cases d.handler p f w with ⟨a', w', hrun', -, hwhole⟩ | ⟨hfails, -⟩
  · rw [hrun] at hrun'
    cases hrun'
    rw [hwhole, hrest]
  · exact absurd (congrArg Prod.fst hrun) (hfails a)

theorem succeeds_ofProgram {ε : Type} {toFailure : ε → Failure} {p : Program (Except ε α)}
    (h : ∀ w, d.files w = t → ∃ a w', p.run d.handler w = (some (.ok a), w') ∧
      Q a (d.files w')) : (ofProgram toFailure p).Succeeds d Q t := by
  intro w hw
  obtain ⟨a, w', hrun, hQ⟩ := h w hw
  refine ⟨a, w', ?_, hQ⟩
  show Program.run d.handler (p.bind _) w = _
  rw [Program.run_bind, hrun]
  rfl

theorem succeeds_liftProgram {p : Program α}
    (h : ∀ w, d.files w = t → ∃ a w', p.run d.handler w = (some a, w') ∧ Q a (d.files w')) :
    (liftProgram p).Succeeds d Q t := by
  intro w hw
  obtain ⟨a, w', hrun, hQ⟩ := h w hw
  refine ⟨a, w', ?_, hQ⟩
  show Program.run d.handler (p.bind _) w = _
  rw [Program.run_bind, hrun]
  rfl

/-- A request that the disk answers well. -/
theorem succeeds_request {ε : Type} {toFailure : ε → Failure} {r : Request}
    {cast : r.Answer → Except ε α}
    (h : ∀ a t', site.Answers r t a t' → ∃ x, cast a = .ok x ∧ Q x t') :
    (ofProgram toFailure (.ask r fun a => .done (cast a))).Succeeds d Q t := by
  refine succeeds_ofProgram fun w hw => ?_
  obtain ⟨x, hx, hQ⟩ := h _ _ (hw ▸ d.answers r w)
  refine ⟨x, _, ?_, hQ⟩
  rw [Program.run, hx]
  rfl

/-- A request about the course of the run leaves the disk alone. -/
theorem succeeds_control {c : ControlCall} {Q : c.Answer → FileTree → Prop} (h : ∀ a, Q a t) :
    (liftProgram (Program.request (.control c))).Succeeds d Q t := by
  refine succeeds_liftProgram fun w hw => ⟨_, _, rfl, ?_⟩
  have hfiles : d.files (d.handler.answer (.control c) w).2 = d.files w := d.answers (.control c) w
  rw [hfiles, hw]
  exact h _

theorem succeeds_emit {Q : Unit → FileTree → Prop} {e : Event} (h : Q () t) :
    (emit e).Succeeds d Q t :=
  succeeds_control (c := .emit e) fun _ => h

theorem succeeds_checkCancelled {Q : Unit → FileTree → Prop} (hd : d.Undisturbed) (h : Q () t) :
    checkCancelled.Succeeds d Q t := by
  have hasked : (liftProgram (Program.request (.control .isCancelled))).Succeeds d
      (fun stop t' => stop = false ∧ t' = t) t := by
    refine succeeds_liftProgram fun w hw => ⟨_, _, rfl, hd w, ?_⟩
    have hfiles : d.files (d.handler.answer (.control .isCancelled) w).2 = d.files w :=
      d.answers (.control .isCancelled) w
    rw [hfiles, hw]
  refine hasked.bind ?_
  rintro stop t' ⟨rfl, rfl⟩
  exact succeeds_pure h

/-- Begun on one disk, a run comes to a run `q` on another: it makes all requests of `q`, and
fails if `q` fails. -/
def ComesTo (d : DiskWorld site) (p : Run α) (t : FileTree) (q : Run β) (t' : FileTree) : Prop :=
  ∀ w, d.files w = t → ∃ w', d.files w' = t' ∧
    (∀ m ∈ q.moments d.handler w', m ∈ p.moments d.handler w) ∧
    ∀ e w'', q.outcome d.handler w' = (some (.error e), w'') →
      p.outcome d.handler w = (some (.error e), w'')

theorem ComesTo.refl (p : Run α) (t : FileTree) : p.ComesTo d t p t :=
  fun w hw => ⟨w, hw, fun _ hm => hm, fun _ _ he => he⟩

variable {γ : Type}

theorem ComesTo.bind {p : Run α} {f : α → Run γ} {q : Run β} (h : p.ComesTo d t q t') :
    (p >>= f).ComesTo d t q t' := by
  intro w hw
  obtain ⟨w', hw', hmoments, hfails⟩ := h w hw
  refine ⟨w', hw', fun m hm => ?_, fun e w'' he => ?_⟩
  · rcases bind_cases d.handler p f w with ⟨_, _, -, hall, -⟩ | ⟨-, hall, -⟩
    · rw [hall]
      exact List.mem_append_left _ (hmoments m hm)
    · rw [hall]
      exact hmoments m hm
  · have hp : Program.run d.handler p.run w = (some (.error e), w'') := hfails e w'' he
    show Program.run d.handler (p.run.bind _) w = _
    rw [Program.run_bind, hp]
    rfl

theorem Succeeds.comesTo {p : Run α} {f : α → Run γ} {q : Run β} (h : p.Succeeds d Q t)
    (hf : ∀ a t₁, Q a t₁ → (f a).ComesTo d t₁ q t') : (p >>= f).ComesTo d t q t' := by
  intro w hw
  obtain ⟨a, w₁, hrun, hQ⟩ := h w hw
  obtain ⟨w', hw', hmoments, hfails⟩ := hf a _ hQ w₁ rfl
  rcases bind_cases d.handler p f w with ⟨a', w₂, hrun', hall, hwhole⟩ | ⟨hnever, -⟩
  · rw [hrun] at hrun'
    cases hrun'
    refine ⟨w', hw', fun m hm => ?_, fun e w'' he => ?_⟩
    · rw [hall]
      exact List.mem_append_right _ (hmoments m hm)
    · rw [hwhole]
      exact hfails e w'' he
  · exact absurd (congrArg Prod.fst hrun) (hnever a)

end Run

namespace Lifecycle

variable {w : Waiting} {name : String} {d : DiskWorld site}

theorem run_scanFrom (name : String) (pages : Nat) (token : Option String) (s : d.State) :
    ((scanFrom name pages token).run d.handler s).1 =
      scan site.cloud.provider (d.files s) name pages token := by
  induction pages generalizing token s with
  | zero => rfl
  | succ pages ih =>
    obtain ⟨hpage, hfiles⟩ := Site.answers_listExports (d.answers (.stack (.listExports token)) s)
    rw [scan, hpage, scanFrom, Program.run]
    cases (d.handler.answer (.stack (.listExports token)) s).1 with
    | error e => rfl
    | ok page =>
      dsimp only
      cases page.exports.find? fun e => e.name = name with
      | some e => rfl
      | none =>
        cases page.next with
        | some token => exact (ih (some token) _).trans (by rw [hfiles])
        | none => rfl

/-- Where one pass is enough, looking for an export comes to its end. -/
theorem succeeds_lookUpFrom (hd : d.Undisturbed) {r : Except ProviderError (Option String)}
    (hr : scan site.cloud.provider t name w.patience none = some r) (left : Nat) :
    (lookUpFrom w name left).Succeeds d (fun found t' => t' = t ∧
      (found = lookedUp w r ∨ left = 0)) t := by
  induction left with
  | zero => exact Run.succeeds_pure ⟨rfl, .inr rfl⟩
  | succ left ih =>
    refine (Run.succeeds_checkCancelled hd (Q := fun _ t' => t' = t) rfl).bind ?_
    rintro _ t' rfl
    have hscan : (Run.liftProgram (scanExports w name)).Succeeds d (fun found t'' => t'' = t' ∧
        lookedUp w r = found.elim (.notFound w.exports.attempts) .found) t' := by
      refine Run.succeeds_liftProgram fun s hs => ?_
      have hrun := run_scanFrom name w.patience none s
      rw [hs, hr] at hrun
      have hfiles := d.files_of_idle (idle_scanFrom name w.patience none) s
      have hend : (scanFrom name w.patience none).run d.handler s =
          (some r, ((scanFrom name w.patience none).run d.handler s).2) := Prod.ext hrun rfl
      rw [scanExports, Program.run_bind, hend]
      cases r with
      | ok value => exact ⟨value, _, rfl, hfiles.trans hs, by cases value <;> rfl⟩
      | error e => exact ⟨none, _, rfl, hfiles.trans hs, rfl⟩
    refine hscan.bind ?_
    rintro found t'' ⟨rfl, hfound⟩
    cases found with
    | some value => exact Run.succeeds_pure ⟨rfl, .inl hfound.symm⟩
    | none =>
      have hmore : (lookUpFrom w name left).Succeeds d (fun found t' => t' = t'' ∧
          (found = lookedUp w r ∨ left + 1 = 0)) t'' := by
        cases left with
        | zero => exact Run.succeeds_pure ⟨rfl, .inl hfound.symm⟩
        | succ left => exact ih.mono fun _ _ h => ⟨h.1, .inl (h.2.resolve_right nofun)⟩
      by_cases hleft : 0 < left
      · simp only [hleft, if_true]
        refine (Run.succeeds_control (Q := fun _ t' => t' = t'') fun _ => rfl).bind ?_
        rintro _ t' rfl
        exact hmore
      · simp only [hleft, if_false]
        exact hmore

theorem succeeds_findExport (hd : d.Undisturbed) {found : ExportLookup}
    (h : lookUp w site.cloud.provider t name = some found) :
    (findExport w name).Succeeds d (fun found' t' => found' = found ∧ t' = t) t := by
  unfold lookUp at h
  rw [findExport]
  split at h
  · rename_i hzero
    cases h
    rw [hzero]
    exact Run.succeeds_pure ⟨by rw [hzero], rfl⟩
  · rename_i hpos
    obtain ⟨r, hr, rfl⟩ := Option.map_eq_some_iff.1 h
    refine (succeeds_lookUpFrom hd hr w.exports.attempts).mono ?_
    rintro found t' ⟨rfl, hfound⟩
    exact ⟨hfound.resolve_right hpos, rfl⟩

theorem succeeds_status {st : StackStatus} {Q : StackStatus → FileTree → Prop}
    (h : site.cloud.provider.status t name = .ok st) (hQ : Q st t) :
    (status name).Succeeds d Q t := by
  refine Run.succeeds_request (r := .stack (.status name)) fun a t' ha => ?_
  obtain ⟨hstatus, rfl⟩ := Site.answers_status ha
  exact ⟨st, hstatus.symm.trans h, hQ⟩

/-- A stack that is gone is not waited for. -/
theorem succeeds_pollUntilTerminal (hd : d.Undisturbed) (hpatience : 0 < w.patience)
    (h : site.cloud.provider.status t name = .ok .absent) :
    (pollUntilTerminal w name).Succeeds d (fun _ t' => t' = t) t := by
  obtain ⟨rounds, hrounds⟩ : ∃ rounds, w.patience = rounds + 1 := ⟨w.patience - 1, by omega⟩
  refine (Run.succeeds_control (Q := fun _ t' => t' = t) fun _ => rfl).bind ?_
  rintro started t' rfl
  rw [hrounds]
  refine (Run.succeeds_checkCancelled hd (Q := fun _ t'' => t'' = t') rfl).bind ?_
  rintro _ t'' rfl
  refine (succeeds_status h (Q := fun st t' => st = .absent ∧ t' = t'') ⟨rfl, rfl⟩).bind ?_
  rintro _ _ ⟨rfl, rfl⟩
  exact Run.succeeds_pure rfl

end Lifecycle

end Rollout
