import Rollout.Run.Program

/-!
Reasoning about programs. A protocol says which requests may be made in which situation, and
which situations their answers lead to; a program follows it if it does so whatever it is
answered. Situations are chosen for what is to be shown: a disk, a count, what is known of other
runs. A world that keeps to a protocol keeps to it along every run of a program that follows it.
-/

namespace Rollout

/-- Rules about the requests of a run. -/
structure Protocol (κ : Type) where
  allowed : κ → Request → Prop
  after : κ → (r : Request) → r.Answer → κ → Prop

/-- A moment of a run: a request, its answer, and the world before and after. -/
structure Moment (σ : Type) where
  request : Request
  answer : request.Answer
  before : σ
  after : σ

namespace Program

variable {α β κ σ : Type}

/-- The moments of a run of a program. -/
def moments (h : Handler σ) : Program α → σ → List (Moment σ)
  | done _, _ => []
  | ask r next, s =>
    ⟨r, (h.answer r s).1, s, (h.answer r s).2⟩ ::
      (next (h.answer r s).1).moments h (h.answer r s).2
  | unfinished, _ => []

theorem moments_bind (h : Handler σ) (p : Program α) (f : α → Program β) (s : σ) :
    (p.bind f).moments h s = p.moments h s ++
      match p.run h s with
      | (some a, s') => (f a).moments h s'
      | (none, _) => [] := by
  induction p generalizing s with
  | done a => rfl
  | ask r next ih => exact congrArg (_ :: ·) (ih _ _)
  | unfinished => rfl

/-- Whether a program keeps to a protocol from a situation on, and ends as `Q` says. -/
def Follows (P : Protocol κ) (Q : α → κ → Prop) : Program α → κ → Prop
  | done a, k => Q a k
  | ask r next, k => P.allowed k r ∧ ∀ a k', P.after k r a k' → (next a).Follows P Q k'
  | unfinished, _ => True

/-- Whether a program makes no requests but those of `P`. -/
def Only (P : Request → Prop) : Program α → Prop
  | done _ => True
  | ask r next => P r ∧ ∀ a, (next a).Only P
  | unfinished => True

section Follows

variable {P : Protocol κ} {Q Q' : α → κ → Prop} {p : Program α} {k : κ}

theorem follows_bind {R : β → κ → Prop} {f : α → Program β} :
    (p.bind f).Follows P R k ↔ p.Follows P (fun a k' => (f a).Follows P R k') k := by
  induction p generalizing k with
  | done a => rfl
  | ask r next ih =>
    exact and_congr_right fun _ => forall_congr' fun a => forall_congr' fun k' =>
      imp_congr_right fun _ => ih a
  | unfinished => rfl

theorem Follows.mono (h : p.Follows P Q k) (hQ : ∀ a k', Q a k' → Q' a k') :
    p.Follows P Q' k := by
  induction p generalizing k with
  | done a => exact hQ a k h
  | ask r next ih => exact ⟨h.1, fun a k' ha => ih a (h.2 a k' ha)⟩
  | unfinished => trivial

theorem Follows.and (h : p.Follows P Q k) (h' : p.Follows P Q' k) :
    p.Follows P (fun a k' => Q a k' ∧ Q' a k') k := by
  induction p generalizing k with
  | done a => exact ⟨h, h'⟩
  | ask r next ih => exact ⟨h.1, fun a k' ha => ih a (h.2 a k' ha) (h'.2 a k' ha)⟩
  | unfinished => trivial

theorem Follows.bind {R : β → κ → Prop} {f : α → Program β} (h : p.Follows P Q k)
    (hf : ∀ a k', Q a k' → (f a).Follows P R k') : (p.bind f).Follows P R k :=
  follows_bind.2 (h.mono hf)

/-- A world that keeps to a protocol keeps to it at every moment and at the end of a run. -/
theorem Follows.run {h : Handler σ} {I : κ → σ → Prop}
    (hstep : ∀ k s r, I k s → P.allowed k r →
      ∃ k', P.after k r (h.answer r s).1 k' ∧ I k' (h.answer r s).2)
    (hp : p.Follows P Q k) {s : σ} (hk : I k s) :
    (∀ m ∈ p.moments h s, ∃ k k', I k m.before ∧ P.allowed k m.request ∧
      P.after k m.request m.answer k' ∧ I k' m.after) ∧
    ∃ k', I k' (p.run h s).2 ∧ ∀ a, (p.run h s).1 = some a → Q a k' := by
  induction p generalizing k s with
  | done a =>
    refine ⟨by simp [moments], k, hk, ?_⟩
    rintro a' ⟨⟩
    exact hp
  | ask r next ih =>
    obtain ⟨hallowed, hnext⟩ := hp
    obtain ⟨k', hafter, hk'⟩ := hstep k s r hk hallowed
    obtain ⟨hmoments, hend⟩ := ih _ (hnext _ _ hafter) hk'
    refine ⟨fun m hm => ?_, hend⟩
    rcases List.mem_cons.1 hm with rfl | hm
    · exact ⟨k, k', hk, hallowed, hafter, hk'⟩
    · exact hmoments m hm
  | unfinished => exact ⟨by simp [moments], k, hk, nofun⟩

end Follows

section Only

variable {P P' : Request → Prop} {p : Program α}

theorem only_bind {f : α → Program β} (hp : p.Only P) (hf : ∀ a, (f a).Only P) :
    (p.bind f).Only P := by
  induction p with
  | done a => exact hf a
  | ask r next ih => exact ⟨hp.1, fun a => ih a (hp.2 a)⟩
  | unfinished => trivial

theorem Only.mono (hp : p.Only P) (hP : ∀ r, P r → P' r) : p.Only P' := by
  induction p with
  | done a => trivial
  | ask r next ih => exact ⟨hP r hp.1, fun a => ih a (hp.2 a)⟩
  | unfinished => trivial

/-- Requests that leave what is known of the situation alone. -/
theorem Only.follows {prot : Protocol κ} {R : κ → Prop} (hp : p.Only P)
    (hstep : ∀ k r, R k → P r → prot.allowed k r ∧ ∀ a k', prot.after k r a k' → R k')
    {k : κ} (hk : R k) : p.Follows prot (fun _ => R) k := by
  induction p generalizing k with
  | done a => exact hk
  | ask r next ih =>
    obtain ⟨hallowed, hafter⟩ := hstep k r hk hp.1
    exact ⟨hallowed, fun a k' ha => ih a (hp.2 a) (hafter a k' ha)⟩
  | unfinished => trivial

theorem Only.of_mem_moments {h : Handler σ} (hp : p.Only P) {s : σ} {m : Moment σ}
    (hm : m ∈ p.moments h s) : P m.request := by
  induction p generalizing s with
  | done a => cases hm
  | ask r next ih =>
    rcases List.mem_cons.1 hm with rfl | hm
    · exact hp.1
    · exact ih _ (hp.2 _) hm
  | unfinished => cases hm

end Only

instance : LawfulMonad Program :=
  LawfulMonad.mk' Program bind_done (fun _ _ => rfl) bind_assoc

end Program

namespace Run

variable {α β κ : Type} {P : Protocol κ} {Q Q' : α → κ → Prop} {k : κ} {A : Request → Prop}

/-- Whether a run keeps to a protocol from a situation on, and ends as `Q` says if it succeeds. -/
def Follows (P : Protocol κ) (Q : α → κ → Prop) (p : Run α) (k : κ) : Prop :=
  Program.Follows P (fun r k' => ∀ a, r = .ok a → Q a k') p.run k

/-- Whether a run makes no requests but those of `A`. -/
def Only (A : Request → Prop) (p : Run α) : Prop := Program.Only A p.run

theorem Follows.mono {p : Run α} (h : p.Follows P Q k) (hQ : ∀ a k', Q a k' → Q' a k') :
    p.Follows P Q' k :=
  Program.Follows.mono h fun _ _ hr a ha => hQ a _ (hr a ha)

theorem Follows.and {p : Run α} (h : p.Follows P Q k) (h' : p.Follows P Q' k) :
    p.Follows P (fun a k' => Q a k' ∧ Q' a k') k :=
  Program.Follows.mono (Program.Follows.and h h') fun _ _ hr a ha => ⟨hr.1 a ha, hr.2 a ha⟩

theorem Follows.bind {R : β → κ → Prop} {p : Run α} {f : α → Run β} (h : p.Follows P Q k)
    (hf : ∀ a k', Q a k' → (f a).Follows P R k') : (p >>= f).Follows P R k := by
  refine Program.Follows.bind h fun r k' hr => ?_
  cases r with
  | ok a => exact hf a k' (hr a rfl)
  | error e => exact nofun

theorem follows_pure {a : α} (h : Q a k) : (pure a : Run α).Follows P Q k := by
  rintro a' ⟨⟩
  exact h

theorem follows_throw (e : Failure) : (throw e : Run α).Follows P Q k := nofun

theorem follows_unfinished : (unfinished : Run α).Follows P Q k := trivial

theorem follows_liftProgram {p : Program α} (h : p.Follows P Q k) :
    (liftProgram p).Follows P Q k := by
  refine Program.Follows.bind h ?_
  rintro a k' hQ a' ⟨⟩
  exact hQ

theorem follows_ofProgram {ε : Type} {toFailure : ε → Failure} {p : Program (Except ε α)}
    (h : p.Follows P (fun r k' => ∀ a, r = .ok a → Q a k') k) :
    (ofProgram toFailure p).Follows P Q k := by
  refine Program.Follows.bind h fun r k' hr => ?_
  cases r with
  | ok a =>
    rintro a' ⟨⟩
    exact hr a rfl
  | error e => exact nofun

theorem follows_request {ε : Type} {toFailure : ε → Failure} {r : Request}
    {cast : r.Answer → Except ε α} (hallowed : P.allowed k r)
    (hafter : ∀ a k', P.after k r a k' → ∀ x, cast a = .ok x → Q x k') :
    (ofProgram toFailure (.ask r fun a => .done (cast a))).Follows P Q k :=
  follows_ofProgram ⟨hallowed, hafter⟩

theorem Only.follows {R : κ → Prop} {p : Run α} (hp : p.Only A)
    (hstep : ∀ k r, R k → A r → P.allowed k r ∧ ∀ a k', P.after k r a k' → R k') (hk : R k) :
    p.Follows P (fun _ => R) k :=
  (Program.Only.follows hp hstep hk).mono fun _ _ hR _ _ => hR

theorem only_bind {p : Run α} {f : α → Run β} (hp : p.Only A) (hf : ∀ a, (f a).Only A) :
    (p >>= f).Only A := by
  refine Program.only_bind hp fun r => ?_
  cases r with
  | ok a => exact hf a
  | error e => trivial

theorem only_pure (a : α) : (pure a : Run α).Only A := trivial

theorem only_throw (e : Failure) : (throw e : Run α).Only A := trivial

theorem only_liftProgram {p : Program α} (h : p.Only A) : (liftProgram p).Only A :=
  Program.only_bind h fun _ => trivial

theorem only_ofProgram {ε : Type} {toFailure : ε → Failure} {p : Program (Except ε α)}
    (h : p.Only A) : (ofProgram toFailure p).Only A :=
  Program.only_bind h fun r => by cases r <;> trivial

theorem only_emit {e : Event} (h : A (.control (.emit e))) : (emit e).Only A :=
  only_liftProgram ⟨h, fun _ => trivial⟩

theorem only_checkCancelled (h : A (.control .isCancelled)) : checkCancelled.Only A :=
  only_bind (only_liftProgram ⟨h, fun _ => trivial⟩) fun stop => by cases stop <;> trivial

/-! ## Runs in a world -/

variable {σ : Type} {h : Handler σ} {s : σ}

/-- The moments of a run. -/
def moments (h : Handler σ) (p : Run α) (s : σ) : List (Moment σ) := Program.moments h p.run s

/-- How a run ends, and the world it leaves. -/
def outcome (h : Handler σ) (p : Run α) (s : σ) : Option (Except Failure α) × σ :=
  Program.run h p.run s

/-- A run of two parts: the first came to its end and the second began there, or there was no
second. -/
theorem bind_cases (h : Handler σ) (p : Run α) (f : α → Run β) (s : σ) :
    (∃ a s', p.outcome h s = (some (.ok a), s') ∧
      (p >>= f).moments h s = p.moments h s ++ (f a).moments h s' ∧
      (p >>= f).outcome h s = (f a).outcome h s') ∨
    ((∀ a, (p.outcome h s).1 ≠ some (.ok a)) ∧ (p >>= f).moments h s = p.moments h s ∧
      ((p >>= f).outcome h s).2 = (p.outcome h s).2 ∧
      ∀ b, ((p >>= f).outcome h s).1 ≠ some (.ok b)) := by
  have hrun : (p >>= f).run = p.run.bind fun
      | .ok a => (f a).run
      | .error e => .done (.error e) := by
    refine congrArg p.run.bind (funext fun r => ?_)
    cases r <;> rfl
  simp only [moments, outcome, hrun, Program.moments_bind, Program.run_bind]
  rcases hp : Program.run h p.run s with ⟨_ | (e | a), s'⟩
  · exact .inr ⟨nofun, by simp, rfl, nofun⟩
  · exact .inr ⟨nofun, by simp [Program.moments], rfl, nofun⟩
  · exact .inl ⟨a, s', rfl, rfl, rfl⟩

theorem Follows.run {p : Run α} {I : κ → σ → Prop}
    (hstep : ∀ k s r, I k s → P.allowed k r →
      ∃ k', P.after k r (h.answer r s).1 k' ∧ I k' (h.answer r s).2)
    (hp : p.Follows P Q k) (hk : I k s) :
    (∀ m ∈ p.moments h s, ∃ k k', I k m.before ∧ P.allowed k m.request ∧
      P.after k m.request m.answer k' ∧ I k' m.after) ∧
    ∃ k', I k' (p.outcome h s).2 ∧ ∀ a, (p.outcome h s).1 = some (.ok a) → Q a k' := by
  obtain ⟨hmoments, k', hend, hQ⟩ := Program.Follows.run hstep hp hk
  exact ⟨hmoments, k', hend, fun a ha => hQ _ ha a rfl⟩

theorem Only.of_mem_moments {p : Run α} (hp : p.Only A) {m : Moment σ}
    (hm : m ∈ p.moments h s) : A m.request := Program.Only.of_mem_moments hp hm

end Run

end Rollout
