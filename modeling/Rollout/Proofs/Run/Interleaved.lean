import Rollout.Proofs.Cloud.Invocation
import Rollout.Proofs.Cloud.StackCalls
import Rollout.Proofs.Run.Exchanges

/-!
Runs side by side. Several runs make their requests in turn, and all are answered out of one disk. A
history says which run was told what, in the order in which it happened, so every interleaving of
the runs is a history.
-/

namespace Rollout

open FileTree Outcome

/-- What several runs were told, in the order in which it happened. -/
abbrev History (ι : Type) : Type := List (ι × Exchange)

namespace History

variable {ι : Type} {h h₁ h₂ : History ι} {x : ι} {e : Exchange} {bucket key : String}

/-- What one of the runs was told. -/
def told [DecidableEq ι] (h : History ι) (x : ι) : List Exchange :=
  h.filterMap fun m => if m.1 = x then some m.2 else none

theorem mem_told [DecidableEq ι] : e ∈ told h x ↔ (x, e) ∈ h := by
  simp [told]

theorem told_cons [DecidableEq ι] (x y : ι) (e : Exchange) (h : History ι) :
    told ((y, e) :: h) x = if y = x then e :: told h x else told h x := by
  rw [told, List.filterMap_cons]
  by_cases hxy : y = x
  · simp [hxy, told]
  · simp [hxy, told]

theorem told_append_cons [DecidableEq ι] (h₁ h₂ : History ι) (x : ι) (e : Exchange) :
    told (h₁ ++ (x, e) :: h₂) x = told h₁ x ++ e :: told h₂ x := by
  rw [told, List.filterMap_append]
  exact congrArg (told h₁ x ++ ·) ((told_cons x x e h₂).trans (if_pos rfl))

/-- The exchanges of a history took place on a disk, each at the site of its run. -/
inductive Passes (site : ι → Site) : History ι → FileTree → FileTree → Prop
  | nil (t : FileTree) : Passes site [] t t
  | cons {x : ι} {e : Exchange} {h : History ι} {t t₁ t' : FileTree}
    (he : (site x).Answers e.request t e.answer t₁) (hrest : Passes site h t₁ t') :
    Passes site ((x, e) :: h) t t'

theorem Passes.append {site : ι → Site} {t t' : FileTree} (h : Passes site (h₁ ++ h₂) t t') :
    ∃ t₁, Passes site h₁ t t₁ ∧ Passes site h₂ t₁ t' := by
  induction h₁ generalizing t with
  | nil => exact ⟨t, .nil t, h⟩
  | cons m h₁ ih =>
    cases h with
    | cons he hrest =>
      obtain ⟨t₁, hfirst, hsecond⟩ := ih hrest
      exact ⟨t₁, .cons he hfirst, hsecond⟩

/-- Each exchange took place on the disk that those before it had left. -/
theorem Passes.split {site : ι → Site} {t t' : FileTree} (h : Passes site h₁ t t')
    (he : (x, e) ∈ h₁) :
    ∃ h₂ h₃ t₁ t₂, h₁ = h₂ ++ (x, e) :: h₃ ∧ Passes site h₂ t t₁ ∧
      (site x).Answers e.request t₁ e.answer t₂ ∧ Passes site h₃ t₂ t' := by
  obtain ⟨h₂, h₃, rfl⟩ := List.append_of_mem he
  obtain ⟨t₁, hbefore, hafter⟩ := h.append
  cases hafter with
  | cons he hrest => exact ⟨h₂, h₃, t₁, _, rfl, hbefore, he, hrest⟩

/-! ## Taking turns -/

/-- Runs that make their requests when it is their turn. A run that is done lets its turn pass. -/
def takeTurns {α : Type} [DecidableEq ι]
    (answer : ι → (r : Request) → FileTree → r.Answer × FileTree) :
    List ι → (ι → Program α) → FileTree → History ι × (ι → Program α) × FileTree
  | [], p, t => ([], p, t)
  | x :: turns, p, t =>
    match p x with
    | .ask r next =>
      let (a, t₁) := answer x r t
      let (h, rest) := takeTurns answer turns (Function.update p x (next a)) t₁
      ((x, ⟨r, a⟩) :: h, rest)
    | .done _ => takeTurns answer turns p t
    | .unfinished => takeTurns answer turns p t

/-- What runs are told that take turns, and what those come to that are done in the end. -/
theorem takeTurns_spec {α : Type} [DecidableEq ι] {site : ι → Site}
    {answer : ι → (r : Request) → FileTree → r.Answer × FileTree}
    (hanswer : ∀ x r t, (site x).Answers r t (answer x r t).1 (answer x r t).2) (turns : List ι)
    (p : ι → Program α) (t : FileTree) :
    Passes site (takeTurns answer turns p t).1 t (takeTurns answer turns p t).2.2 ∧
      ∀ x a, (takeTurns answer turns p t).2.1 x = .done a →
        (p x).Exchanges (told (takeTurns answer turns p t).1 x) a := by
  induction turns generalizing p t with
  | nil =>
    refine ⟨.nil t, fun x a hdone => ?_⟩
    rw [show p x = .done a from hdone]
    exact .done a
  | cons y turns ih =>
    unfold takeTurns
    split
    · rename_i r next hp
      obtain ⟨hpasses, hdone⟩ := ih (Function.update p y (next (answer y r t).1)) (answer y r t).2
      refine ⟨.cons (hanswer y r t) hpasses, fun x a hx => ?_⟩
      have hrest := hdone x a hx
      rw [told_cons]
      by_cases hxy : y = x
      · subst hxy
        rw [Function.update_self] at hrest
        rw [if_pos rfl, hp]
        exact .ask _ hrest
      · rw [Function.update_of_ne (Ne.symm hxy)] at hrest
        rwa [if_neg hxy]
    · exact ih p t
    · exact ih p t

/-! ## Who came last -/

/-- Where something happens in a history, it happens there for the last time. -/
theorem exists_last {α : Type} {P : α → Prop} {l : List α} (h : ∃ a ∈ l, P a) :
    ∃ l₁ a l₂, l = l₁ ++ a :: l₂ ∧ P a ∧ ∀ b ∈ l₂, ¬P b := by
  induction l with
  | nil =>
    obtain ⟨a, ha, -⟩ := h
    cases ha
  | cons c l ih =>
    by_cases hl : ∃ a ∈ l, P a
    · obtain ⟨l₁, a, l₂, rfl, ha, hnone⟩ := ih hl
      exact ⟨c :: l₁, a, l₂, rfl, ha, hnone⟩
    · obtain ⟨a, ha, hP⟩ := h
      rcases List.mem_cons.1 ha with rfl | ha
      · exact ⟨[], a, l, rfl, hP, fun b hb hPb => hl ⟨b, hb, hPb⟩⟩
      · exact absurd ⟨a, ha, hP⟩ hl

/-- This run was the last to store an object under a key. -/
def StoredLast (h : History ι) (bucket key : String) (x : ι) : Prop :=
  ∃ h₁ e h₂, h = h₁ ++ (x, e) :: h₂ ∧ e.request.putKey? bucket = some key ∧
    ∀ m ∈ h₂, m.2.request.putKey? bucket ≠ some key

/-- When the stack was updated for the last time, out of the bucket of the run that did so, this
run was the last to have stored a template there. -/
def UpdatedLast (h : History ι) (bucket : ι → String) (x : ι) : Prop :=
  ∃ h₁ y e h₂, h = h₁ ++ (y, e) :: h₂ ∧ e.request.IsUpdate ∧
    (∀ m ∈ h₂, ¬m.2.request.IsUpdate) ∧ StoredLast h₁ (bucket y) templateKey x

theorem storedLast_cons {m : ι × Exchange} :
    StoredLast (m :: h) bucket key x ↔ StoredLast h bucket key x ∨
      m.1 = x ∧ m.2.request.putKey? bucket = some key ∧
        ∀ m' ∈ h, m'.2.request.putKey? bucket ≠ some key := by
  constructor
  · rintro ⟨h₁, e, h₂, heq, hkey, hnone⟩
    cases h₁ with
    | nil =>
      cases heq
      exact .inr ⟨rfl, hkey, hnone⟩
    | cons m' h₁ =>
      cases heq
      exact .inl ⟨h₁, e, h₂, rfl, hkey, hnone⟩
  · rintro (⟨h₁, e, h₂, rfl, hkey, hnone⟩ | ⟨rfl, hkey, hnone⟩)
    · exact ⟨m :: h₁, e, h₂, rfl, hkey, hnone⟩
    · exact ⟨[], m.2, h, rfl, hkey, hnone⟩

instance decidableStoredLast [DecidableEq ι] (bucket key : String) (x : ι) :
    (h : History ι) → Decidable (StoredLast h bucket key x)
  | [] => .isFalse (by
      rintro ⟨h₁, e, h₂, heq, -⟩
      cases h₁ <;> cases heq)
  | _ :: h =>
    have := decidableStoredLast bucket key x h
    decidable_of_iff _ storedLast_cons.symm

theorem updatedLast_iff {bucket : ι → String} :
    UpdatedLast h bucket x ↔ ∃ n : Fin h.length, h[n].2.request.IsUpdate ∧
      (∀ m ∈ h.drop (n + 1), ¬m.2.request.IsUpdate) ∧
      StoredLast (h.take n) (bucket h[n].1) templateKey x := by
  constructor
  · rintro ⟨h₁, y, e, h₂, rfl, hupdate, hnone, hlast⟩
    exact ⟨⟨h₁.length, by simp⟩, by simpa using hupdate, fun m hm => hnone m (by simpa using hm),
      by simpa using hlast⟩
  · rintro ⟨n, hupdate, hnone, hlast⟩
    exact ⟨h.take n, h[n].1, h[n].2, h.drop (n + 1), by simp, hupdate, hnone, hlast⟩

instance [DecidableEq ι] (bucket : ι → String) (x : ι) : Decidable (UpdatedLast h bucket x) :=
  decidable_of_iff _ updatedLast_iff.symm

theorem exists_storedLast (h : ∃ m ∈ h₁, m.2.request.putKey? bucket = some key) :
    ∃ x, StoredLast h₁ bucket key x := by
  obtain ⟨h', ⟨x, e⟩, h'', rfl, hkey, hnone⟩ := exists_last h
  exact ⟨x, h', e, h'', rfl, hkey, hnone⟩

end History

/-! ## What a request changes -/

namespace Site

variable {site : Site} {t t' : FileTree} {top : Location} {name : String}

/-- What a request of a deploy does to the disk: it stores an object or makes, changes or saves
something else of its own. A stack that is there already keeps its document unless it is updated. -/
theorem kept_of_deploys (h : site.Settled top t) (hlogs : site.cloud.LogsAtRoot)
    (hn : StackProvider.Contained name) {r : Request} {a : r.Answer} (hr : r.Deploys name)
    (ha : site.Answers r t a t') :
    ∃ S, site.cloud.objects.Kept top S (fun b k => r.putKey? b = some k) 1 t t' ∧
      (∀ l, S l → top <+: l) ∧
      (¬r.IsUpdate → site.cloud.provider.load t name ≠ .ok none →
        ¬S (site.cloud.provider.stackPlace t.workDir name)) := by
  have hidle (hr : r.Idle) : ∃ S,
      site.cloud.objects.Kept top S (fun b k => r.putKey? b = some k) 1 t t' ∧
        (∀ l, S l → top <+: l) ∧
        (¬r.IsUpdate → site.cloud.provider.load t name ≠ .ok none →
          ¬S (site.cloud.provider.stackPlace t.workDir name)) := by
    rw [answers_idle hr ha]
    exact ⟨fun _ => False, .refl h.steady .., fun _ => False.elim, fun _ _ => id⟩
  have hinStack {l : Location} (hl : site.cloud.provider.InStack t.workDir name l) : top <+: l :=
    hl.below h.rooted h.within hn
  cases r with
  | store c =>
    cases c with
    | put bucket key body =>
      obtain ⟨hkept, -⟩ := ObjectStore.put_spec h.steady ha
      refine ⟨_, hkept.mono (fun _ => id) ?_ (Nat.le_refl _),
        fun l hl => ObjectStore.InStore.below h.steady.within ⟨bucket, hl⟩, fun _ _ hl => ?_⟩
      · rintro b k ⟨rfl, rfl⟩
        simp [Request.putKey?]
      · have hin : site.cloud.provider.objects.InStore t.workDir
            (site.cloud.provider.stackPlace t.workDir name) := by
          rw [h.provider]
          exact ⟨bucket, hl⟩
        exact StackProvider.not_inStore_stackPlace h.rooted hn hin
    | _ => exact hidle hr
  | stack c =>
    cases c with
    | create name' body =>
      obtain rfl : name' = name := hr
      have hkept := kept_of_create h hn ha
      rcases StackProvider.create_cases ha with ⟨rfl, -⟩ | ⟨-, -, hnone, -⟩
      · exact ⟨fun _ => False, .refl h.steady .., fun _ => False.elim, fun _ _ => id⟩
      · exact ⟨_, hkept.mono (fun _ => id) (fun _ _ => False.elim) (Nat.zero_le _),
          fun l => hinStack, fun _ hsome => absurd hnone hsome⟩
    | update name' url =>
      obtain rfl : name' = name := hr
      exact ⟨_, (kept_of_update h hn ha).mono (fun _ => id) (fun _ _ => False.elim)
        (Nat.zero_le _), fun l => hinStack, fun hnot => absurd trivial hnot⟩
    | _ => exact hidle hr
  | hook hook =>
    obtain rfl : (site.cloud.hooks.invoke hook t).2 = t' := (Prod.mk.inj ha).2
    have hinvoke := (Prod.eta (site.cloud.hooks.invoke hook t)).symm
    obtain ⟨ht', htouched⟩ := HookInvoker.invoke_spec h.steady.tidy (hlogs.below h.within) hinvoke
    refine ⟨_, (h.steady.kept_of_beside ht' htouched ?_).mono (fun _ => id)
      (fun _ _ => False.elim) (Nat.zero_le _), ?_, fun _ _ hl => hlogs.ne_stackPlace hn hl.symm⟩
    · rintro l rfl
      exact hlogs.not_inStore h.root
    · rintro l rfl
      exact (hlogs.below h.within).below
  | record c =>
    cases c with
    | save stage record =>
      obtain ⟨ht', htouched, -⟩ := RecordStore.save_spec h.steady.tidy h.records ha
      refine ⟨_, (RecordStore.kept_of_save h.steady ht' htouched).mono (fun _ => id)
        (fun _ _ => False.elim) (Nat.zero_le _), ?_, fun _ _ hl => ?_⟩
      · rintro l rfl
        exact (RecordStore.below_record h.records stage).below
      · exact RecordStore.not_inStack_place _ site.cloud.provider t.workDir stage name
          (.inl hl.symm)
    | _ => exact hidle hr
  | onMachine c => exact hidle trivial
  | control c =>
    obtain rfl : t' = t := ha
    exact ⟨fun _ => False, .refl h.steady .., fun _ => False.elim, fun _ _ => id⟩

end Site

end Rollout
