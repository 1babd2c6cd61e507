import Rollout.Proofs.Record.Store
import Rollout.Proofs.Run.Looking
import Rollout.Run.World

/-!
Runs at a site. Whatever a world says about the course of a run - the time, the order in which
jobs end, whether the run was asked to stop - all other requests are answered out of the disk.
What is shown of runs here holds in every such world.
-/

namespace Rollout

open FileTree Outcome

/-- How the disk of a site answers a request, and what becomes of it. A request about the course
of the run may be answered anything, and leaves the disk alone. -/
def Site.Answers (site : Site) : (r : Request) → FileTree → r.Answer → FileTree → Prop
  | .store c, t, a, t' => site.cloud.objects.answer c t = (a, t')
  | .stack c, t, a, t' => site.cloud.provider.answer c t = (a, t')
  | .hook name, t, a, t' => site.cloud.hooks.answer name t = (a, t')
  | .record c, t, a, t' => site.records.answer c t = (a, t')
  | .onMachine c, t, a, t' => site.look t c = a ∧ t' = t
  | .control _, t, _, t' => t' = t

/-- A world whose answers come from the disk of a site. -/
structure DiskWorld (site : Site) where
  State : Type
  handler : Handler State
  files : State → FileTree
  answers : ∀ r s, site.Answers r (files s) (handler.answer r s).1 (files (handler.answer r s).2)

/-- The world of a run with nothing beside it. -/
def Site.world (site : Site) : DiskWorld site where
  State := World
  handler := site.handler
  files := World.files
  answers r s := by
    cases r with
    | store c => rfl
    | stack c => rfl
    | hook name => rfl
    | record c => rfl
    | onMachine c => exact ⟨rfl, rfl⟩
    | control c => cases c <;> rfl

/-- The course of a run: what it is told at its `n`-th request. -/
structure Course where
  cancelled : Nat → Bool
  now : Nat → Nat
  schedule : Nat → (jobs : Nat) → Schedule jobs

/-- What a run is told about its course. -/
def Course.answer (c : Course) (n : Nat) : (r : ControlCall) → r.Answer
  | .isCancelled => c.cancelled n
  | .now => c.now n
  | .sleep _ => ()
  | .emit _ => ()
  | .schedule jobs _ => c.schedule n jobs

/-- The world of a run that takes a given course: the disk, and how many requests were made. -/
def Site.during (site : Site) (c : Course) : DiskWorld site where
  State := FileTree × Nat
  files := Prod.fst
  handler :=
    { answer := fun r s =>
        match r with
        | .control call => (c.answer s.2 call, s.1, s.2 + 1)
        | r =>
          let (a, w) := site.answer r (.start s.1)
          (a, w.files, s.2 + 1) }
  answers r s := by
    cases r with
    | store c => rfl
    | stack c => rfl
    | hook name => rfl
    | record c => rfl
    | onMachine c => exact ⟨rfl, rfl⟩
    | control c => rfl

/-- The protocol of the disk of a site. -/
def Site.onDisk (site : Site) : Protocol FileTree := 
  ⟨fun _ _ => True, fun t r a t' => site.Answers r t a t'⟩

/-! ## Requests that change little -/

/-- A disk that holds the cloud and the records of a site, all of it in `top`. -/
structure Site.Settled (site : Site) (top : Location) (t : FileTree) : Prop where
  steady : site.cloud.objects.Steady top t
  provider : site.cloud.provider.objects = site.cloud.objects
  root : site.cloud.objects.root = site.cloud.provider.root
  records : Within t.workDir top site.records.stateDir

namespace Site

variable {site : Site} {t t' : FileTree} {top : Location} {name : String}
  {S : Location → Prop} {K : String → String → Prop} {n : Nat}

theorem Settled.of_kept (h : site.Settled top t)
    (hkept : site.cloud.objects.Kept top S K n t t') : site.Settled top t' :=
  ⟨hkept.steady, h.provider, h.root, hkept.touched.work ▸ h.records⟩

theorem Settled.rooted (h : site.Settled top t) :
    site.cloud.provider.objects.root = site.cloud.provider.root := by
  rw [h.provider, h.root]

theorem Settled.within (h : site.Settled top t) : Within t.workDir top site.cloud.provider.root :=
  h.root ▸ h.steady.within

theorem answers_idle {r : Request} {a : r.Answer} (hr : r.Idle) (h : site.Answers r t a t') :
    t' = t := by
  cases r with
  | store c => cases c <;> first | exact hr.elim | exact (Prod.mk.inj h).2.symm
  | stack c => cases c <;> first | exact hr.elim | exact (Prod.mk.inj h).2.symm
  | hook name => exact hr.elim
  | record c => cases c <;> first | exact hr.elim | exact (Prod.mk.inj h).2.symm
  | onMachine c => exact h.2
  | control c => exact h

theorem kept_of_create (h : site.Settled top t) (hn : StackProvider.Contained name) {body : String}
    {a : Except ProviderError CreateOutcome}
    (ha : site.Answers (.stack (.create name body)) t a t') :
    site.cloud.objects.Kept top (site.cloud.provider.InStack t.workDir name) (fun _ _ => False) 0
      t t' := by
  have hquiet := StackProvider.create_spec body (h.provider.symm ▸ h.steady) h.rooted hn
  rw [h.provider] at hquiet
  exact hquiet a t' ha

theorem kept_of_update (h : site.Settled top t) (hn : StackProvider.Contained name) {url : String}
    {a : Except ProviderError UpdateOutcome}
    (ha : site.Answers (.stack (.update name url)) t a t') :
    site.cloud.objects.Kept top (site.cloud.provider.InStack t.workDir name) (fun _ _ => False) 0
      t t' := by
  have hquiet := StackProvider.update_quiet url (h.provider.symm ▸ h.steady) h.rooted hn
  rw [h.provider] at hquiet
  exact hquiet a t' ha

/-- After other requests for a stack, one more object is stored. -/
theorem kept_put {t₀ : FileTree} (h : site.Settled top t₀)
    (hkept : site.cloud.objects.Kept top (site.cloud.provider.InStack t₀.workDir name) K n t₀ t)
    {bucket key : String} {body : ByteArray} {r : Except StoreError Unit}
    (hput : site.cloud.objects.put bucket key body t = (r, t')) (hK : K bucket key) :
    site.cloud.objects.Kept top (site.cloud.provider.InStack t₀.workDir name) K (n + 1) t₀ t' := by
  obtain ⟨hkept', -⟩ := ObjectStore.put_spec hkept.steady hput
  rw [hkept.touched.work] at hkept'
  refine hkept.extend h.steady hkept' (fun l hl => .inr ?_) ?_ (Nat.le_refl _)
  · rw [h.provider]
    exact ⟨bucket, hl⟩
  · rintro b k ⟨rfl, rfl⟩
    exact hK

end Site

end Rollout
