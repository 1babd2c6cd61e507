import Rollout.Proofs.Cloud.StackProvider
import Rollout.Proofs.Files.Beyond
import Rollout.Cloud.OnDisk

/-!
What invoking a function does to the disk: it adds a line to a log and leaves buckets and stacks
alone.
-/

namespace Rollout

open FileTree Outcome

variable {t t' : FileTree} {top : Location} {p : Path}

namespace FileTree

theorem write_ok (ht : t.Tidy top) (hp : Below t.workDir top p) {change : ByteArray → ByteArray}
    (h : t.write p change = .ok t') :
    t'.Tidy top ∧ Touched top (· = p.place t.workDir) t t' := by
  simp only [write, bind_eq_ok, throw_bind, guard_eq_ok] at h
  obtain ⟨l, hl, -, h⟩ := h
  have habove := entry?_above_of_locate ht.wf ht.free hp.near hl
  obtain ⟨rfl, -⟩ := locate_ok ht.free hp.near hl
  have hne := hp.place_ne_nil
  have hput (content : ByteArray) (hold : t.entry? (p.place t.workDir) ≠ some .dir) :
      (t.put (p.place t.workDir) (.file content)).Tidy top ∧
        Touched top (· = p.place t.workDir) t (t.put (p.place t.workDir) (.file content)) := by
    refine ⟨ht.put hne habove hold (by simp), rfl, fun l hl => .inl ?_⟩
    rw [ entry?_put hne, if_neg (Ne.symm hl)]
  split at h
  · cases h
  · rename_i old hold
    cases h
    exact hput _ (by simp [hold])
  · cases h
  · rename_i hnone
    cases h
    exact hput _ (by simp [hnone])

end FileTree

theorem Effect.append_spec (ht : t.Tidy top) (hp : Below t.workDir top p) {content : ByteArray}
    {r : Except FileError Unit} (h : (Effect.append p content).perform t = (r, t')) :
    t'.Tidy top ∧ Touched top (· = p.place t.workDir) t t' := by
  simp only [perform, Disk.step] at h
  split at h
  · rename_i hstep
    cases h
    exact write_ok ht hp hstep
  · cases h
    exact ⟨ht, .refl ..⟩

namespace HookInvoker

variable {h : HookInvoker} {name : String}

/-- An invocation changes the log alone, however it ends. -/
theorem invoke_spec (ht : t.Tidy top) (hlog : Below t.workDir top h.log)
    {r : Except HookError Unit} (hrun : h.invoke name t = (r, t')) :
    t'.Tidy top ∧ Touched top (· = h.log.place t.workDir) t t' := by
  obtain ⟨dir, hdir⟩ := Path.exists_parent hlog.names
  have heffects {r : Except FileError Unit}
      (hrun : Effect.performAll (h.effects name) t = (r, t')) :
      t'.Tidy top ∧ Touched top (· = h.log.place t.workDir) t t' := by
    simp only [effects, hdir, List.cons_append, List.nil_append, Effect.performAll] at hrun
    rcases bind_eq hrun with ⟨e, hmake, -⟩ | ⟨⟨⟩, t₁, hmake, hrun⟩
    · obtain ⟨ht', htouched⟩ := Effect.makeDirs_spec ht (hlog.near.parent hdir) hmake
      exact ⟨ht', htouched.mono nofun⟩
    obtain ⟨ht₁, htouched⟩ := Effect.makeDirs_spec ht (hlog.near.parent hdir) hmake
    have happend {r : Except FileError Unit}
        (hrun : (Effect.append h.log (name ++ "\n").toUTF8).perform t₁ = (r, t')) :
        t'.Tidy top ∧ Touched top (· = h.log.place t.workDir) t t' := by
      obtain ⟨ht', htouched'⟩ := Effect.append_spec ht₁ (hlog.of_work htouched.work) hrun
      rw [htouched.work] at htouched'
      exact ⟨ht', (htouched.mono nofun).trans htouched'⟩
    rcases bind_eq hrun with ⟨e, hlast, -⟩ | ⟨⟨⟩, t₂, hlast, hrun⟩
    · exact happend hlast
    · cases hrun
      exact happend hlast
  rw [invoke] at hrun
  rcases bind_eq hrun with ⟨e, hperform, -⟩ | ⟨⟨⟩, t₁, hperform, hrun⟩
  · obtain ⟨r', hperform, -⟩ := mapError_eq hperform
    exact heffects hperform
  · obtain ⟨r', hperform, -⟩ := mapError_eq hperform
    -- the function may fail, but by then its line is written
    have hsame : t' = t₁ := by
      split at hrun
      · exact (Prod.mk.inj hrun).2.symm
      · exact (Prod.mk.inj hrun).2.symm
    exact heffects (hsame ▸ hperform)

theorem isEntry_logName : Path.IsEntry logName := ⟨by decide, by decide, by decide⟩

end HookInvoker

namespace DiskCloud

/-- A cloud whose log lies in the directory of its services. -/
structure LogsAtRoot (c : DiskCloud) : Prop where
  log : c.hooks.log = c.provider.root.joinText HookInvoker.logName

variable {c : DiskCloud} {work : Location}

theorem LogsAtRoot.below (h : c.LogsAtRoot) (hroot : Within work top c.provider.root) :
    Below work top c.hooks.log := by
  rw [h.log]
  exact hroot.entry HookInvoker.isEntry_logName

theorem LogsAtRoot.place (h : c.LogsAtRoot) :
    c.hooks.log.place work = c.provider.root.place work ++ [HookInvoker.logName] := by
  rw [h.log, HookInvoker.isEntry_logName.place_joinText]

/-- The log is no file of a bucket. -/
theorem LogsAtRoot.not_inStore (h : c.LogsAtRoot) (hroot : c.objects.root = c.provider.root) :
    ¬c.objects.InStore work (c.hooks.log.place work) := by
  rw [h.place, ← hroot]
  rintro ⟨bucket, hl | ⟨n, hl⟩⟩
  · rw [ObjectStore.indexPlace, ObjectStore.bucketPlace, List.append_assoc] at hl
    simp at hl
  · rw [ObjectStore.blobPlace, ObjectStore.bucketPlace, List.append_assoc] at hl
    simp at hl

/-- The log is no document of a stack. -/
theorem LogsAtRoot.ne_stackPlace (h : c.LogsAtRoot) {name : String}
    (hn : StackProvider.Contained name) :
    c.hooks.log.place work ≠ c.provider.stackPlace work name := by
  rw [h.place, StackProvider.stackPlace_eq work hn]
  intro hl
  exact absurd (List.cons.inj (List.append_cancel_left hl)).1 (by decide)

theorem logsAtRoot_atRootWith (t : FileTree) (root : Path) (pageSize exportPageSize : Nat)
    (failing : List String) : (atRootWith t root pageSize exportPageSize failing).LogsAtRoot := ⟨rfl⟩

end DiskCloud

end Rollout
