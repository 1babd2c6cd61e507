import Mathlib.Data.List.Basic
import Rollout.Proofs.Files.Apart

/-!
Trees that have lost something. Removing takes entries away and adds none. Whatever happens at and
below one location, a tree stays the same beside it - literally the same, once that location is
taken out of both.
-/

namespace Rollout.FileTree

open Outcome

variable {t t' t'' : FileTree} {top spot l l' : Location} {p : Path} {content : ByteArray}
  {S S' : Location → Prop}

/-! ## Taking away -/

/-- What stands is what stood; at some locations of `S` nothing stands any more. -/
structure Pruned (S : Location → Prop) (t t' : FileTree) : Prop where
  work : t'.workDir = t.workDir
  entry : ∀ l, t'.entry? l = t.entry? l ∨ (S l ∧ t'.entry? l = none)

namespace Pruned

theorem refl (S : Location → Prop) (t : FileTree) : Pruned S t t := ⟨rfl, fun _ => .inl rfl⟩

theorem mono (h : Pruned S t t') (hS : ∀ l, S l → S' l) : Pruned S' t t' :=
  ⟨h.work, fun l => (h.entry l).imp id fun hl => ⟨hS l hl.1, hl.2⟩⟩

theorem trans (h : Pruned S t t') (h' : Pruned S t' t'') : Pruned S t t'' := by
  refine ⟨h'.work.trans h.work, fun l => ?_⟩
  rcases h'.entry l with hl' | hl'
  · rw [hl']
    exact h.entry l
  · exact .inr hl'

theorem same (h : Pruned S t t') (hl : ¬S l) : t'.entry? l = t.entry? l :=
  (h.entry l).resolve_right fun hl' => hl hl'.1

theorem touched (h : Pruned S t t') : Touched top S t t' :=
  ⟨h.work, fun _ hl => .inl (h.same hl)⟩

/-- What was not there is not there. -/
theorem not_exists (h : Pruned S t t') (ht : t.Tidy top) (ht' : t'.Tidy top)
    (hp : Below t.workDir top p) (hexists : t.exists? p = false) : t'.exists? p = false := by
  have hp' := hp.of_work h.work
  rw [← Bool.not_eq_true, exists?_eq_true ht.wf ht.free hp.near hp.file] at hexists
  rw [← Bool.not_eq_true, exists?_eq_true ht'.wf ht'.free hp'.near hp'.file, h.work]
  rintro ⟨hu, e, he⟩
  refine hexists ⟨hu, e, ?_⟩
  rcases h.entry (p.place t.workDir) with hsame | ⟨-, hnone⟩
  · rw [← hsame, he]
  · rw [hnone] at he
    cases he

end Pruned

theorem pruned_drop (hl : l ≠ []) : Pruned (· = l) t (t.drop l) := by
  refine ⟨rfl, fun l' => ?_⟩
  rw [ entry?_drop hl]
  by_cases heq : l = l'
  · exact .inr ⟨heq.symm, if_pos heq⟩
  · exact .inl (if_neg heq)

theorem pruned_dropAll (hl : l ≠ []) : Pruned (l <+: ·) t (t.dropAll l) := by
  refine ⟨rfl, fun l' => ?_⟩
  rw [ entry?_dropAll hl]
  by_cases hin : l <+: l'
  · exact .inr ⟨hin, if_pos hin⟩
  · exact .inl (if_neg hin)

/-- A file that was removed. -/
theorem remove_eq (hfree : t.LinkFree top) (hp : Below t.workDir top p) (h : t.remove p = .ok t') :
    t' = t.drop (p.place t.workDir) := by
  simp only [remove, bind_eq_ok] at h
  obtain ⟨l, hl, h⟩ := h
  obtain ⟨rfl, -⟩ := locate_ok hfree hp.near hl
  split at h
  · cases h
  · cases h
  · cases h
    rfl

/-- A directory that was removed with all that was in it. -/
theorem removeTree_eq (hfree : t.LinkFree top) (hp : Below t.workDir top p)
    (h : t.removeTree p = .ok t') : t' = t.dropAll (p.place t.workDir) := by
  simp only [removeTree, bind_eq_ok] at h
  obtain ⟨l, hl, h⟩ := h
  obtain ⟨rfl, -⟩ := locate_ok hfree hp.near hl
  split at h
  · cases h
  · cases h
  · rename_i target hlink
    exact absurd hlink (hfree _ target (.inr hp.below))
  · cases h
    rfl

/-- Removing a file takes it away, or changes nothing. -/
theorem Effect.remove_spec (ht : t.Tidy top) (hp : Below t.workDir top p)
    {r : Except FileError Unit} (h : (Effect.remove p).perform t = (r, t')) :
    t'.Tidy top ∧ Pruned (· = p.place t.workDir) t t' ∧
      (r = .ok () → t'.entry? (p.place t.workDir) = none) := by
  simp only [Effect.perform, Disk.step] at h
  split at h
  · rename_i hremove
    cases h
    obtain ⟨htidy, -, hnone⟩ := remove_ok ht hp hremove
    obtain rfl := remove_eq ht.free hp hremove
    exact ⟨htidy, pruned_drop hp.place_ne_nil, fun _ => hnone⟩
  · cases h
    exact ⟨ht, .refl .., by rintro ⟨⟩⟩

/-- Discarding a file removes it if it is there. -/
theorem discard_eq (hfree : t.LinkFree top) (hp : Below t.workDir top p)
    {r : Except FileError Unit} (h : (Effect.discard p).perform t = (r, t')) :
    t' = t ∨ t' = t.drop (p.place t.workDir) := by
  simp only [Effect.perform, Disk.step] at h
  split at h
  · rename_i hstep
    cases h
    split at hstep
    · exact .inr (remove_eq hfree hp hstep)
    · cases hstep
      exact .inl rfl
  · cases h
    exact .inl rfl

/-! ## Beside a location -/

/-- The same stands but at and below a location. -/
def SameBeside (spot : Location) (t t' : FileTree) : Prop := t'.dropAll spot = t.dropAll spot

namespace SameBeside

theorem refl (spot : Location) (t : FileTree) : SameBeside spot t t := rfl

theorem trans (h : SameBeside spot t t') (h' : SameBeside spot t' t'') : SameBeside spot t t'' :=
  Eq.trans h' h

theorem work (h : SameBeside spot t t') : t'.workDir = t.workDir := by
  show (t'.dropAll spot).workDir = (t.dropAll spot).workDir
  rw [show t'.dropAll spot = t.dropAll spot from h]

theorem entry (h : SameBeside spot t t') (hspot : spot ≠ []) (hl : ¬spot <+: l) :
    t'.entry? l = t.entry? l := by
  have hentry := congrArg (fun u : FileTree => u.entry? l)
    (show t'.dropAll spot = t.dropAll spot from h)
  simpa only [ entry?_dropAll hspot, if_neg hl] using hentry

theorem put (e : Entry) (hl : spot <+: l) : SameBeside spot t (t.put l e) := by
  have hbind (es : List (Location × Entry)) :
      (FileTree.bind l e es).filter (fun x => !within spot x.1) =
        es.filter fun x => !within spot x.1 := by
    induction es with
    | nil => simp [FileTree.bind, within_iff.2 hl]
    | cons x es ih =>
      obtain ⟨l', e'⟩ := x
      rw [FileTree.bind]
      split
      · rename_i heq
        simp [heq, within_iff.2 hl]
      · rw [List.filter_cons, List.filter_cons, ih]
  simp only [SameBeside, dropAll, FileTree.put, hbind]

theorem drop (hl : spot <+: l) : SameBeside spot t (t.drop l) := by
  have hkeep {α : Type} (x : Location × α) : (!within spot x.1 && decide (x.1 ≠ l)) =
      !within spot x.1 := by
    by_cases heq : x.1 = l
    · simp [heq, within_iff.2 hl]
    · simp [heq]
  simp only [SameBeside, dropAll, FileTree.drop, List.filter_filter, hkeep]

theorem dropAll : SameBeside spot t (t.dropAll spot) := by
  simp only [SameBeside, FileTree.dropAll, List.filter_filter, Bool.and_self]

/-- A directory beside the location holds the same names. -/
theorem children (h : SameBeside spot t t') (hl : ¬l <+: spot) (hspot : ¬spot <+: l) :
    t'.children l = t.children l := by
  have hbelow (u : FileTree) : (u.dropAll spot).below l = u.below l := by
    rw [below, FileTree.dropAll, List.filterMap_filter, below]
    refine List.filterMap_congr fun x _ => ?_
    by_cases hin : spot <+: x.1
    · -- what is at or below the one location is not below the other
      have hnone : Path.dropNames? l x.1 = none := by
        rw [← Option.not_isSome_iff_eq_none, dropNames?_isSome]
        intro hx
        rcases List.prefix_or_prefix_of_prefix hx hin with h | h
        · exact hl h
        · exact hspot h
      simp [hnone]
    · simp [show within spot x.1 = false by simpa [← within_iff] using hin]
  rw [FileTree.children, FileTree.children, ← hbelow t', ← hbelow t, h]

end SameBeside

/-- A directory that stands is not made. -/
theorem makeDirs_of_dir (ht : t.Tidy top) (hp : Near t.workDir top p)
    (hu : p.isEmpty = false → Usable p) (hdir : t.entry? (p.place t.workDir) = some .dir) :
    t.makeDirs p = (t, .ok ()) := by
  rw [makeDirs, makeDirsFrom]
  cases hempty : p.isEmpty with
  | true => rfl
  | false =>
    rw [makeDir_of_dir ht hp (hu hempty) hdir]
    simp [isDir_of_dir ht hp (hu hempty) hdir]

/-- Putting a file in place in a directory that stands changes nothing beside the file. -/
theorem replace_beside (ht : t.Tidy top) (hp : Below t.workDir top p) (hu : Usable p)
    (habove : t.entry? (p.place t.workDir).dropLast = some .dir)
    (hl : spot <+: p.place t.workDir) {r : Except FileError Unit}
    (h : (Effect.replace p content).perform t = (r, t')) : SameBeside spot t t' := by
  have hdirectory : t.entry? ((directoryOf p).place t.workDir) = some .dir := by
    rw [place_directoryOf hp]
    exact habove
  obtain rfl : (t.replace p content).1 = t' := congrArg Prod.snd h
  rw [replace, makeDirs_of_dir ht hp.directoryOf (fun _ => hu.directoryOf hp) hdirectory]
  dsimp only
  split
  · rename_i all hall
    simp only [moveInto, bind_eq_ok, throw_bind, guard_eq_ok] at hall
    obtain ⟨l, hlocate, -, -, hall⟩ := hall
    obtain ⟨rfl, -⟩ := locate_ok ht.free hp.near hlocate
    split at hall
    · cases hall
    · cases hall
      exact (SameBeside.drop hl).trans (.put _ hl)
  · exact .refl spot t

/-- So does discarding a file. -/
theorem discard_beside (hfree : t.LinkFree top) (hp : Below t.workDir top p)
    (hl : spot <+: p.place t.workDir) {r : Except FileError Unit}
    (h : (Effect.discard p).perform t = (r, t')) : SameBeside spot t t' := by
  rcases discard_eq hfree hp h with rfl | rfl
  · exact .refl ..
  · exact .drop hl

end Rollout.FileTree
