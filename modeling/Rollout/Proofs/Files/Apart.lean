import Rollout.Proofs.Files.Beyond
import Rollout.Proofs.Files.Exact

/-!
Files apart from each other. Putting a file in place and taking one away have to do with what is
on the way to the file alone: nothing else changes, and what stands at a location beside that way
makes no difference to them.
-/

namespace Rollout

namespace FileTree

open Outcome

variable {t t' t'' u : FileTree} {top spot l : Location} {p : Path} {content : ByteArray}

/-! ## What changes -/

/-- Nothing changed but at a location and on the way to it; elsewhere, locks are kept as well. -/
structure Confined (l : Location) (t t' : FileTree) : Prop where
  work : t'.workDir = t.workDir
  entry : ∀ l', ¬l' <+: l → t'.entry? l' = t.entry? l'
  locks : ∀ l', l' ≠ l → t'.locks.filter (·.1 = l') = t.locks.filter (·.1 = l')

namespace Confined

theorem refl (l : Location) (t : FileTree) : Confined l t t :=
  ⟨rfl, fun _ _ => rfl, fun _ _ => rfl⟩

theorem trans (h : Confined l t t') (h' : Confined l t' t'') : Confined l t t'' :=
  ⟨h'.work.trans h.work, fun l' hl' => (h'.entry l' hl').trans (h.entry l' hl'),
    fun l' hl' => (h'.locks l' hl').trans (h.locks l' hl')⟩

end Confined

/-- New directories on the way to a location, and all locks as they were. -/
structure Paved (l : Location) (t t' : FileTree) : Prop where
  work : t'.workDir = t.workDir
  entry : ∀ l', ¬l' <+: l → t'.entry? l' = t.entry? l'
  locks : t'.locks = t.locks

namespace Paved

theorem refl (l : Location) (t : FileTree) : Paved l t t := ⟨rfl, fun _ _ => rfl, rfl⟩

theorem trans (h : Paved l t t') (h' : Paved l t' t'') : Paved l t t'' :=
  ⟨h'.work.trans h.work, fun l' hl' => (h'.entry l' hl').trans (h.entry l' hl'),
    h'.locks.trans h.locks⟩

theorem mono (h : Paved l t t') {l₁ : Location} (hl : l <+: l₁) : Paved l₁ t t' :=
  ⟨h.work, fun l' hl' => h.entry l' fun h => hl' (h.trans hl), h.locks⟩

theorem confined (h : Paved l t t') : Confined l t t' :=
  ⟨h.work, h.entry, fun _ _ => by rw [h.locks]⟩

end Paved

theorem makeDir_paved (hfree : t.LinkFree top) (hp : Near t.workDir top p)
    (h : t.makeDir p = .ok t') : Paved (p.place t.workDir) t t' := by
  simp only [makeDir, bind_eq_ok] at h
  obtain ⟨l, hl, h⟩ := h
  obtain ⟨rfl, -⟩ := locate_ok hfree hp hl
  split at h
  · cases h
  · rename_i hnone
    cases h
    have hne : p.place t.workDir ≠ [] := by
      intro hnil
      simp [hnil] at hnone
    refine ⟨rfl, fun l' hl' => ?_, rfl⟩
    rw [ entry?_put hne, if_neg]
    rintro rfl
    exact hl' List.prefix_rfl

theorem place_parent_on_way {q : Path} (h : p.parent = some q) (work : Location) :
    q.place work <+: p.place work := by
  obtain ⟨hnames, habs⟩ := Path.parent_spec h
  rw [Path.place, Path.place, hnames, habs]
  exact (List.prefix_append_right_inj _).2 (List.dropLast_prefix _)

/-- However far making directories comes, it makes those on the way. -/
theorem makeDirsFrom_paved (fuel : Nat) (ht : t.Tidy top) (hp : Near t.workDir top p)
    {r : Except FileError Unit} (h : t.makeDirsFrom fuel p = (t', r)) :
    Paved (p.place t.workDir) t t' := by
  induction fuel generalizing p t' r with
  | zero =>
    cases h
    exact .refl ..
  | succ fuel ih =>
    rw [makeDirsFrom] at h
    split at h
    · cases h
      exact .refl ..
    split at h
    · rename_i made hmade
      cases h
      exact makeDir_paved ht.free hp hmade
    · split at h
      · cases h
        exact .refl ..
      · rename_i above habove
        have habove' := hp.parent habove
        have hway := place_parent_on_way habove t.workDir
        split at h
        · rename_i made e hmade
          cases h
          exact (ih habove' hmade).mono hway
        · rename_i made hmade
          have hpaved := (ih habove' hmade).mono hway
          have htidy := (makeDirsFrom_spec fuel ht habove' hmade).1
          split at h
          · rename_i all hall
            cases h
            have hlast := makeDir_paved htidy.free (hpaved.work ▸ hp) hall
            rw [hpaved.work] at hlast
            exact hpaved.trans hlast
          · cases h
            exact hpaved
    · cases h
      exact .refl ..

theorem moveInto_confined (hfree : t.LinkFree top) (hp : Below t.workDir top p)
    (h : t.moveInto p content = .ok t') : Confined (p.place t.workDir) t t' := by
  simp only [moveInto, bind_eq_ok, throw_bind, guard_eq_ok] at h
  obtain ⟨l, hl, -, -, h⟩ := h
  obtain ⟨rfl, -⟩ := locate_ok hfree hp.near hl
  have hne := hp.place_ne_nil
  split at h
  · cases h
  · cases h
    refine ⟨rfl, fun l' hl' => ?_, fun l' hl' => ?_⟩
    · have hl'' : p.place t.workDir ≠ l' := by
        rintro rfl
        exact hl' List.prefix_rfl
      rw [ entry?_put hne, if_neg hl'', entry?_drop hne, if_neg hl'']
    · simp only [put, drop, List.filter_filter]
      refine List.filter_congr fun x _ => ?_
      by_cases hx : x.1 = l' <;> simp [hx, hl']

/-- Putting a file in place changes the file; if it fails, it makes directories above it at
most. -/
theorem replace_confined (ht : t.Tidy top) (hp : Below t.workDir top p)
    {r : Except FileError Unit} (h : t.replace p content = (t', r)) :
    Confined (p.place t.workDir) t t' ∧
      (r ≠ .ok () → Paved (p.place t.workDir).dropLast t t') := by
  have hdirectory := place_directoryOf hp
  rw [replace] at h
  split at h
  · rename_i made e hmade
    cases h
    have hpaved := hdirectory ▸ makeDirsFrom_paved _ ht hp.directoryOf hmade
    exact ⟨(hpaved.mono (List.dropLast_prefix _)).confined, fun _ => hpaved⟩
  · rename_i made hmade
    have hpaved := hdirectory ▸ makeDirsFrom_paved _ ht hp.directoryOf hmade
    have hconfined := (hpaved.mono (List.dropLast_prefix _)).confined
    have htidy := (makeDirs_spec ht hp.directoryOf hmade).1
    split at h
    · rename_i all hall
      cases h
      have hmoved := moveInto_confined htidy.free (hp.of_work hpaved.work) hall
      rw [hpaved.work] at hmoved
      exact ⟨hconfined.trans hmoved, by simp⟩
    · cases h
      exact ⟨hconfined, fun _ => hpaved⟩

theorem remove_confined (hfree : t.LinkFree top) (hp : Below t.workDir top p)
    (h : t.remove p = .ok t') : Confined (p.place t.workDir) t t' := by
  simp only [remove, bind_eq_ok] at h
  obtain ⟨l, hl, h⟩ := h
  obtain ⟨rfl, -⟩ := locate_ok hfree hp.near hl
  have hne := hp.place_ne_nil
  split at h
  · cases h
  · cases h
  · cases h
    refine ⟨rfl, fun l' hl' => ?_, fun l' hl' => ?_⟩
    · rw [ entry?_drop hne, if_neg]
      rintro rfl
      exact hl' List.prefix_rfl
    · simp only [drop, List.filter_filter]
      refine List.filter_congr fun x _ => ?_
      by_cases hx : x.1 = l' <;> simp [hx, hl']

/-! ## What makes a difference -/

/-- Trees with the same entries but at one location. -/
structure AgreeBut (spot : Location) (t u : FileTree) : Prop where
  work : u.workDir = t.workDir
  entry : ∀ l, l ≠ spot → u.entry? l = t.entry? l

/-- A step that succeeds on both trees, so that they agree afterwards as they did before, or fails
on both for the same reason. -/
inductive SameStep (spot : Location) : Except FileError FileTree → Except FileError FileTree → Prop
  | error (e : FileError) : SameStep spot (.error e) (.error e)
  | ok {t u : FileTree} (h : AgreeBut spot t u) : SameStep spot (.ok t) (.ok u)

/-- Steps that come to the same end on both trees and leave them in agreement. -/
inductive SameEnd (spot : Location) :
    FileTree × Except FileError Unit → FileTree × Except FileError Unit → Prop
  | mk {t u : FileTree} (r : Except FileError Unit) (h : AgreeBut spot t u) :
    SameEnd spot (t, r) (u, r)

namespace AgreeBut

theorem put (h : AgreeBut spot t u) (l : Location) (e : Entry) :
    AgreeBut spot (t.put l e) (u.put l e) := by
  refine ⟨h.work, fun l' hl' => ?_⟩
  have hl := h.entry l' hl'
  by_cases hnil : l' = []
  · simp [hnil]
  · simp only [ entry?, if_neg hnil, FileTree.put, lookup_bind] at hl ⊢
    rw [hl]

theorem drop (h : AgreeBut spot t u) (l : Location) : AgreeBut spot (t.drop l) (u.drop l) := by
  refine ⟨h.work, fun l' hl' => ?_⟩
  have hl := h.entry l' hl'
  by_cases hnil : l' = []
  · simp [hnil]
  · simp only [ entry?, if_neg hnil, FileTree.drop, lookup_filter] at hl ⊢
    rw [hl]

variable (h : AgreeBut spot t u) (hfree : t.LinkFree top) (hp : Near t.workDir top p)
  (hout : ¬spot <+: p.place t.workDir)

include h hout in
theorem entry_on_way {l : Location} (hl : l <+: p.place t.workDir) : u.entry? l = t.entry? l := by
  refine h.entry l ?_
  rintro rfl
  exact hout hl

include h hfree hp hout

theorem locate_eq (last : Bool) : u.locate p last = t.locate p last :=
  locate_congr hp.plain h.work (fun _ hl => h.entry_on_way hout hl)
    fun _ target hl => hfree.of_prefix hp.comparable hl target

theorem find_eq : u.find p = t.find p :=
  find_congr hp.plain h.work (fun _ hl => h.entry_on_way hout hl)
    fun _ target hl => hfree.of_prefix hp.comparable hl target

/-- A directory is made in both trees or, for the same reason, in neither. -/
theorem makeDir : SameStep spot (t.makeDir p) (u.makeDir p) := by
  rw [FileTree.makeDir, FileTree.makeDir, h.locate_eq hfree hp hout]
  cases hl : t.locate p false with
  | error e => exact .error e
  | ok l =>
    obtain ⟨rfl, -⟩ := locate_ok hfree hp hl
    rw [ok_bind, ok_bind, h.entry_on_way hout List.prefix_rfl]
    cases t.entry? (p.place t.workDir) with
    | some e => exact .error _
    | none => exact .ok (h.put _ _)

theorem moveInto (content : ByteArray) :
    SameStep spot (t.moveInto p content) (u.moveInto p content) := by
  rw [FileTree.moveInto, FileTree.moveInto, h.locate_eq hfree hp hout]
  cases hl : t.locate p false with
  | error e => exact .error e
  | ok l =>
    obtain ⟨rfl, -⟩ := locate_ok hfree hp hl
    simp only [ok_bind, h.entry_on_way hout List.prefix_rfl]
    split
    · exact .error _
    split
    · exact .error _
    split
    · exact .error _
    · exact .ok ((h.drop _).put _ _)

theorem remove : SameStep spot (t.remove p) (u.remove p) := by
  rw [FileTree.remove, FileTree.remove, h.locate_eq hfree hp hout]
  cases hl : t.locate p false with
  | error e => exact .error e
  | ok l =>
    obtain ⟨rfl, -⟩ := locate_ok hfree hp hl
    rw [ok_bind, ok_bind, h.entry_on_way hout List.prefix_rfl]
    split
    · exact .error _
    · exact .error _
    · exact .ok (h.drop _)

theorem isDir_eq : u.isDir p = t.isDir p := by
  rw [isDir, isDir, h.find_eq hfree hp hout]

theorem exists?_eq : u.exists? p = t.exists? p := by
  rw [exists?, exists?, h.find_eq hfree hp hout]

theorem readText_eq : u.readText p = t.readText p := by
  rw [readText, readText, read, read, h.find_eq hfree hp hout]

end AgreeBut

/-- Directories are made in both trees, to the same end. -/
theorem AgreeBut.makeDirsFrom (fuel : Nat) (h : AgreeBut spot t u) (ht : t.Tidy top)
    (hp : Near t.workDir top p) (hout : ¬spot <+: p.place t.workDir) :
    SameEnd spot (t.makeDirsFrom fuel p) (u.makeDirsFrom fuel p) := by
  induction fuel generalizing p with
  | zero => exact .mk _ h
  | succ fuel ih =>
    by_cases hempty : p.isEmpty = true
    · simp only [FileTree.makeDirsFrom, if_pos hempty]
      exact .mk _ h
    simp only [FileTree.makeDirsFrom, if_neg hempty, h.isDir_eq ht.free hp hout]
    have hmake := h.makeDir ht.free hp hout
    generalize t.makeDir p = made, u.makeDir p = made' at hmake ⊢
    cases hmake with
    | ok hmade => exact .mk _ hmade
    | error e =>
      cases e with
      | notFound =>
        cases habove : p.parent with
        | none => exact .mk _ h
        | some above =>
          have hp' := hp.parent habove
          have hfrom := ih hp' fun hspot => hout (hspot.trans (place_parent_on_way habove _))
          have hspec : (t.makeDirsFrom fuel above).1.Tidy top ∧
              Touched top (fun _ => False) t (t.makeDirsFrom fuel above).1 :=
            makeDirsFrom_spec fuel ht hp' rfl
          obtain ⟨htidy, htouched⟩ := hspec
          dsimp only
          generalize t.makeDirsFrom fuel above = end₁, u.makeDirsFrom fuel above = end₂
            at hfrom htidy htouched ⊢
          cases hfrom with
          | @mk made made' r hagree =>
            cases r with
            | error e => exact .mk _ hagree
            | ok done =>
              -- the directory above is there now in both trees
              have hlast := hagree.makeDir htidy.free (htouched.work ▸ hp) (htouched.work ▸ hout)
              simp only [hagree.isDir_eq htidy.free (htouched.work ▸ hp) (htouched.work ▸ hout)]
              generalize made.makeDir p = all, made'.makeDir p = all' at hlast ⊢
              cases hlast with
              | error e => exact .mk _ hagree
              | ok hall => exact .mk _ hall
      | _ => exact .mk _ h

/-- A file is put in place in both trees, or for the same reason in neither. -/
theorem AgreeBut.replace (h : AgreeBut spot t u) (ht : t.Tidy top) (hp : Below t.workDir top p)
    (hout : ¬spot <+: p.place t.workDir) (content : ByteArray) :
    SameEnd spot (t.replace p content) (u.replace p content) := by
  have hway : (directoryOf p).place t.workDir <+: p.place t.workDir := by
    rw [place_directoryOf hp]
    exact List.dropLast_prefix _
  have hdirs : SameEnd spot (t.makeDirs (directoryOf p)) (u.makeDirs (directoryOf p)) :=
    h.makeDirsFrom _ ht hp.directoryOf fun hspot => hout (hspot.trans hway)
  have hspec : (t.makeDirs (directoryOf p)).1.Tidy top ∧
      Touched top (fun _ => False) t (t.makeDirs (directoryOf p)).1 :=
    makeDirs_spec ht hp.directoryOf rfl
  obtain ⟨htidy, htouched⟩ := hspec
  rw [FileTree.replace, FileTree.replace]
  generalize t.makeDirs (directoryOf p) = end₁, u.makeDirs (directoryOf p) = end₂
    at hdirs htidy htouched ⊢
  cases hdirs with
  | @mk made made' r hagree =>
    cases r with
    | error e => exact .mk _ hagree
    | ok done =>
      have hmove := hagree.moveInto htidy.free (htouched.work ▸ hp.near) (htouched.work ▸ hout)
        content
      dsimp only
      generalize made.moveInto p content = all, made'.moveInto p content = all' at hmove ⊢
      cases hmove with
      | error e => exact .mk _ hagree
      | ok hall => exact .mk _ hall

/-- A file is taken away in both trees, or for the same reason in neither. -/
theorem AgreeBut.discard (h : AgreeBut spot t u) (hfree : t.LinkFree top)
    (hp : Near t.workDir top p) (hout : ¬spot <+: p.place t.workDir) :
    SameStep spot (if t.exists? p then t.remove p else .ok t)
      (if u.exists? p then u.remove p else .ok u) := by
  rw [h.exists?_eq hfree hp hout]
  split
  · exact h.remove hfree hp hout
  · exact .ok h

/-! ## What a look depends on -/

/-- Whether there is anything in the place of a file depends on that place alone. -/
theorem exists?_congr (ht : t.Tidy top) (hu : u.Tidy top) (hp : Below t.workDir top p)
    (hwork : u.workDir = t.workDir)
    (hentry : u.entry? (p.place t.workDir) = t.entry? (p.place t.workDir)) :
    u.exists? p = t.exists? p := by
  have hp' := hp.of_work hwork
  rw [Bool.eq_iff_iff, exists?_eq_true hu.wf hu.free hp'.near hp'.file,
    exists?_eq_true ht.wf ht.free hp.near hp.file, hwork, hentry]

/-- What is there is found. -/
theorem find_of_exists (ht : t.Tidy top) (hu : u.Tidy top) (hp : Below t.workDir top p)
    (hwork : u.workDir = t.workDir)
    (hentry : u.entry? (p.place t.workDir) = t.entry? (p.place t.workDir))
    (hexists : t.exists? p = true) : ∃ e, t.find p = .ok (p.place t.workDir, e) ∧
      u.find p = .ok (p.place t.workDir, e) := by
  have hp' := hp.of_work hwork
  obtain ⟨husable, e, he⟩ := (exists?_eq_true ht.wf ht.free hp.near hp.file).1 hexists
  refine ⟨e, (find_eq_ok ht.wf ht.free hp.near hp.file).2 ⟨husable, rfl, he⟩, ?_⟩
  exact (find_eq_ok hu.wf hu.free hp'.near hp'.file).2 ⟨husable, by rw [hwork], hentry.trans he⟩

end FileTree

open FileTree

theorem Effect.replace_confined {t t' : FileTree} {top : Location} {p : Path}
    {content : ByteArray} {r : Except FileError Unit} (ht : t.Tidy top)
    (hp : Below t.workDir top p) (h : (Effect.replace p content).perform t = (r, t')) :
    Confined (p.place t.workDir) t t' ∧
      (r ≠ .ok () → Paved (p.place t.workDir).dropLast t t') :=
  FileTree.replace_confined ht hp (Prod.ext (congrArg Prod.snd h) (congrArg Prod.fst h))

end Rollout
