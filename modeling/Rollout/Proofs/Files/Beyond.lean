import Rollout.Project.Files
import Rollout.Proofs.Files.Update

/-!
Paths out of reach of what happens below a directory. A path beside it that goes through no link
is one.
-/

namespace Rollout.FileTree

open Outcome

variable {t t' : FileTree} {top l : Location} {p : Path}

/-- A path that leads where it leads whatever happens below `top`. -/
def Beyond (t : FileTree) (top : Location) (p : Path) : Prop :=
  ∀ t', t'.Tidy top → Touched top (top <+: ·) t t' → t'.find p = t.find p

theorem Beyond.of_touched (h : t.Beyond top p) (ht' : t'.Tidy top)
    (htouched : Touched top (top <+: ·) t t') : t'.Beyond top p := by
  intro t'' ht'' htouched'
  rw [h t'' ht'' (htouched.trans htouched'), h t' ht' htouched]

theorem Beyond.read_eq (h : t.Beyond top p) (ht' : t'.Tidy top)
    (htouched : Touched top (top <+: ·) t t') : t'.read p = t.read p := by
  simp only [read, h t' ht' htouched]

theorem Beyond.readRequired_eq (h : t.Beyond top p) (ht' : t'.Tidy top)
    (htouched : Touched top (top <+: ·) t t') (missing : Failure) :
    ProjectFiles.readRequired t' p missing = ProjectFiles.readRequired t p missing := by
  have hread : t'.readText p = t.readText p := by
    simp only [readText, h.read_eq ht' htouched]
  have hexists : t'.exists? p = t.exists? p := by
    simp only [exists?, h t' ht' htouched]
  rw [ProjectFiles.readRequired, hread, hexists, ProjectFiles.readRequired]

/-- The same names are followed the same way if the same stands on it, and no link. -/
theorem walk_congr {last : Bool} {here names : List String}
    {onLink onLink' : Location → String → List String → Except FileError Location}
    (hplain : ".." ∉ names)
    (hsame : ∀ start, start <+: names → t'.entry? (here ++ start) = t.entry? (here ++ start))
    (hlinks : ∀ start target, start <+: names → t.entry? (here ++ start) ≠ some (.link target)) :
    t'.walk last onLink' here names = t.walk last onLink here names := by
  induction names generalizing here with
  | nil => rw [walk, walk]
  | cons name rest ih =>
    rw [List.mem_cons, not_or] at hplain
    have hhere := hsame [] List.nil_prefix
    have hthere := hsame [name] (by simp)
    have hlink := hlinks [name]
    have hrest := @ih (here ++ [name]) hplain.2
      (fun start hs => by
        simpa using hsame (name :: start) (List.cons_prefix_cons.2 ⟨rfl, hs⟩))
      (fun start target hs => by
        simpa using hlinks (name :: start) target (List.cons_prefix_cons.2 ⟨rfl, hs⟩))
    rw [List.append_nil] at hhere
    conv => lhs; rw [walk]
    conv => rhs; rw [walk]
    rw [hhere]
    cases hentry : t.entry? here with
    | none => rfl
    | some e =>
      cases e with
      | file content => rfl
      | link target => rfl
      | dir =>
        simp only [if_neg (Ne.symm hplain.1)]
        rw [hthere]
        cases hnext : t.entry? (here ++ [name]) with
        | none => rfl
        | some e =>
          cases e with
          | file content => simp only [hrest]
          | link target => exact absurd hnext (hlink target (by simp))
          | dir => simp only [hrest]

theorem follow_congr {last : Bool} {links : Nat} {here names : List String}
    (hplain : ".." ∉ names)
    (hsame : ∀ start, start <+: names → t'.entry? (here ++ start) = t.entry? (here ++ start))
    (hlinks : ∀ start target, start <+: names → t.entry? (here ++ start) ≠ some (.link target)) :
    t'.follow last links here names = t.follow last links here names := by
  obtain ⟨onLink, hwalk⟩ := exists_walk t last links
  obtain ⟨onLink', hwalk'⟩ := exists_walk t' last links
  rw [hwalk, hwalk']
  exact walk_congr hplain hsame hlinks

/-- A path leads to the same location if the same stands on the way there, and no link. -/
theorem locate_congr {last : Bool} (hplain : p.Plain) (hwork : t'.workDir = t.workDir)
    (hsame : ∀ l, l <+: p.place t.workDir → t'.entry? l = t.entry? l)
    (hlinks : ∀ l target, l <+: p.place t.workDir → t.entry? l ≠ some (.link target)) :
    t'.locate p last = t.locate p last := by
  have hway {start : List String} (hs : start <+: p.names) :
      (if p.isAbsolute then [] else t.workDir) ++ start <+: p.place t.workDir :=
    (List.prefix_append_right_inj _).2 hs
  have hfollow (last : Bool) :
      t'.follow last linkLimit (if p.isAbsolute then [] else t.workDir) p.names =
        t.follow last linkLimit (if p.isAbsolute then [] else t.workDir) p.names :=
    follow_congr hplain (fun start hs => hsame _ (hway hs))
      fun start target hs => hlinks _ target (hway hs)
  simp only [locate, throw_bind, hwork, hfollow]
  congr 3
  refine bind_congr_ok fun l hl => ?_
  obtain ⟨hplace, -⟩ := follow_ok hplain (fun start target hs => hlinks _ target (hway hs)) hl
  rw [show l = p.place t.workDir from hplace, hsame _ List.prefix_rfl]

/-- Then the same is found there. -/
theorem find_congr (hplain : p.Plain) (hwork : t'.workDir = t.workDir)
    (hsame : ∀ l, l <+: p.place t.workDir → t'.entry? l = t.entry? l)
    (hlinks : ∀ l target, l <+: p.place t.workDir → t.entry? l ≠ some (.link target)) :
    t'.find p = t.find p := by
  rw [find, find, locate_congr hplain hwork hsame hlinks]
  refine bind_congr_ok fun l hl => ?_
  obtain ⟨hplace, -⟩ := follow_ok hplain
    (fun start target hs => hlinks _ target ((List.prefix_append_right_inj _).2 hs))
    (locate_eq_ok.1 hl).2.2.2.1
  rw [show l = p.place t.workDir from hplace, hsame _ List.prefix_rfl]

/-- A path beside `top` that goes through no link is out of reach. -/
theorem Beyond.of_beside (hplain : p.Plain)
    (hlinks : ∀ l target, l <+: p.place t.workDir → t.entry? l ≠ some (.link target))
    (hout : ¬top <+: p.place t.workDir) : t.Beyond top p := by
  intro t' ht' htouched
  refine find_congr hplain htouched.work (fun l hl => ?_) hlinks
  have hl' : ¬top <+: l := fun h => hout (h.trans hl)
  rcases htouched.same l hl' with h | ⟨-, -, h⟩
  · exact h
  · exact absurd h hl'

end Rollout.FileTree
