import Rollout.Proofs.Files.Tree

/-!
What the effects of an operation leave of a tree. Below a directory that no link leads into or
out of, putting a file in place and taking one away change the file they are about, and beside
that only make directories where there was nothing; the tree stays well formed.
-/

namespace Rollout

namespace FileTree

open Outcome

variable {t t' t'' : FileTree} {top l : Location} {S S' : Location → Prop} {p q : Path}
  {content : ByteArray}

/-- A tree in which no link leads into or out of `top`, and `top` can be made. -/
structure Tidy (top : Location) (t : FileTree) : Prop where
  wf : t.WellFormed
  free : t.LinkFree top
  base : t.entry? top.dropLast = some .dir

/-- Nothing changed but at the locations of `S`, and by new directories below `top`. -/
structure Touched (top : Location) (S : Location → Prop) (t t' : FileTree) : Prop where
  work : t'.workDir = t.workDir
  same : ∀ l, ¬S l →
    t'.entry? l = t.entry? l ∨ (t.entry? l = none ∧ t'.entry? l = some .dir ∧ top <+: l)

namespace Touched

theorem refl (top : Location) (S : Location → Prop) (t : FileTree) : Touched top S t t :=
  ⟨rfl, fun _ _ => .inl rfl⟩

theorem mono (h : Touched top S t t') (hS : ∀ l, S l → S' l) : Touched top S' t t' :=
  ⟨h.work, fun l hl => h.same l fun hs => hl (hS l hs)⟩

theorem trans (h : Touched top S t t') (h' : Touched top S t' t'') : Touched top S t t'' := by
  refine ⟨h'.work.trans h.work, fun l hl => ?_⟩
  rcases h.same l hl with hsame | ⟨hnone, hdir, htop⟩ <;>
    rcases h'.same l hl with hsame' | ⟨hnone', hdir', htop'⟩
  · exact .inl (hsame'.trans hsame)
  · exact .inr ⟨hsame.symm.trans hnone', hdir', htop'⟩
  · exact .inr ⟨hnone, hsame'.trans hdir, htop⟩
  · rw [hnone'] at hdir
    cases hdir

/-- Files elsewhere stay, and no new ones appear. -/
theorem file_iff (h : Touched top S t t') (hl : ¬S l) :
    t'.entry? l = some (.file content) ↔ t.entry? l = some (.file content) := by
  rcases h.same l hl with hsame | ⟨hnone, hdir, -⟩
  · rw [hsame]
  · simp [hnone, hdir]

end Touched

/-! ## Making directories -/

theorem Near.parent (hp : Near t.workDir top p) (h : p.parent = some q) :
    Near t.workDir top q := by
  obtain ⟨hnames, habs⟩ := Path.parent_spec h
  have hstart : q.place t.workDir <+: p.place t.workDir := by
    rw [Path.place, Path.place, hnames, habs]
    exact (List.prefix_append_right_inj _).2 (List.dropLast_prefix _)
  refine ⟨?_, ?_⟩
  · rw [Path.Plain, hnames]
    exact fun hmem => hp.plain (List.dropLast_subset _ hmem)
  · rcases hp.comparable with hc | hc
    · exact .inl (hstart.trans hc)
    · exact (List.prefix_or_prefix_of_prefix hc hstart).symm

/-- A new entry in a directory, other than a link, is no harm. -/
theorem Tidy.put {e : Entry} (h : t.Tidy top) (hl : l ≠ [])
    (habove : t.entry? l.dropLast = some .dir) (hold : t.entry? l ≠ some .dir)
    (hnew : ∀ target, e ≠ .link target) : (t.put l e).Tidy top := by
  have hdir {l' : Location} (hl' : t.entry? l' = some .dir) :
      entry? (t.put l e) l' = some .dir := by
    rw [ entry?_put hl, if_neg, hl']
    rintro rfl
    exact hold hl'
  refine ⟨⟨fun l' e' he' => ?_, hdir h.wf.work⟩, fun l' target hl' he' => ?_, hdir h.base⟩
  · rw [ entry?_put hl] at he'
    split at he'
    · rename_i heq
      subst heq
      exact hdir habove
    · exact hdir (h.wf.above l' e' he')
  · rw [ entry?_put hl] at he'
    split at he'
    · cases he'
      exact hnew target rfl
    · exact h.free l' target hl' he'

/-- Whatever is not a directory can go. -/
theorem Tidy.drop (h : t.Tidy top) (hl : l ≠ []) (hold : t.entry? l ≠ some .dir) :
    (t.drop l).Tidy top := by
  have hdir {l' : Location} (hl' : t.entry? l' = some .dir) :
      entry? (t.drop l) l' = some .dir := by
    rw [ entry?_drop hl, if_neg, hl']
    rintro rfl
    exact hold hl'
  refine ⟨⟨fun l' e' he' => ?_, hdir h.wf.work⟩, fun l' target hl' he' => ?_, hdir h.base⟩
  · rw [ entry?_drop hl] at he'
    split at he'
    · cases he'
    · exact hdir (h.wf.above l' e' he')
  · rw [ entry?_drop hl] at he'
    split at he'
    · cases he'
    · exact h.free l' target hl' he'

theorem makeDir_ok (ht : t.Tidy top) (hp : Near t.workDir top p) (h : t.makeDir p = .ok t') :
    t'.Tidy top ∧ Touched top (fun _ => False) t t' := by
  simp only [makeDir, bind_eq_ok] at h
  obtain ⟨l, hl, h⟩ := h
  have habove := entry?_above_of_locate ht.wf ht.free hp hl
  obtain ⟨rfl, -⟩ := locate_ok ht.free hp hl
  split at h
  · cases h
  rename_i hnone
  cases h
  have hne : p.place t.workDir ≠ [] := by
    intro hnil
    simp [hnil] at hnone
  have htop : top <+: p.place t.workDir := by
    rcases hp.comparable with hc | hc
    · -- above `top` there are directories already
      by_cases heq : p.place t.workDir = top
      · exact heq ▸ List.prefix_rfl
      · obtain ⟨rest, rfl⟩ := hc
        have hrest : rest ≠ [] := by
          rintro rfl
          simp at heq
        have hbase := ht.base
        rw [List.dropLast_append_of_ne_nil hrest] at hbase
        by_cases hrest' : rest.dropLast = []
        · rw [hrest', List.append_nil, hnone] at hbase
          cases hbase
        · have := ht.wf.entry?_of_prefix hbase (List.prefix_append _ _) (by simpa using hrest')
          rw [hnone] at this
          cases this
    · exact hc
  refine ⟨ht.put hne habove (by simp [hnone]) (by simp), ⟨rfl, fun l' _ => ?_⟩⟩
  rw [ entry?_put hne]
  split
  · rename_i heq
    exact .inr ⟨heq ▸ hnone, rfl, heq ▸ htop⟩
  · exact .inl rfl

/-- Making directories, however far it comes, makes nothing else. -/
theorem makeDirsFrom_spec (fuel : Nat) (ht : t.Tidy top) (hp : Near t.workDir top p)
    {r : Except FileError Unit} (h : t.makeDirsFrom fuel p = (t', r)) :
    t'.Tidy top ∧ Touched top (fun _ => False) t t' := by
  induction fuel generalizing p t' r with
  | zero =>
    cases h
    exact ⟨ht, .refl ..⟩
  | succ fuel ih =>
    rw [makeDirsFrom] at h
    split at h
    · cases h
      exact ⟨ht, .refl ..⟩
    split at h
    · rename_i made hmade
      cases h
      exact makeDir_ok ht hp hmade
    · split at h
      · cases h
        exact ⟨ht, .refl ..⟩
      · rename_i above habove
        have habove' := hp.parent habove
        split at h
        · rename_i made e hmade
          cases h
          exact ih habove' hmade
        · rename_i made hmade
          obtain ⟨htidy, htouched⟩ := ih habove' hmade
          have hp' : Near made.workDir top p := htouched.work ▸ hp
          split at h
          · rename_i all hall
            cases h
            obtain ⟨htidy', htouched'⟩ := makeDir_ok htidy hp' hall
            exact ⟨htidy', htouched.trans htouched'⟩
          · cases h
            exact ⟨htidy, htouched⟩
    · cases h
      exact ⟨ht, .refl ..⟩

theorem makeDirs_spec (ht : t.Tidy top) (hp : Near t.workDir top p)
    {r : Except FileError Unit} (h : t.makeDirs p = (t', r)) :
    t'.Tidy top ∧ Touched top (fun _ => False) t t' :=
  makeDirsFrom_spec _ ht hp h

/-! ## Files -/

/-- A path that leads to `top` or below it. -/
structure Within (work top : Location) (p : Path) : Prop where
  plain : p.Plain
  below : top <+: p.place work

/-- A path within `top` that names a file. -/
structure Below (work top : Location) (p : Path) : Prop extends Within work top p where
  names : p.names ≠ []
  file : p.namesDirectory = false

theorem Within.joinText {work : Location} {base : Path} {text : String}
    (h : Within work top base) (hnoRoot : (Path.ofString text).isAbsolute = false)
    (hplain : (Path.ofString text).Plain) : Within work top (base.joinText text) := by
  refine ⟨?_, ?_⟩
  · rw [Path.Plain, Path.joinText, Path.names_join hnoRoot, List.mem_append, not_or]
    exact ⟨h.plain, hplain⟩
  · rw [Path.place_joinText work base hnoRoot]
    exact h.below.trans (List.prefix_append _ _)

theorem Within.entry {work : Location} {base : Path} {text : String}
    (h : Within work top base) (ht : Path.IsEntry text) : Below work top (base.joinText text) where
  toWithin := h.joinText ht.isAbsolute_ofString (by
    rw [Path.Plain, ht.names_ofString, List.mem_singleton]
    exact Ne.symm ht.noStepBack)
  names := by simp [Path.joinText, Path.names_join ht.isAbsolute_ofString, ht.names_ofString]
  file := Path.namesDirectory_joinText base ht

theorem Below.near {work : Location} (h : Below work top p) : Near work top p :=
  ⟨h.plain, .inr h.below⟩

theorem Below.place_ne_nil {work : Location} (h : Below work top p) : p.place work ≠ [] := by
  simp [Path.place, h.names]

/-- Where nothing stands there is no file. -/
theorem not_exists_of_absent (ht : t.Tidy top) (hp : Below t.workDir top p)
    (h : t.entry? (p.place t.workDir) = none) : t.exists? p = false := by
  rw [← Bool.not_eq_true, exists?_eq_true ht.wf ht.free hp.near hp.file, h]
  rintro ⟨-, e, he⟩
  cases he

theorem readText_eq_ok (ht : t.Tidy top) (hp : Below t.workDir top p) {text : String} :
    t.readText p = .ok text ↔ Usable p ∧ ∃ content,
      t.entry? (p.place t.workDir) = some (.file content) ∧
        String.fromUTF8? content = some text := by
  simp only [readText, bind_eq_ok, read_eq_ok ht.wf ht.free hp.near hp.file]
  constructor
  · rintro ⟨content, ⟨hu, hentry⟩, h⟩
    split at h
    · rename_i text' htext
      cases h
      exact ⟨hu, content, hentry, htext⟩
    · cases h
  · rintro ⟨hu, content, hentry, htext⟩
    refine ⟨content, ⟨hu, hentry⟩, ?_⟩
    rw [htext]
    rfl

theorem Below.of_work {work work' : Location} (h : Below work top p) (hw : work' = work) :
    Below work' top p := hw ▸ h

/-- What is read elsewhere is what was read before. -/
theorem Touched.read_iff (h : Touched top S t t') (ht : t.Tidy top) (ht' : t'.Tidy top)
    (hp : Below t.workDir top p) (hl : ¬S (p.place t.workDir)) :
    t'.read p = .ok content ↔ t.read p = .ok content := by
  have hp' := hp.of_work h.work
  rw [read_eq_ok ht'.wf ht'.free hp'.near hp'.file, read_eq_ok ht.wf ht.free hp.near hp.file,
    h.work, h.file_iff hl]

theorem Below.directoryOf (hp : Below t.workDir top p) : Near t.workDir top (directoryOf p) := by
  obtain ⟨q, hq⟩ := Path.exists_parent hp.names
  have hnear := hp.near.parent hq
  rw [FileTree.directoryOf, hq]
  dsimp only
  split
  · rename_i hempty
    have hdot : (Path.ofString ".").place t.workDir = q.place t.workDir := by
      rw [Path.place_of_isEmpty hempty]
      exact List.append_nil _
    exact ⟨nofun, hdot ▸ hnear.comparable⟩
  · exact hnear

theorem moveInto_ok (ht : t.Tidy top) (hp : Below t.workDir top p)
    (h : t.moveInto p content = .ok t') :
    t'.Tidy top ∧ Touched top (· = p.place t.workDir) t t' ∧ Usable p ∧
      t'.entry? (p.place t.workDir) = some (.file content) := by
  simp only [moveInto, bind_eq_ok, throw_bind, guard_eq_ok] at h
  obtain ⟨l, hl, -, -, h⟩ := h
  have habove := entry?_above_of_locate ht.wf ht.free hp.near hl
  obtain ⟨rfl, hu⟩ := locate_ok ht.free hp.near hl
  have hne := hp.place_ne_nil
  split at h
  · cases h
  rename_i hold
  cases h
  have hdrop := ht.drop hne hold
  refine ⟨hdrop.put hne ?_ ?_ (by simp), ⟨rfl, fun l hl => .inl ?_⟩, hu, ?_⟩
  · rw [ entry?_drop hne, if_neg, habove]
    intro heq
    exact hold (heq ▸ habove)
  · simp [ entry?_drop hne]
  · rw [ entry?_put hne, if_neg (Ne.symm hl), entry?_drop hne, if_neg (Ne.symm hl)]
  · rw [ entry?_put hne, if_pos rfl]

/-- A file is put in place, or nothing but new directories is left. -/
theorem replace_spec (ht : t.Tidy top) (hp : Below t.workDir top p) {r : Except FileError Unit}
    (h : t.replace p content = (t', r)) :
    t'.Tidy top ∧ Touched top (· = p.place t.workDir) t t' ∧
      (r = .ok () → Usable p ∧ t'.entry? (p.place t.workDir) = some (.file content)) ∧
      (r ≠ .ok () → Touched top (fun _ => False) t t') := by
  rw [replace] at h
  split at h
  · rename_i made e hmade
    cases h
    obtain ⟨htidy, htouched⟩ := makeDirs_spec ht hp.directoryOf hmade
    exact ⟨htidy, htouched.mono (by simp), by simp, fun _ => htouched⟩
  · rename_i made hmade
    obtain ⟨htidy, htouched⟩ := makeDirs_spec ht hp.directoryOf hmade
    have hp' : Below made.workDir top p := htouched.work ▸ hp
    split at h
    · rename_i all hall
      cases h
      obtain ⟨htidy', htouched', hu, hentry⟩ := moveInto_ok htidy hp' hall
      rw [htouched.work] at htouched' hentry
      exact ⟨htidy', (htouched.mono (by simp)).trans htouched', fun _ => ⟨hu, hentry⟩, by simp⟩
    · cases h
      exact ⟨htidy, htouched.mono (by simp), by simp, fun _ => htouched⟩

theorem remove_ok (ht : t.Tidy top) (hp : Below t.workDir top p) (h : t.remove p = .ok t') :
    t'.Tidy top ∧ Touched top (· = p.place t.workDir) t t' ∧
      t'.entry? (p.place t.workDir) = none := by
  simp only [remove, bind_eq_ok] at h
  obtain ⟨l, hl, h⟩ := h
  obtain ⟨rfl, hu⟩ := locate_ok ht.free hp.near hl
  have hne := hp.place_ne_nil
  split at h
  · cases h
  · cases h
  · rename_i old hdir hold
    cases h
    refine ⟨ht.drop hne (by simpa [hold] using hdir), ⟨rfl, fun l hl => .inl ?_⟩, ?_⟩
    · rw [ entry?_drop hne, if_neg (Ne.symm hl)]
    · rw [ entry?_drop hne, if_pos rfl]

end FileTree

/-! ## Effects -/

open FileTree

variable {t t' : FileTree} {top : Location} {p : Path} {content : ByteArray}
  {r : Except FileError Unit}

theorem Effect.makeDirs_spec (ht : t.Tidy top) (hp : Near t.workDir top p)
    (h : (Effect.makeDirs p).perform t = (r, t')) :
    t'.Tidy top ∧ Touched top (fun _ => False) t t' :=
  FileTree.makeDirs_spec ht hp (Prod.ext (congrArg Prod.snd h) (congrArg Prod.fst h))

theorem Effect.replace_spec (ht : t.Tidy top) (hp : Below t.workDir top p)
    (h : (Effect.replace p content).perform t = (r, t')) :
    t'.Tidy top ∧ Touched top (· = p.place t.workDir) t t' ∧
      (r = .ok () → Usable p ∧ t'.entry? (p.place t.workDir) = some (.file content)) ∧
      (r ≠ .ok () → Touched top (fun _ => False) t t') :=
  FileTree.replace_spec ht hp (Prod.ext (congrArg Prod.snd h) (congrArg Prod.fst h))

theorem Effect.discard_spec (ht : t.Tidy top) (hp : Below t.workDir top p)
    (h : (Effect.discard p).perform t = (r, t')) :
    t'.Tidy top ∧ Touched top (· = p.place t.workDir) t t' := by
  simp only [perform, Disk.step] at h
  split at h
  · rename_i hstep
    cases h
    split at hstep
    · obtain ⟨htidy, htouched, -⟩ := remove_ok ht hp hstep
      exact ⟨htidy, htouched⟩
    · cases hstep
      exact ⟨ht, .refl ..⟩
  · cases h
    exact ⟨ht, .refl ..⟩

end Rollout
