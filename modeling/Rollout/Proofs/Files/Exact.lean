import Rollout.Proofs.Files.Update

/-!
What effects do where nothing is in their way. On a tidy tree an effect that can be carried out
succeeds, and then every location is accounted for: a file put in place or taken away changes its
own location alone, making a directory changes the way to it, and removing a directory changes
what lies below it.
-/

namespace Rollout

namespace FileTree

open Outcome

variable {t t' t'' : FileTree} {top l l' : Location} {p q : Path} {content : ByteArray}

/-- Only one location has changed, to hold what is given. -/
structure Sets (l : Location) (e : Option Entry) (t t' : FileTree) : Prop where
  work : t'.workDir = t.workDir
  entry : ∀ l', t'.entry? l' = if l' = l then e else t.entry? l'

/-- There are directories down to a location, and nothing else has changed. -/
structure Opens (l : Location) (t t' : FileTree) : Prop where
  work : t'.workDir = t.workDir
  entry : ∀ l', t'.entry? l' = if l' <+: l then some .dir else t.entry? l'

/-- Nothing is left at a location and below it, and nothing else has changed. -/
structure Cuts (l : Location) (t t' : FileTree) : Prop where
  work : t'.workDir = t.workDir
  entry : ∀ l', t'.entry? l' = if l <+: l' then none else t.entry? l'

/-- Directories can be made down to a location: what stands on the way to it is a directory. -/
def Clear (t : FileTree) (l : Location) : Prop :=
  ∀ l', l' <+: l → t.entry? l' = none ∨ t.entry? l' = some .dir

theorem prefix_iff_dropLast (h : l ≠ []) : l' <+: l ↔ l' = l ∨ l' <+: l.dropLast := by
  obtain ⟨start, last, rfl⟩ := (List.eq_nil_or_concat l).resolve_left h
  rw [List.concat_eq_append, List.prefix_concat_iff, List.dropLast_concat]

theorem WellFormed.dir_of_prefix (h : t.WellFormed) (hl : t.entry? l = some .dir)
    (hl' : l' <+: l) : t.entry? l' = some .dir := by
  by_cases heq : l' = l
  · rw [heq, hl]
  · exact h.entry?_of_prefix hl hl' heq

theorem WellFormed.clear (h : t.WellFormed) (hl : t.entry? l = some .dir) : t.Clear l :=
  fun _ hl' => .inr (h.dir_of_prefix hl hl')

theorem WellFormed.opens (h : t.WellFormed) (hl : t.entry? l = some .dir) : Opens l t t := by
  refine ⟨rfl, fun l' => ?_⟩
  split
  · rename_i hl'
    exact h.dir_of_prefix hl hl'
  · rfl

/-- Where nothing stands, nothing stands below. -/
theorem WellFormed.none_of_prefix (h : t.WellFormed) (hl : t.entry? l = none) (hl' : l <+: l') :
    t.entry? l' = none := by
  cases he : t.entry? l' with
  | none => rfl
  | some e =>
    by_cases heq : l = l'
    · rw [heq, he] at hl
      cases hl
    · rw [h.entry?_of_prefix he hl' heq] at hl
      cases hl

/-! ## Paths -/

/-- A path whose directory stands leads to its place, unless that is a file where the path names
a directory. -/
theorem locate_of_dir {last : Bool} (hw : t.WellFormed) (hfree : t.LinkFree top)
    (hp : Near t.workDir top p) (hu : Usable p)
    (hfile : ∀ content, t.entry? (p.place t.workDir) ≠ some (.file content))
    (habove : t.entry? (p.place t.workDir).dropLast = some .dir) :
    t.locate p last = .ok (p.place t.workDir) := by
  refine locate_eq_ok.2 ⟨hu.notEmpty, hu.noNul, hu.short, ?_, fun _ => hfile⟩
  refine follow_of_dirs hp.plain hu.shortNames (fun start hs hne => ?_)
    (fun target => hp.links hfree List.prefix_rfl target)
  -- a shorter start of the names ends at or above the directory of the last one
  refine hw.dir_of_prefix habove ?_
  obtain ⟨rest, hrest⟩ := hs
  have hrest' : rest ≠ [] := by
    rintro rfl
    exact hne (by simpa using hrest)
  rw [Path.place, ← hrest, ← List.append_assoc, List.dropLast_append_of_ne_nil hrest']
  exact List.prefix_append _ _

/-- Names that lead through directories as far as there is anything end in vain if something is
missing before the last. -/
theorem walk_of_missing {onLink : Location → String → List String → Except FileError Location}
    {last : Bool} {here names : List String} (hplain : ".." ∉ names)
    (hshort : ∀ name ∈ names, name.utf8ByteSize < nameLimit)
    (hclear : ∀ start, start <+: names → t.entry? (here ++ start) = none ∨
      t.entry? (here ++ start) = some .dir)
    (hmissing : ∃ start, start <+: names ∧ start ≠ names ∧ t.entry? (here ++ start) = none) :
    t.walk last onLink here names = .error .notFound := by
  induction names generalizing here with
  | nil =>
    obtain ⟨start, hs, hne, -⟩ := hmissing
    exact absurd (List.prefix_nil.1 hs) hne
  | cons name rest ih =>
    simp only [List.mem_cons, not_or] at hplain
    have hname := hshort name List.mem_cons_self
    rw [walk]
    rcases hclear [] List.nil_prefix with hhere | hhere
    · rw [List.append_nil] at hhere
      rw [hhere]
    rw [List.append_nil] at hhere
    rw [hhere]
    simp only [if_neg (Ne.symm hplain.1), if_neg (Nat.not_le.2 hname)]
    have hmissing' : rest ≠ [] := by
      rintro rfl
      obtain ⟨start, hs, hne, hnone⟩ := hmissing
      have : start = [] := by
        rcases List.prefix_cons_iff.1 hs with hnil | ⟨start', rfl, hs'⟩
        · exact hnil
        · exact absurd (by rw [List.prefix_nil.1 hs']) hne
      rw [this, List.append_nil, hhere] at hnone
      cases hnone
    rcases hclear [name] (by simp) with hthere | hthere
    · rw [hthere]
      simp [hmissing']
    · rw [hthere]
      refine ih hplain.2 (fun n hn => hshort n (List.mem_cons_of_mem _ hn)) (fun start hs => ?_) ?_
      · simpa using hclear (name :: start) (List.cons_prefix_cons.2 ⟨rfl, hs⟩)
      · obtain ⟨start, hs, hne, hnone⟩ := hmissing
        rcases List.prefix_cons_iff.1 hs with rfl | ⟨start', rfl, hs'⟩
        · rw [List.append_nil, hhere] at hnone
          cases hnone
        · exact ⟨start', hs', fun heq => hne (heq ▸ rfl), by simpa using hnone⟩

/-- A path whose directory is missing leads nowhere. -/
theorem locate_of_missing {last : Bool} (hp : Near t.workDir top p) (hu : Usable p)
    (hnames : p.names ≠ []) (hclear : t.Clear (p.place t.workDir))
    (habove : t.entry? (p.place t.workDir).dropLast = none) :
    t.locate p last = .error .notFound := by
  obtain ⟨onLink, hwalk⟩ := exists_walk t (last || p.namesDirectory) linkLimit
  have hnotFound : t.follow (last || p.namesDirectory) linkLimit
      (if p.isAbsolute then [] else t.workDir) p.names = .error .notFound := by
    rw [hwalk]
    refine walk_of_missing hp.plain hu.shortNames (fun start hs => hclear _ ?_)
      ⟨p.names.dropLast, List.dropLast_prefix _, ?_, ?_⟩
    · exact (List.prefix_append_right_inj _).2 hs
    · intro heq
      have := congrArg List.length heq
      rw [List.length_dropLast] at this
      have := List.length_pos_iff.2 hnames
      omega
    · rw [← List.dropLast_append_of_ne_nil hnames]
      exact habove
  simp only [locate, hu.notEmpty, hu.noNul, Nat.not_le.2 hu.short]
  rw [if_neg (by simp), if_neg (by simp), if_neg (by simp), hnotFound]
  rfl

/-- The text of a path starts with the text of its first parts. -/
theorem exists_join_append (start rest : List String) :
    ∃ tail, Text.join "/" (start ++ rest) = Text.join "/" start ++ tail := by
  induction rest using List.reverseRecOn with
  | nil => exact ⟨"", by simp⟩
  | append_singleton rest part ih =>
    obtain ⟨tail, htail⟩ := ih
    rw [← List.append_assoc]
    by_cases hnil : start ++ rest = []
    · obtain ⟨rfl, rfl⟩ := List.append_eq_nil_iff.1 hnil
      exact ⟨part, by simp [Text.join]⟩
    · rw [Path.join_concat hnil, htail]
      exact ⟨tail ++ "/" ++ part, by simp only [String.append_assoc]⟩

theorem prefix_of_trimParts (parts : List String) : Path.trimParts parts <+: parts := by
  induction parts using List.reverseRecOn with
  | nil => exact List.prefix_rfl
  | append_singleton parts part ih =>
    rw [Path.trimParts_concat]
    split
    · exact ih.trans (List.prefix_append _ _)
    · exact List.prefix_rfl

/-- The parts of a parent are the first parts of a path, but for a root or a dot alone. -/
theorem parts_parent (hq : p.parent = some q) :
    q.parts <+: p.parts ∨ q.parts = [""] ∨ q.parts = ["", ""] ∨ q.parts = ["."] := by
  unfold Path.parent at hq
  split at hq
  · split at hq
    · cases hq
      exact .inr (.inl rfl)
    · cases hq
  · rename_i htrim
    dsimp only at hq
    split at hq
    · cases hq
      exact .inr (.inr (.inl rfl))
    split at hq
    · cases hq
      split
      · exact .inr (.inr (.inr rfl))
      · exact .inr (.inl rfl)
    · cases hq
      exact .inl ((prefix_of_trimParts _).trans
        ((List.dropLast_prefix _).trans (prefix_of_trimParts _)))

/-- Whoever can be followed can be followed to the directory above. -/
theorem Usable.parent (h : Usable p) (hq : p.parent = some q) (hempty : q.isEmpty = false) :
    Usable q := by
  have hnames : ∀ name ∈ q.names, name.utf8ByteSize < nameLimit := by
    rw [(Path.parent_spec hq).1]
    exact fun name hname => h.shortNames name (List.dropLast_subset _ hname)
  have htext : (q.text.toList.any fun c => c.toNat = 0) = false ∧
      q.text.utf8ByteSize < pathLimit := by
    rcases parts_parent hq with hparts | hparts | hparts | hparts
    · obtain ⟨rest, hrest⟩ := hparts
      obtain ⟨tail, htail⟩ := exists_join_append q.parts rest
      have hwhole : p.text = q.text ++ tail := by rw [Path.text, ← hrest, htail, Path.text]
      have hnul := h.noNul
      have hshort := h.short
      rw [hwhole] at hnul hshort
      simp only [String.toList_append, List.any_append, Bool.or_eq_false_iff] at hnul
      rw [String.utf8ByteSize_append] at hshort
      exact ⟨hnul.1, by omega⟩
    all_goals
      rw [Path.text, hparts]
      decide
  exact ⟨hempty, htext.1, htext.2, hnames⟩

/-! ## Making directories -/

theorem isDir_of_dir (ht : t.Tidy top) (hp : Near t.workDir top p) (hu : Usable p)
    (hdir : t.entry? (p.place t.workDir) = some .dir) : t.isDir p = true := by
  have hl : t.locate p true = .ok (p.place t.workDir) :=
    locate_of_dir ht.wf ht.free hp hu (by simp [hdir]) (ht.wf.above _ _ hdir)
  simp only [isDir, find, hl, ok_bind, hdir]
  rfl

/-- A directory is made in a directory. -/
theorem makeDir_exact (ht : t.Tidy top) (hp : Near t.workDir top p) (hu : Usable p)
    (hnone : t.entry? (p.place t.workDir) = none)
    (habove : t.entry? (p.place t.workDir).dropLast = some .dir) :
    ∃ t', t.makeDir p = .ok t' ∧ Opens (p.place t.workDir) t t' := by
  have hl : t.locate p false = .ok (p.place t.workDir) :=
    locate_of_dir ht.wf ht.free hp hu (by simp [hnone]) habove
  have hne : p.place t.workDir ≠ [] := by
    intro hnil
    simp [hnil] at hnone
  refine ⟨t.put (p.place t.workDir) .dir, ?_, rfl, fun l' => ?_⟩
  · simp only [makeDir, hl, ok_bind, hnone]
    rfl
  · simp only [entry?_put hne, prefix_iff_dropLast hne]
    by_cases heq : l' = p.place t.workDir
    · simp [heq]
    · simp only [heq, Ne.symm heq, if_false, false_or]
      exact (ht.wf.opens habove).entry l'

/-- A directory that is there is not made again. -/
theorem makeDir_of_dir (ht : t.Tidy top) (hp : Near t.workDir top p) (hu : Usable p)
    (hdir : t.entry? (p.place t.workDir) = some .dir) : t.makeDir p = .error .alreadyExists := by
  have hl : t.locate p false = .ok (p.place t.workDir) :=
    locate_of_dir ht.wf ht.free hp hu (by simp [hdir]) (ht.wf.above _ _ hdir)
  simp only [makeDir, hl, ok_bind, hdir]
  rfl

/-- Where the way is clear, directories are made all the way, and nothing else. -/
theorem makeDirsFrom_exact (fuel : Nat) (ht : t.Tidy top) (hp : Near t.workDir top p)
    (hu : p.isEmpty = false → Usable p) (hclear : t.Clear (p.place t.workDir))
    (hfuel : p.names.length < fuel) :
    ∃ t', t.makeDirsFrom fuel p = (t', .ok ()) ∧ Opens (p.place t.workDir) t t' := by
  induction fuel generalizing p with
  | zero => omega
  | succ fuel ih =>
    rw [makeDirsFrom]
    cases hempty : p.isEmpty with
    | true =>
      rw [Path.place_of_isEmpty hempty]
      exact ⟨t, rfl, ht.wf.opens ht.wf.work⟩
    | false =>
      have hu := hu hempty
      rw [if_neg Bool.false_ne_true]
      rcases hclear _ (List.dropLast_prefix _) with habove | habove
      · -- the directory above is missing as well
        have hnames : p.names ≠ [] := by
          intro hnil
          have hbase : t.entry? (p.place t.workDir) = some .dir := by
            rw [Path.place, hnil, List.append_nil]
            split
            · rfl
            · exact ht.wf.work
          rw [ht.wf.above _ _ hbase] at habove
          cases habove
        have hmissing : t.makeDir p = .error .notFound := by
          rw [makeDir, locate_of_missing hp hu hnames hclear habove]
          rfl
        obtain ⟨q, hq⟩ := Path.exists_parent hnames
        have hplace := Path.place_parent hq hnames t.workDir
        obtain ⟨made, hmade, hopens⟩ := ih (hp.parent hq) (fun h => hu.parent hq h)
          (fun l' hl' => hclear l' ((hplace ▸ hl').trans (List.dropLast_prefix _)))
          (by
            rw [(Path.parent_spec hq).1, List.length_dropLast]
            have := List.length_pos_iff.2 hnames
            omega)
        have htidy := (makeDirsFrom_spec fuel ht (hp.parent hq) hmade).1
        have hne : p.place t.workDir ≠ [] := by
          intro hnil
          simp [hnil] at habove
        have hlast : ¬p.place t.workDir <+: (p.place t.workDir).dropLast := by
          intro hpre
          have := hpre.length_le
          have := List.length_pos_iff.2 hne
          rw [List.length_dropLast] at *
          omega
        rw [hplace] at hopens
        obtain ⟨all, hall, hopens'⟩ := makeDir_exact htidy (hopens.work ▸ hp) hu
          (by
            rw [hopens.work, hopens.entry, if_neg hlast]
            exact ht.wf.none_of_prefix habove (List.dropLast_prefix _))
          (by rw [hopens.work, hopens.entry, if_pos List.prefix_rfl])
        rw [hopens.work] at hopens'
        refine ⟨all, ?_, hopens'.work.trans hopens.work, fun l' => ?_⟩
        · rw [hmissing]
          simp only [hq, hmade, hall]
        · rw [hopens'.entry, hopens.entry]
          by_cases hl' : l' <+: p.place t.workDir
          · simp [hl']
          · rw [if_neg hl', if_neg hl',
              if_neg fun h => hl' (h.trans (List.dropLast_prefix _))]
      · rcases hclear _ List.prefix_rfl with hnone | hdir
        · obtain ⟨t', ht', hopens⟩ := makeDir_exact ht hp hu hnone habove
          refine ⟨t', ?_, hopens⟩
          rw [ht']
        · refine ⟨t, ?_, ht.wf.opens hdir⟩
          rw [makeDir_of_dir ht hp hu hdir]
          simp [isDir_of_dir ht hp hu hdir]

theorem makeDirs_exact (ht : t.Tidy top) (hp : Near t.workDir top p)
    (hu : p.isEmpty = false → Usable p) (hclear : t.Clear (p.place t.workDir)) :
    ∃ t', t.makeDirs p = (t', .ok ()) ∧ Opens (p.place t.workDir) t t' :=
  makeDirsFrom_exact _ ht hp hu hclear (Nat.lt_succ_of_le (List.length_filter_le ..))

/-! ## Files -/

theorem place_directoryOf (hp : Below t.workDir top p) :
    (directoryOf p).place t.workDir = (p.place t.workDir).dropLast := by
  obtain ⟨q, hq⟩ := Path.exists_parent hp.names
  rw [← Path.place_parent hq hp.names, directoryOf, hq]
  dsimp only
  split
  · rename_i hempty
    rw [Path.place_of_isEmpty hempty]
    exact List.append_nil _
  · rfl

theorem Usable.directoryOf (hu : Usable p) (hp : Below t.workDir top p) :
    Usable (directoryOf p) := by
  obtain ⟨q, hq⟩ := Path.exists_parent hp.names
  rw [FileTree.directoryOf, hq]
  dsimp only
  split
  · exact ⟨by decide, by decide, by decide, fun name hname => by cases hname⟩
  · rename_i hempty
    exact hu.parent hq (by simpa using hempty)

/-- A file is put in place in a directory, over another or where there was nothing. -/
theorem replace_exact (ht : t.Tidy top) (hp : Below t.workDir top p) (hu : Usable p)
    (habove : t.entry? (p.place t.workDir).dropLast = some .dir)
    (hold : t.entry? (p.place t.workDir) ≠ some .dir) (content : ByteArray) :
    ∃ t', t.replace p content = (t', .ok ()) ∧
      Sets (p.place t.workDir) (some (.file content)) t t' := by
  have hne := hp.place_ne_nil
  have hdirectory := place_directoryOf hp
  -- the directory stands, so that making it changes nothing
  obtain ⟨made, hmade, hopens⟩ := makeDirs_exact ht hp.directoryOf (fun _ => hu.directoryOf hp)
    (hdirectory ▸ ht.wf.clear habove)
  have hsame (l : Location) : made.entry? l = t.entry? l := by
    rw [hopens.entry, hdirectory]
    exact ((ht.wf.opens habove).entry l).symm
  have htidy := (makeDirs_spec ht hp.directoryOf hmade).1
  have hp' : Below made.workDir top p := hp.of_work hopens.work
  have hl : made.locate p false = .ok (p.place t.workDir) := by
    rw [← hopens.work]
    refine locate_of_above htidy.wf htidy.free hp'.near hu hp.file ?_
    rw [hopens.work, hsame, habove]
  have hlast : ¬(p.names.getLast? = some ".." ∨ p.parts.getLast? = some ".") := by
    rintro (hback | hdot)
    · exact hp.plain (List.mem_of_getLast? hback)
    · have := hp.file
      simp [Path.namesDirectory, hdot] at this
  refine ⟨(made.drop (p.place t.workDir)).put (p.place t.workDir) (.file content), ?_,
    hopens.work, fun l => ?_⟩
  · have hmove : made.moveInto p content =
        .ok ((made.drop (p.place t.workDir)).put (p.place t.workDir) (.file content)) := by
      simp only [moveInto, hl, ok_bind, Bool.or_eq_true, decide_eq_true_eq, if_neg hlast, hp.file,
        Bool.false_eq_true, if_false, hsame]
      rfl
    simp only [replace, hmade, hmove]
  · rw [entry?_put hne, entry?_drop hne, hsame]
    by_cases heq : l = p.place t.workDir
    · simp [heq]
    · simp [heq, Ne.symm heq]

/-- What is not a directory is removed if it is there. -/
theorem discard_exact (ht : t.Tidy top) (hp : Below t.workDir top p) (hu : Usable p)
    (hold : t.entry? (p.place t.workDir) ≠ some .dir) :
    ∃ t', (if t.exists? p then t.remove p else .ok t) = .ok t' ∧
      Sets (p.place t.workDir) none t t' := by
  have hne := hp.place_ne_nil
  have hexists := exists?_eq_true ht.wf ht.free hp.near hp.file
  cases he : t.entry? (p.place t.workDir) with
  | none =>
    have hnot : ¬t.exists? p = true := by simp [hexists, he]
    refine ⟨t, if_neg hnot, rfl, fun l => ?_⟩
    split
    · rename_i heq
      rw [heq, he]
    · rfl
  | some e =>
    have hl : t.locate p false = .ok (p.place t.workDir) :=
      locate_of_above ht.wf ht.free hp.near hu hp.file (ht.wf.above _ _ he)
    refine ⟨t.drop (p.place t.workDir), ?_, rfl, fun l => ?_⟩
    · rw [if_pos (hexists.2 ⟨hu, e, he⟩)]
      simp only [remove, hl, ok_bind, he]
      cases e with
      | dir => exact absurd he hold
      | file content => rfl
      | link target => rfl
    · rw [entry?_drop hne]
      simp only [eq_comm]

/-! ## Removing directories -/

theorem dropNames?_isSome (start names : List String) :
    (Path.dropNames? start names).isSome = true ↔ start <+: names := by
  induction start generalizing names with
  | nil => simp [Path.dropNames?]
  | cons s start ih =>
    cases names with
    | nil => simp [Path.dropNames?]
    | cons name names =>
      rw [Path.dropNames?, List.cons_prefix_cons]
      by_cases h : s = name
      · simp [h, ih]
      · simp [h]

theorem within_iff : within l l' = true ↔ l <+: l' := dropNames?_isSome l l'

theorem entry?_dropAll (hne : l ≠ []) :
    FileTree.entry? (t.dropAll l) l' = if l <+: l' then none else t.entry? l' := by
  have hlookup (es : List (Location × Entry)) :
      lookup l' (es.filter fun e => !within l e.1) = if l <+: l' then none else lookup l' es := by
    induction es with
    | nil => simp [lookup]
    | cons a es ih =>
      obtain ⟨k, d⟩ := a
      by_cases hk : l <+: k
      · rw [List.filter_cons_of_neg (by simpa [within_iff] using hk), ih, lookup]
        by_cases hkl : k = l'
        · simp [← hkl, hk]
        · simp [hkl]
      · rw [List.filter_cons_of_pos (by simpa [← within_iff] using hk), lookup, lookup, ih]
        by_cases hkl : k = l'
        · simp [← hkl, hk]
        · simp [hkl]
  by_cases hnil : l' = []
  · subst hnil
    simp [hne]
  · rw [ entry?, entry?, if_neg hnil, if_neg hnil, dropAll, hlookup]

/-- A directory is removed with all that is in it. -/
theorem removeTree_exact (ht : t.Tidy top) (hp : Below t.workDir top p) (hu : Usable p)
    (hdir : t.entry? (p.place t.workDir) = some .dir) :
    ∃ t', t.removeTree p = .ok t' ∧ Cuts (p.place t.workDir) t t' := by
  have hl : t.locate p false = .ok (p.place t.workDir) :=
    locate_of_above ht.wf ht.free hp.near hu hp.file (ht.wf.above _ _ hdir)
  refine ⟨t.dropAll (p.place t.workDir), ?_, rfl, fun l => entry?_dropAll hp.place_ne_nil⟩
  simp only [removeTree, hl, ok_bind, hdir]
  rfl

/-- A tree stays tidy when a directory below `top` goes in which the run is not. -/
theorem Tidy.of_cuts (ht : t.Tidy top) (hl : top <+: l) (hne : l ≠ [])
    (hwork : ¬l <+: t.workDir) (h : Cuts l t t') : t'.Tidy top := by
  have hkept {l' : Location} {e : Entry} (he : t'.entry? l' = some e) :
      ¬l <+: l' ∧ t.entry? l' = some e := by
    rw [h.entry] at he
    split at he
    · cases he
    · exact ⟨‹_›, he⟩
  refine ⟨⟨fun l' e he => ?_, ?_⟩, fun l' target hl' he => ?_, ?_⟩
  · obtain ⟨hout, he⟩ := hkept he
    rw [h.entry, if_neg fun habove => hout (habove.trans (List.dropLast_prefix _))]
    exact ht.wf.above l' e he
  · rw [h.work, h.entry, if_neg hwork]
    exact ht.wf.work
  · exact ht.free l' target hl' (hkept he).2
  · rw [h.entry, if_neg, ht.base]
    intro habove
    have h1 := hl.length_le
    have h2 := habove.length_le
    have h3 := List.length_pos_iff.2 hne
    rw [List.length_dropLast] at h2
    omega

/-! ## What stays tidy -/

/-- A tree stays tidy when a location in a directory gets or loses a file. -/
theorem Tidy.of_sets (ht : t.Tidy top) {e : Option Entry} (hne : l ≠ [])
    (hold : t.entry? l ≠ some .dir) (hnew : e = none ∨ ∃ content, e = some (.file content))
    (habove : e ≠ none → t.entry? l.dropLast = some .dir) (h : Sets l e t t') : t'.Tidy top := by
  have hdir {l' : Location} (hl' : t.entry? l' = some .dir) : t'.entry? l' = some .dir := by
    rw [h.entry, if_neg, hl']
    rintro rfl
    exact hold hl'
  refine ⟨⟨fun l' e' he' => ?_, h.work ▸ hdir ht.wf.work⟩, fun l' target hl' he' => ?_,
    hdir ht.base⟩
  · rw [h.entry] at he'
    split at he'
    · rename_i heq
      exact hdir (heq ▸ habove (by simp [he']))
    · exact hdir (ht.wf.above l' e' he')
  · rw [h.entry] at he'
    split at he'
    · rcases hnew with rfl | ⟨content, rfl⟩
      · cases he'
      · cases he'
    · exact ht.free l' target hl' he'

end FileTree

/-! ## Effects -/

open FileTree

variable {t : FileTree} {top : Location} {p : Path}

theorem Effect.makeDirs_exact (ht : t.Tidy top) (hp : Below t.workDir top p) (hu : Usable p)
    (hclear : t.Clear (p.place t.workDir)) :
    ∃ t', (Effect.makeDirs p).perform t = (.ok (), t') ∧ t'.Tidy top ∧
      Opens (p.place t.workDir) t t' := by
  obtain ⟨t', ht', hopens⟩ := FileTree.makeDirs_exact ht hp.near (fun _ => hu) hclear
  refine ⟨t', ?_, (FileTree.makeDirs_spec ht hp.near ht').1, hopens⟩
  simp only [perform, Disk.steps, ht']

theorem Effect.replace_exact (ht : t.Tidy top) (hp : Below t.workDir top p) (hu : Usable p)
    (habove : t.entry? (p.place t.workDir).dropLast = some .dir)
    (hold : t.entry? (p.place t.workDir) ≠ some .dir) (content : ByteArray) :
    ∃ t', (Effect.replace p content).perform t = (.ok (), t') ∧ t'.Tidy top ∧
      Sets (p.place t.workDir) (some (.file content)) t t' := by
  obtain ⟨t', ht', hsets⟩ := FileTree.replace_exact ht hp hu habove hold content
  refine ⟨t', ?_, (FileTree.replace_spec ht hp ht').1, hsets⟩
  simp only [perform, Disk.steps, ht']

theorem Effect.discard_exact (ht : t.Tidy top) (hp : Below t.workDir top p) (hu : Usable p)
    (hold : t.entry? (p.place t.workDir) ≠ some .dir) :
    ∃ t', (Effect.discard p).perform t = (.ok (), t') ∧ t'.Tidy top ∧
      Sets (p.place t.workDir) none t t' := by
  obtain ⟨t', ht', hsets⟩ := FileTree.discard_exact ht hp hu hold
  refine ⟨t', ?_, ht.of_sets hp.place_ne_nil hold (.inl rfl) (fun h => absurd rfl h) hsets, hsets⟩
  simp only [perform, Disk.step, ht']

theorem Effect.removeTree_exact (ht : t.Tidy top) (hp : Below t.workDir top p) (hu : Usable p)
    (hdir : t.entry? (p.place t.workDir) = some .dir)
    (hwork : ¬p.place t.workDir <+: t.workDir) :
    ∃ t', (Effect.removeTree p).perform t = (.ok (), t') ∧ t'.Tidy top ∧
      Cuts (p.place t.workDir) t t' := by
  obtain ⟨t', ht', hcuts⟩ := FileTree.removeTree_exact ht hp hu hdir
  refine ⟨t', ?_, ht.of_cuts hp.below hp.place_ne_nil hwork hcuts, hcuts⟩
  simp only [perform, Disk.step, ht']

end Rollout
