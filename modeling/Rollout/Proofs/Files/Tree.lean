import Rollout.Files.Update
import Rollout.Proofs.Files.Path
import Rollout.Proofs.Outcome

/-!
Trees in which every entry lies in a directory. There, along a way without links, a path leads
to its place or nowhere, and what is read through it is what stands at that place.
-/

namespace Rollout.FileTree

open Outcome

variable {t : FileTree} {l l' top : Location} {e : Entry} {p : Path}

/-! ## Entries -/

theorem lookup_bind (l l' : Location) (e : Entry) (es : List (Location × Entry)) :
    lookup l' (bind l e es) = if l = l' then some e else lookup l' es := by
  induction es with
  | nil => simp [bind, lookup]
  | cons a es ih =>
    obtain ⟨k, d⟩ := a
    by_cases hk : k = l
    · subst hk
      by_cases hl : k = l' <;> simp [bind, lookup, hl]
    · simp only [bind, hk, if_false, lookup, ih]
      by_cases hl : k = l'
      · simp [hl, show l ≠ l' from fun h => hk (hl.trans h.symm)]
      · simp [hl]

theorem lookup_filter (l l' : Location) (es : List (Location × Entry)) :
    lookup l' (es.filter fun e => decide (e.1 ≠ l)) = if l = l' then none else lookup l' es := by
  induction es with
  | nil => simp [lookup]
  | cons a es ih =>
    obtain ⟨k, d⟩ := a
    by_cases hk : k = l
    · subst hk
      rw [List.filter_cons_of_neg (by simp), ih, lookup]
      split <;> rfl
    · rw [List.filter_cons_of_pos (by simpa using hk), lookup, lookup, ih]
      by_cases hl : k = l'
      · simp [hl, show l ≠ l' from fun h => hk (hl.trans h.symm)]
      · simp [hl]

theorem entry?_put (h : l ≠ []) :
    entry? (t.put l e) l' = if l = l' then some e else t.entry? l' := by
  by_cases hl : l' = []
  · subst hl
    simp [ entry?, h]
  · simp [ entry?, put, hl, lookup_bind]

theorem entry?_drop (h : l ≠ []) :
    entry? (t.drop l) l' = if l = l' then none else t.entry? l' := by
  by_cases hl : l' = []
  · subst hl
    simp [ entry?, h]
  · rw [ entry?, entry?, if_neg hl, if_neg hl, drop, lookup_filter]

@[simp] theorem entry?_nil : t.entry? [] = some .dir := rfl

theorem mem_of_lookup {es : List (Location × Entry)} (h : lookup l es = some e) : (l, e) ∈ es := by
  induction es with
  | nil => cases h
  | cons a es ih =>
    obtain ⟨k, d⟩ := a
    rw [lookup] at h
    split at h
    · rename_i hk
      cases h
      exact hk ▸ List.mem_cons_self
    · exact List.mem_cons_of_mem _ (ih h)

theorem mem_entries (h : t.entry? l = some e) : l = [] ∧ e = .dir ∨ (l, e) ∈ t.entries := by
  unfold entry? at h
  split at h
  · exact .inl ⟨‹_›, (Option.some.inj h).symm⟩
  · exact .inr (mem_of_lookup h)

/-- Every entry lies in a directory, and so does the run. -/
structure WellFormed (t : FileTree) : Prop where
  above : ∀ l e, t.entry? l = some e → t.entry? l.dropLast = some .dir
  work : t.entry? t.workDir = some .dir

theorem WellFormed.of_entries (h : ∀ x ∈ t.entries, t.entry? x.1.dropLast = some .dir)
    (hwork : t.entry? t.workDir = some .dir) : t.WellFormed := by
  refine ⟨fun l e he => ?_, hwork⟩
  rcases mem_entries he with ⟨rfl, -⟩ | hmem
  · rfl
  · exact h _ hmem

theorem ne_link_of_entries (h : ∀ x ∈ t.entries, x.2 = .dir ∨ ∃ content, x.2 = .file content)
    (target : String) : t.entry? l ≠ some (.link target) := by
  intro hl
  rcases mem_entries hl with ⟨-, he⟩ | hmem
  · cases he
  · rcases h _ hmem with he | ⟨content, he⟩ <;> cases he

theorem WellFormed.entry?_of_prefix (h : t.WellFormed) (he : t.entry? l = some e)
    (hl : l' <+: l) (hne : l' ≠ l) : t.entry? l' = some .dir := by
  obtain ⟨rest, rfl⟩ := hl
  induction rest using List.reverseRecOn generalizing e with
  | nil => simp at hne
  | append_singleton rest name ih =>
    have habove := h.above _ _ he
    rw [← List.append_assoc, List.dropLast_concat] at habove
    by_cases hrest : rest = []
    · simpa [hrest] using habove
    · exact ih habove (by simp [hrest])

/-- No link stands on the way to a location or below it. -/
def LinkFree (t : FileTree) (top : Location) : Prop :=
  ∀ l target, l <+: top ∨ top <+: l → t.entry? l ≠ some (.link target)

/-- On the way to a location below `top`, or above it, there is no link. -/
theorem LinkFree.of_prefix (h : t.LinkFree top) (hl : l <+: top ∨ top <+: l) (hp : l' <+: l)
    (target : String) : t.entry? l' ≠ some (.link target) := by
  refine h l' target ?_
  rcases hl with hl | hl
  · exact .inl (hp.trans hl)
  · exact List.prefix_or_prefix_of_prefix hp hl

/-! ## Following names -/

variable {onLink : Location → String → List String → Except FileError Location}

theorem walk_ok {last : Bool} {here names : List String} (hplain : ".." ∉ names)
    (hlinks : ∀ start target, start <+: names → t.entry? (here ++ start) ≠ some (.link target))
    (h : t.walk last onLink here names = .ok l) :
    l = here ++ names ∧ (∀ name ∈ names, name.utf8ByteSize < nameLimit) ∧
      (names ≠ [] → t.entry? l.dropLast = some .dir) := by
  induction names generalizing here with
  | nil =>
    rw [walk] at h
    cases h
    simp
  | cons name rest ih =>
    simp only [List.mem_cons, not_or] at hplain
    have hthere := hlinks [name]
    rw [walk] at h
    split at h
    any_goals cases h
    rename_i hhere
    rw [if_neg (Ne.symm hplain.1)] at h
    split at h
    · cases h
    · rename_i hshort
      dsimp only at h
      split at h
      · split at h
        · rename_i hrest
          rw [List.isEmpty_iff] at hrest
          cases h
          simp [hrest, Nat.not_le.1 hshort, hhere]
        · cases h
      · rename_i target heq
        exact absurd heq (hthere target (by simp))
      · obtain ⟨rfl, hnames, habove⟩ := ih hplain.2 (fun start target hs => by
          have := hlinks (name :: start) target (List.cons_prefix_cons.2 ⟨rfl, hs⟩)
          simpa using this) h
        refine ⟨by simp, fun n hn => ?_, fun _ => ?_⟩
        · rcases List.mem_cons.1 hn with rfl | hn
          · exact Nat.not_le.1 hshort
          · exact hnames n hn
        · by_cases hrest : rest = []
          · simp [hrest, hhere]
          · exact habove hrest

theorem walk_of_dirs {last : Bool} {here names : List String}
    (hplain : ".." ∉ names) (hshort : ∀ name ∈ names, name.utf8ByteSize < nameLimit)
    (hdirs : ∀ start, start <+: names → start ≠ names → t.entry? (here ++ start) = some .dir)
    (hlinks : ∀ target, t.entry? (here ++ names) ≠ some (.link target)) :
    t.walk last onLink here names = .ok (here ++ names) := by
  induction names generalizing here with
  | nil => simp [walk]
  | cons name rest ih =>
    simp only [List.mem_cons, not_or] at hplain
    have hhere : t.entry? here = some .dir := by simpa using hdirs [] (by simp) (by simp)
    have hname := hshort name List.mem_cons_self
    have hrec : t.walk last onLink (here ++ [name]) rest = .ok (here ++ name :: rest) := by
      have := @ih (here ++ [name]) hplain.2 (fun n hn => hshort n (List.mem_cons_of_mem _ hn))
        (fun start hs hne => by
          have := hdirs (name :: start) (List.cons_prefix_cons.2 ⟨rfl, hs⟩) (by simpa using hne)
          simpa using this)
        (fun target => by simpa using hlinks target)
      simpa using this
    rw [walk, hhere]
    simp only [if_neg (Ne.symm hplain.1), if_neg (Nat.not_le.2 hname)]
    split
    · rename_i hnone
      by_cases hrest : rest = []
      · simp [hrest]
      · have := hdirs [name] (by simp) (by simpa using Ne.symm hrest)
        rw [this] at hnone
        cases hnone
    · rename_i target heq
      by_cases hrest : rest = []
      · exact absurd heq (by simpa [hrest] using hlinks target)
      · have := hdirs [name] (by simp) (by simpa using Ne.symm hrest)
        rw [this] at heq
        cases heq
    · exact hrec

/-- Where there are no links, it does not matter how many could be followed. -/
theorem exists_walk (t : FileTree) (last : Bool) (links : Nat) :
    ∃ onLink, t.follow last links = t.walk last onLink := by
  cases links with
  | zero => exact ⟨_, rfl⟩
  | succ links => exact ⟨_, rfl⟩

theorem follow_ok {last : Bool} {links : Nat} {here names : List String} (hplain : ".." ∉ names)
    (hlinks : ∀ start target, start <+: names → t.entry? (here ++ start) ≠ some (.link target))
    (h : t.follow last links here names = .ok l) :
    l = here ++ names ∧ (∀ name ∈ names, name.utf8ByteSize < nameLimit) ∧
      (names ≠ [] → t.entry? l.dropLast = some .dir) := by
  obtain ⟨onLink, hwalk⟩ := exists_walk t last links
  rw [hwalk] at h
  exact walk_ok hplain hlinks h

theorem follow_of_dirs {last : Bool} {links : Nat} {here names : List String}
    (hplain : ".." ∉ names) (hshort : ∀ name ∈ names, name.utf8ByteSize < nameLimit)
    (hdirs : ∀ start, start <+: names → start ≠ names → t.entry? (here ++ start) = some .dir)
    (hlinks : ∀ target, t.entry? (here ++ names) ≠ some (.link target)) :
    t.follow last links here names = .ok (here ++ names) := by
  obtain ⟨onLink, hwalk⟩ := exists_walk t last links
  rw [hwalk]
  exact walk_of_dirs hplain hshort hdirs hlinks

/-! ## Paths -/

/-- What the text of a path must be like for the path to be followed at all. -/
structure Usable (p : Path) : Prop where
  notEmpty : p.isEmpty = false
  noNul : (p.text.toList.any fun c => c.toNat = 0) = false
  short : p.text.utf8ByteSize < pathLimit
  shortNames : ∀ name ∈ p.names, name.utf8ByteSize < nameLimit

/-- Whoever can be followed below a directory can be followed to it. -/
theorem Usable.of_joinText {base : Path} {start : List String} {last text : String}
    (h : Usable (base.joinText text)) (hbase : base.parts = start ++ [last])
    (hlast : Path.IsName last) (htext : Path.IsEntry text) : Usable base := by
  have hwhole := Path.text_joinText hbase hlast htext
  refine ⟨Path.isEmpty_of_last hbase hlast, ?_, ?_, fun name hname => h.shortNames name ?_⟩
  · have := h.noNul
    rw [hwhole] at this
    simp only [String.toList_append, List.any_append, Bool.or_eq_false_iff] at this
    exact this.1.1
  · have := h.short
    rw [hwhole] at this
    simp only [String.utf8ByteSize_append] at this
    omega
  · rw [Path.joinText, Path.names_join htext.isAbsolute_ofString]
    exact List.mem_append_left _ hname

/-- If one entry of a directory can be followed to, so can any other that is no longer. -/
theorem Usable.sibling {base : Path} {start : List String} {last text text' : String}
    (h : Usable (base.joinText text)) (hbase : base.parts = start ++ [last])
    (hlast : Path.IsName last) (htext : Path.IsEntry text) (htext' : Path.IsEntry text')
    (hnul : ∀ c ∈ text'.toList, c.toNat ≠ 0) (hsize : text'.utf8ByteSize ≤ text.utf8ByteSize) :
    Usable (base.joinText text') := by
  have hdir := h.of_joinText hbase hlast htext
  have hwhole := Path.text_joinText hbase hlast htext
  have hwhole' := Path.text_joinText hbase hlast htext'
  have hlast' := Path.parts_joinText_of_last hbase hlast htext'
  refine ⟨Path.isEmpty_of_last hlast' htext'.isName, ?_, ?_, fun name hname => ?_⟩
  · have hno : (text'.toList.any fun c => c.toNat = 0) = false := by simpa using hnul
    rw [hwhole']
    simp only [String.toList_append, List.any_append, Bool.or_eq_false_iff]
    exact ⟨⟨hdir.noNul, by decide⟩, hno⟩
  · have := h.short
    rw [hwhole] at this
    rw [hwhole']
    simp only [String.utf8ByteSize_append] at this ⊢
    omega
  · rw [Path.joinText, Path.names_join htext'.isAbsolute_ofString, htext'.names_ofString] at hname
    rcases List.mem_append.1 hname with hname | hname
    · exact hdir.shortNames name hname
    · rw [List.mem_singleton.1 hname]
      refine Nat.lt_of_le_of_lt hsize (h.shortNames text ?_)
      rw [Path.joinText, Path.names_join htext.isAbsolute_ofString, htext.names_ofString]
      exact List.mem_append_right _ List.mem_cons_self

/-- A path that takes no step back and leads below `top` or to a directory above it. -/
structure Near (work top : Location) (p : Path) : Prop where
  plain : p.Plain
  comparable : p.place work <+: top ∨ top <+: p.place work

theorem locate_eq_ok {last : Bool} : t.locate p last = .ok l ↔
    p.isEmpty = false ∧ (p.text.toList.any fun c => c.toNat = 0) = false ∧
      p.text.utf8ByteSize < pathLimit ∧
      t.follow (last || p.namesDirectory) linkLimit (if p.isAbsolute then [] else t.workDir)
        p.names = .ok l ∧
      (p.namesDirectory = true → ∀ content, t.entry? l ≠ some (.file content)) := by
  simp only [locate, bind_eq_ok, throw_bind, guard_eq_ok, Bool.not_eq_true, Nat.not_le]
  refine and_congr_right fun _ => and_congr_right fun _ => and_congr_right fun _ => ?_
  constructor
  · rintro ⟨l', hl', h⟩
    split at h
    · split at h
      · cases h
      · rename_i hfile
        cases h
        exact ⟨hl', fun _ => hfile⟩
    · rename_i hdir
      cases h
      exact ⟨hl', fun h => absurd h hdir⟩
  · rintro ⟨hl, h⟩
    refine ⟨l, hl, ?_⟩
    split
    · rename_i hdir
      split
      · rename_i content hfile
        exact absurd hfile (h hdir content)
      · rfl
    · rfl

theorem Near.links (hp : Near t.workDir top p) (hfree : t.LinkFree top) {start : List String}
    (hs : start <+: p.names) (target : String) :
    t.entry? ((if p.isAbsolute then [] else t.workDir) ++ start) ≠ some (.link target) :=
  hfree.of_prefix hp.comparable (List.prefix_append_right_inj _ |>.2 hs) target

/-- A path leads to its place or nowhere. -/
theorem locate_ok {last : Bool} (hfree : t.LinkFree top) (hp : Near t.workDir top p)
    (h : t.locate p last = .ok l) : l = p.place t.workDir ∧ Usable p := by
  obtain ⟨hempty, hnul, hshort, hfollow, -⟩ := locate_eq_ok.1 h
  obtain ⟨hl, hnames, -⟩ :=
    follow_ok hp.plain (fun _ target hs => hp.links hfree hs target) hfollow
  exact ⟨hl, hempty, hnul, hshort, hnames⟩

theorem entry?_above_of_locate {last : Bool} (hw : t.WellFormed) (hfree : t.LinkFree top)
    (hp : Near t.workDir top p) (h : t.locate p last = .ok l) :
    t.entry? l.dropLast = some .dir := by
  obtain ⟨-, -, -, hfollow, -⟩ := locate_eq_ok.1 h
  obtain ⟨hl, -, habove⟩ :=
    follow_ok hp.plain (fun _ target hs => hp.links hfree hs target) hfollow
  by_cases hnames : p.names = []
  · refine hw.above l .dir ?_
    rw [hl, hnames, List.append_nil]
    split
    · rfl
    · exact hw.work
  · exact habove hnames

/-- A path leads to its place if that lies in a directory. -/
theorem locate_of_above {last : Bool} (hw : t.WellFormed) (hfree : t.LinkFree top)
    (hp : Near t.workDir top p) (hu : Usable p) (hdir : p.namesDirectory = false)
    (habove : t.entry? (p.place t.workDir).dropLast = some .dir) :
    t.locate p last = .ok (p.place t.workDir) := by
  refine locate_eq_ok.2 ⟨hu.notEmpty, hu.noNul, hu.short, ?_, fun h => by simp [h] at hdir⟩
  refine follow_of_dirs hp.plain hu.shortNames (fun start hs hne => ?_)
    (fun target => hp.links hfree List.prefix_rfl target)
  -- a shorter start of the names ends at or above the directory of the last one
  have hbelow : (if p.isAbsolute then [] else t.workDir) ++ start <+:
      (p.place t.workDir).dropLast := by
    obtain ⟨rest, hrest⟩ := hs
    have hrest' : rest ≠ [] := by
      rintro rfl
      exact hne (by simpa using hrest)
    rw [Path.place, ← hrest, ← List.append_assoc, List.dropLast_append_of_ne_nil hrest']
    exact List.prefix_append _ _
  by_cases heq : (if p.isAbsolute then [] else t.workDir) ++ start = (p.place t.workDir).dropLast
  · rw [heq, habove]
  · exact hw.entry?_of_prefix habove hbelow heq

/-- What a path leads to is what stands at its place. -/
theorem find_eq_ok (hw : t.WellFormed) (hfree : t.LinkFree top) (hp : Near t.workDir top p)
    (hdir : p.namesDirectory = false) :
    t.find p = .ok (l, e) ↔ Usable p ∧ l = p.place t.workDir ∧ t.entry? l = some e := by
  simp only [find, bind_eq_ok]
  constructor
  · rintro ⟨l', hl', h⟩
    obtain ⟨rfl, hu⟩ := locate_ok hfree hp hl'
    split at h
    · cases h
      exact ⟨hu, rfl, ‹_›⟩
    · cases h
  · rintro ⟨hu, rfl, he⟩
    refine ⟨_, locate_of_above hw hfree hp hu hdir (hw.above _ _ he), ?_⟩
    rw [he]
    rfl

theorem read_eq_ok (hw : t.WellFormed) (hfree : t.LinkFree top) (hp : Near t.workDir top p)
    (hdir : p.namesDirectory = false) {content : ByteArray} :
    t.read p = .ok content ↔ Usable p ∧ t.entry? (p.place t.workDir) = some (.file content) := by
  simp only [read, bind_eq_ok]
  constructor
  · rintro ⟨⟨l, e⟩, hfind, h⟩
    obtain ⟨hu, rfl, he⟩ := (find_eq_ok hw hfree hp hdir).1 hfind
    cases e with
    | file content' =>
      cases h
      exact ⟨hu, he⟩
    | dir => cases h
    | link target => cases h
  · rintro ⟨hu, he⟩
    exact ⟨_, (find_eq_ok hw hfree hp hdir).2 ⟨hu, rfl, he⟩, rfl⟩

theorem exists?_eq_true (hw : t.WellFormed) (hfree : t.LinkFree top) (hp : Near t.workDir top p)
    (hdir : p.namesDirectory = false) :
    t.exists? p = true ↔ Usable p ∧ ∃ e, t.entry? (p.place t.workDir) = some e := by
  unfold exists?
  constructor
  · intro h
    split at h
    · rename_i found hfind
      obtain ⟨l, e⟩ := found
      obtain ⟨hu, rfl, he⟩ := (find_eq_ok hw hfree hp hdir).1 hfind
      exact ⟨hu, e, he⟩
    · cases h
  · rintro ⟨hu, e, he⟩
    rw [(find_eq_ok hw hfree hp hdir).2 ⟨hu, rfl, he⟩]

end Rollout.FileTree
