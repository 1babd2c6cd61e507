import Rollout.Proofs.Files.Tree
import Rollout.Proofs.Text.Order

/-!
What a directory holds: the names in it, the files below it, and where a path leads that goes on
from a directory by names of what stands there.
-/

namespace Rollout

open FileTree Outcome

theorem Path.dropNames?_eq_some {start names rest : List String} :
    dropNames? start names = some rest ↔ names = start ++ rest := by
  induction start generalizing names with
  | nil => simp [dropNames?, eq_comm]
  | cons s start ih =>
    cases names with
    | nil => simp [dropNames?]
    | cons n names =>
      rw [dropNames?]
      split
      · rename_i hs
        rw [ih, hs, List.cons_append, List.cons.injEq, and_iff_right rfl]
      · rename_i hs
        simp [Ne.symm hs]

namespace FileTree

variable {t : FileTree} {l l' top : Location} {e e' : Entry} {name : String} {names : List String}
  {p q : Path}

/-! ## Enumerating -/

theorem lookup_ne_none {es : List (Location × Entry)} (h : (l, e) ∈ es) :
    lookup l es ≠ none := by
  induction es with
  | nil => cases h
  | cons x es ih =>
    obtain ⟨l', e'⟩ := x
    rw [lookup]
    split
    · exact Option.some_ne_none _
    · rename_i hne
      rcases List.mem_cons.1 h with heq | h
      · cases heq
        exact absurd rfl hne
      · exact ih h

theorem lookup_of_mem {es : List (Location × Entry)} (hn : (es.map Prod.fst).Nodup)
    (h : (l, e) ∈ es) : lookup l es = some e := by
  induction es with
  | nil => cases h
  | cons x es ih =>
    obtain ⟨l', e'⟩ := x
    rw [List.map_cons, List.nodup_cons] at hn
    rw [lookup]
    rcases List.mem_cons.1 h with heq | h
    · cases heq
      rw [if_pos rfl]
    · have hne : l' ≠ l := by
        rintro rfl
        exact hn.1 (List.mem_map.2 ⟨_, h, rfl⟩)
      rw [if_neg hne, ih hn.2 h]

/-- No location is entered twice. -/
def Once (t : FileTree) : Prop := (t.entries.map Prod.fst).Nodup

instance (t : FileTree) : Decidable t.Once :=
  inferInstanceAs (Decidable (t.entries.map Prod.fst).Nodup)

theorem Once.mem_entries (h : t.Once) (hl : l ≠ []) :
    (l, e) ∈ t.entries ↔ t.entry? l = some e := by
  rw [ entry?, if_neg hl]
  exact ⟨lookup_of_mem h, mem_of_lookup⟩

theorem mem_below : (names, e) ∈ t.below top ↔ names ≠ [] ∧ (top ++ names, e) ∈ t.entries := by
  simp only [below, List.mem_filterMap, Prod.exists]
  constructor
  · rintro ⟨l, e', hmem, hbelow⟩
    split at hbelow
    · cases hbelow
    · rename_i rest hne hrest
      cases hbelow
      rw [Path.dropNames?_eq_some] at hrest
      exact ⟨fun h => hne h, hrest ▸ hmem⟩
    · cases hbelow
  · rintro ⟨hne, hmem⟩
    refine ⟨top ++ names, e, hmem, ?_⟩
    rw [Path.dropNames?_eq_some.2 rfl]
    split
    · rename_i heq
      exact absurd (Option.some.inj heq) hne
    · rename_i heq
      rw [Option.some.inj heq]
    · rename_i heq
      cases heq

/-- The names in a directory are names of entries. -/
theorem mem_children : name ∈ t.children top ↔ t.entry? (top ++ [name]) ≠ none := by
  have hchildren : name ∈ t.children top ↔ ∃ e, ([name], e) ∈ t.below top := by
    simp only [children, List.mem_filterMap, Prod.exists]
    constructor
    · rintro ⟨names, e, hmem, hname⟩
      split at hname
      · cases hname
        exact ⟨e, hmem⟩
      · cases hname
    · rintro ⟨e, hmem⟩
      exact ⟨[name], e, hmem, rfl⟩
  rw [hchildren, FileTree.entry?, if_neg (by simp)]
  constructor
  · rintro ⟨e, hmem⟩
    exact lookup_ne_none (mem_below.1 hmem).2
  · intro h
    obtain ⟨e, he⟩ := Option.ne_none_iff_exists'.1 h
    exact ⟨e, mem_below.2 ⟨by simp, mem_of_lookup he⟩⟩

theorem isFile_eq_true : t.isFile p = true ↔ ∃ l content, t.find p = .ok (l, .file content) := by
  unfold isFile
  split
  · rename_i l content h
    simp [h]
  · rename_i h
    simp only [Bool.false_eq_true, false_iff, not_exists]
    exact fun l content hfind => h l content hfind

theorem isDir_eq_true : t.isDir p = true ↔ ∃ l, t.find p = .ok (l, .dir) := by
  unfold isDir
  split
  · rename_i l h
    simp [h]
  · rename_i h
    simp only [Bool.false_eq_true, false_iff, not_exists]
    exact fun l hfind => h l hfind

theorem read_eq_ok_iff {content : ByteArray} :
    t.read p = .ok content ↔ ∃ l, t.find p = .ok (l, .file content) := by
  rw [read, bind_eq_ok]
  constructor
  · rintro ⟨⟨l, e⟩, hfind, h⟩
    cases e with
    | file content' =>
      cases h
      exact ⟨l, hfind⟩
    | dir => cases h
    | link target => cases h
  · rintro ⟨l, hfind⟩
    exact ⟨_, hfind, rfl⟩

theorem list_eq_ok : t.list p = .ok names ↔ ∃ l, t.find p = .ok (l, .dir) ∧ names = t.children l := by
  rw [list, bind_eq_ok]
  constructor
  · rintro ⟨⟨l, e⟩, hfind, h⟩
    cases e with
    | dir =>
      cases h
      exact ⟨l, hfind, rfl⟩
    | file content => cases h
    | link target => cases h
  · rintro ⟨l, hfind, rfl⟩
    exact ⟨_, hfind, rfl⟩

theorem entry?_of_find (h : t.find p = .ok (l, e)) : t.entry? l = some e := by
  obtain ⟨l', -, he⟩ := bind_eq_ok.1 h
  split at he
  · cases he
    assumption
  · cases he

theorem mem_filesBelow (h : t.Once) (hfind : t.find p = .ok (l, .dir))
    {files : List (List String)} (hfiles : t.filesBelow p = .ok files) :
    names ∈ files ↔ ∃ content, t.entry? (l ++ names) = some (.file content) := by
  rw [filesBelow, hfind] at hfiles
  cases hfiles
  rw [(Text.sortWith_perm _ _).mem_iff]
  simp only [List.mem_filterMap, Prod.exists]
  constructor
  · rintro ⟨names', e, hmem, he⟩
    obtain ⟨hne, hmem⟩ := mem_below.1 hmem
    cases e with
    | file content =>
      cases he
      exact ⟨content, (h.mem_entries (by simp [hne])).1 hmem⟩
    | dir => cases he
    | link target => cases he
  · rintro ⟨content, hcontent⟩
    have hne : names ≠ [] := by
      rintro rfl
      rw [List.append_nil, entry?_of_find hfind] at hcontent
      cases hcontent
    exact ⟨names, .file content,
      mem_below.2 ⟨hne, (h.mem_entries (by simp [hne])).2 hcontent⟩, rfl⟩

/-! ## Going on from a directory -/

/-- The names of a path lead to a location. -/
def Leads (t : FileTree) (p : Path) (l : Location) : Prop :=
  t.follow true linkLimit (if p.isAbsolute then [] else t.workDir) p.names = .ok l

theorem leads_of_find (h : t.find p = .ok (l, e)) : t.Leads p l := by
  obtain ⟨l', hl', he⟩ := bind_eq_ok.1 h
  obtain ⟨-, -, -, hfollow, -⟩ := locate_eq_ok.1 hl'
  split at he
  · cases he
    exact hfollow
  · cases he

theorem Leads.unique (h : t.Leads p l) (h' : t.Leads p l') : l = l' :=
  Except.ok.inj (h.symm.trans h')

theorem Leads.of_names (h : t.Leads p l) (habsolute : p.isAbsolute = q.isAbsolute)
    (hnames : p.names = q.names) : t.Leads q l := by
  rw [Leads, ← habsolute, ← hnames]
  exact h

/-- Names that lead to a directory lead on from there, if they do so behind a link. -/
theorem walk_append {onLink : Location → String → List String → Except FileError Location}
    {here : Location} {rest : List String} (h : t.walk true onLink here names = .ok l)
    (hdir : t.entry? l = some .dir)
    (hlink : ∀ here target names, onLink here target names = .ok l →
      ∃ onLink', onLink here target (names ++ rest) = t.walk true onLink' l rest) :
    ∃ onLink', t.walk true onLink here (names ++ rest) = t.walk true onLink' l rest := by
  induction names generalizing here with
  | nil =>
    cases h
    exact ⟨onLink, rfl⟩
  | cons name names ih =>
    rw [walk] at h
    rw [List.cons_append, walk]
    split at h
    any_goals cases h
    split at h
    · rename_i hback
      rw [if_pos hback]
      exact ih h
    rename_i hback
    rw [if_neg hback]
    split at h
    · cases h
    rename_i hshort
    rw [if_neg hshort]
    dsimp only at h ⊢
    split at h
    · -- the last name leads nowhere, so not to a directory
      rename_i hnone
      split at h
      · cases h
        rw [hnone] at hdir
        cases hdir
      · cases h
    · simp only [Bool.not_true, Bool.and_false, Bool.false_eq_true, if_false] at h ⊢
      exact hlink _ _ _ h
    · exact ih h

theorem follow_append {links : Nat} {here : Location}
    (h : t.follow true links here names = .ok l) (hdir : t.entry? l = some .dir)
    (rest : List String) :
    ∃ onLink, t.follow true links here (names ++ rest) = t.walk true onLink l rest := by
  induction links generalizing here names with
  | zero => exact walk_append h hdir nofun
  | succ links ih =>
    refine walk_append h hdir fun here target names hfollow => ?_
    dsimp only at hfollow ⊢
    rw [← List.append_assoc]
    exact ih hfollow

/-- A path that goes on from a directory by the names of a file below it leads to that file, if it
leads anywhere. -/
theorem Leads.eq_append (h : t.Leads (p.join ⟨names⟩) l') (hw : t.WellFormed)
    (hp : t.find p = .ok (l, .dir)) {content : ByteArray}
    (hfile : t.entry? (l ++ names) = some (.file content))
    (hnames : ∀ name ∈ names, Path.IsEntry name) : l' = l ++ names := by
  have hne : names ≠ [] := by
    rintro rfl
    rw [List.append_nil, entry?_of_find hp] at hfile
    cases hfile
  have hrel : Path.isAbsolute ⟨names⟩ = false := by
    obtain ⟨name, rest, rfl⟩ := List.exists_cons_of_ne_nil hne
    rw [Path.isAbsolute_cons]
    simp [(hnames name List.mem_cons_self).isName.1]
  have hall : Path.names ⟨names⟩ = names := by
    rw [Path.names, List.filter_eq_self]
    intro name hname
    simp [(hnames name hname).isName.1, (hnames name hname).isName.2]
  have hplain : ".." ∉ names := fun h => (hnames _ h).noStepBack rfl
  have hlinks (start : List String) (target : String) (hs : start <+: names) :
      t.entry? (l ++ start) ≠ some (.link target) := by
    by_cases heq : start = names
    · rw [heq, hfile]
      rintro ⟨⟩
    · rw [hw.entry?_of_prefix hfile ((List.prefix_append_right_inj l).2 hs) (by simpa using heq)]
      rintro ⟨⟩
  obtain ⟨onLink, hwalk⟩ := follow_append (leads_of_find hp) (entry?_of_find hp) names
  rw [Leads, Path.names_join hrel, Path.isAbsolute_join hrel hne, hall, hwalk] at h
  exact (walk_ok hplain hlinks h).1

end FileTree

end Rollout
