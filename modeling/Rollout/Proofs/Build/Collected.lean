import Rollout.Build
import Rollout.Proofs.Files.Naming
import Rollout.Proofs.TextMap

/-!
The files of a function. They are those of its entry point and those listed for it, each by itself or
with all that lies below a directory; the order in which they are met shows in no name and in no content.
-/

namespace Rollout

open FileTree Outcome

/-- The regular file at a path, or one below the directory there: its path and its content. -/
inductive FileTree.Covers (t : FileTree) (p : Path) : Path → ByteArray → Prop
  | itself (l : Location) (content : ByteArray) (hfile : t.find p = .ok (l, .file content)) :
      Covers t p p content
  | below (l : Location) (names : List String) (content : ByteArray)
      (hdir : t.find p = .ok (l, .dir)) (hfile : t.entry? (l ++ names) = some (.file content)) :
      Covers t p (p.join ⟨names⟩) content

/-- Up to its first dot, the name of a file is that of a class or of a class inside it. -/
def IsOfClass (className file : String) : Prop :=
  ∃ stem ending, file = stem ++ ending ∧ '.' ∉ stem.toList ∧
    (ending = "" ∨ ∃ kind, ending = "." ++ kind) ∧
    (stem = className ∨ ∃ inner, stem = className ++ "$" ++ inner)

/-- The segments of a dotted class path: those of the package and the name of the class. -/
structure IsClassPath (package : List String) (className entryPoint : String) : Prop where
  joined : Text.join "." (package ++ [className]) = entryPoint
  noDots : ∀ segment ∈ package ++ [className], '.' ∉ segment.toList

namespace BuildOutput

variable {b : BuildOutput} {t : FileTree} {f : FunctionSpec} {p q : Path} {content content' : ByteArray}
  {files files' files'' : Files} {S S' : Path → Prop} {found : List Path} {name : String}

/-- The directory of a package. -/
def packageDir (b : BuildOutput) (package : List String) : Path :=
  package.foldl Path.joinText b.dir

/-- A file of the class that a dotted class path names. -/
inductive CollectsClass (b : BuildOutput) (t : FileTree) (entryPoint : String) :
    Path → ByteArray → Prop
  | intro (package : List String) (className file : String) (l l' : Location) (content : ByteArray)
      (hclass : IsClassPath package className entryPoint)
      (hdir : t.find (b.packageDir package) = .ok (l, .dir)) (hentry : t.entry? (l ++ [file]) ≠ none)
      (hname : IsOfClass className file)
      (hfile : t.find ((b.packageDir package).joinText file) = .ok (l', .file content)) :
      CollectsClass b t entryPoint ((b.packageDir package).joinText file) content

/-- The compiled files of a function: their paths and their contents. A dotted class path counts only
if nothing stands where the entry point would be as a path. -/
inductive Collects (b : BuildOutput) (t : FileTree) (f : FunctionSpec) (p : Path)
    (content : ByteArray) : Prop
  | entryPoint (h : t.Covers (b.dir.joinText f.entryPoint) p content)
  | ofClass (hfile : t.isFile (b.dir.joinText f.entryPoint) = false)
      (hdir : t.isDir (b.dir.joinText f.entryPoint) = false)
      (h : b.CollectsClass t f.entryPoint p content)
  | listed (listed : Path) (hlisted : listed ∈ f.compiledFiles)
      (h : t.Covers (b.dir.join listed) p content)

/-! ## Files as they are met -/

/-- The files with more, one after the other. -/
def addFound (b : BuildOutput) (found : List Path) (files : Files) : Files :=
  found.foldl (fun files p => b.addFile p files) files

/-- All that was added is of a kind, and all of that kind was added. -/
def Gathers (b : BuildOutput) (S : Path → Prop) (files files' : Files) : Prop :=
  ∃ found, files' = b.addFound found files ∧ ∀ p, p ∈ found ↔ S p

theorem Gathers.trans (h : b.Gathers S files files') (h' : b.Gathers S' files' files'') :
    b.Gathers (fun p => S p ∨ S' p) files files'' := by
  obtain ⟨found, rfl, hfound⟩ := h
  obtain ⟨found', rfl, hfound'⟩ := h'
  refine ⟨found ++ found', by rw [addFound, addFound, addFound, List.foldl_append], fun p => ?_⟩
  rw [List.mem_append, hfound, hfound']

theorem Gathers.congr (h : b.Gathers S files files') (hS : ∀ p, S p ↔ S' p) :
    b.Gathers S' files files' := by
  obtain ⟨found, hfiles, hfound⟩ := h
  exact ⟨found, hfiles, fun p => (hfound p).trans (hS p)⟩

theorem gathers_addFile (b : BuildOutput) (p : Path) (files : Files) :
    b.Gathers (· = p) files (b.addFile p files) := ⟨[p], rfl, fun _ => List.mem_singleton⟩

theorem gathers_none (b : BuildOutput) (files : Files) (hS : ∀ p, ¬S p) :
    b.Gathers S files files := ⟨[], rfl, fun p => by simp [hS p]⟩

/-! ## What is met -/

theorem gathers_addTree (ho : t.Once) {l : Location} (hdir : t.find p = .ok (l, .dir))
    (h : b.addTree t p files = .ok files') :
    b.Gathers (fun q => ∃ content, t.Covers p q content) files files' := by
  rw [addTree] at h
  split at h
  · cases h
  · rename_i below hbelow
    cases h
    refine ⟨below.map fun names => p.join ⟨names⟩, by rw [addFound, List.foldl_map], fun q => ?_⟩
    rw [List.mem_map]
    constructor
    · rintro ⟨names, hnames, rfl⟩
      obtain ⟨content, hcontent⟩ := (mem_filesBelow ho hdir hbelow).1 hnames
      exact ⟨content, .below l names content hdir hcontent⟩
    · rintro ⟨content, hcovers⟩
      cases hcovers with
      | itself l' _ hfile =>
        rw [hdir] at hfile
        cases hfile
      | below l' names _ hdir' hfile =>
        rw [hdir] at hdir'
        cases hdir'
        exact ⟨names, (mem_filesBelow ho hdir hbelow).2 ⟨content, hfile⟩, rfl⟩

theorem gathers_itself {l : Location} (hfile : t.find p = .ok (l, .file content)) (files : Files) :
    b.Gathers (fun q => ∃ content, t.Covers p q content) files (b.addFile p files) := by
  refine (gathers_addFile b p files).congr fun q => ⟨?_, ?_⟩
  · rintro rfl
    exact ⟨content, .itself l content hfile⟩
  · rintro ⟨content', hcovers⟩
    cases hcovers with
    | itself _ _ _ => rfl
    | below l' names _ hdir _ =>
      rw [hfile] at hdir
      cases hdir

theorem gathers_addListed (ho : t.Once) {listed : Path}
    (h : b.addListed t listed files = .ok files') :
    b.Gathers (fun q => ∃ content, t.Covers (b.dir.join listed) q content) files files' := by
  rw [addListed] at h
  split at h
  · rename_i hdir
    obtain ⟨l, hl⟩ := isDir_eq_true.1 hdir
    exact gathers_addTree ho hl h
  split at h
  · rename_i hfile
    obtain ⟨l, content, hl⟩ := isFile_eq_true.1 hfile
    cases h
    exact gathers_itself hl files
  · cases h

theorem gathers_addAllListed (ho : t.Once) {all : List Path}
    (h : b.addAllListed t all files = .ok files') :
    b.Gathers (fun q => ∃ listed ∈ all, ∃ content, t.Covers (b.dir.join listed) q content)
      files files' := by
  induction all generalizing files with
  | nil =>
    cases h
    exact gathers_none b _ (by simp)
  | cons listed all ih =>
    rw [addAllListed] at h
    split at h
    · cases h
    · rename_i between hbetween
      refine ((gathers_addListed ho hbetween).trans (ih h)).congr fun q => ?_
      simp only [List.mem_cons, exists_eq_or_imp]

theorem takeWhile_dot {stem ending : String} (hstem : '.' ∉ stem.toList)
    (hending : ending = "" ∨ ∃ kind, ending = "." ++ kind) :
    (stem ++ ending).toList.takeWhile (· ≠ '.') = stem.toList := by
  have hplain : ∀ c ∈ stem.toList, decide (c ≠ '.') = true := fun c hc => by
    rw [decide_eq_true_eq]
    rintro rfl
    exact hstem hc
  rw [String.toList_append, List.takeWhile_append_of_pos hplain]
  rcases hending with rfl | ⟨kind, rfl⟩
  · simp
  · rw [String.toList_append, show ".".toList = ['.'] from rfl, List.singleton_append,
      List.takeWhile_cons_of_neg (by simp), List.append_nil]

theorem isOfClass_iff (className file : String) :
    isOfClass className file = true ↔ IsOfClass className file := by
  simp only [isOfClass, Bool.or_eq_true, decide_eq_true_eq, Text.startsWith_iff]
  constructor
  · intro h
    refine ⟨_, String.ofList (file.toList.dropWhile (· ≠ '.')), ?_, ?_, ?_, h⟩
    · rw [← String.toList_inj]
      simp [List.takeWhile_append_dropWhile]
    · rw [String.toList_ofList]
      intro hmem
      have hall := List.all_eq_true.1 (List.all_takeWhile (l := file.toList)) _ hmem
      simp at hall
    · cases hrest : file.toList.dropWhile (· ≠ '.') with
      | nil => exact .inl rfl
      | cons c kind =>
        have hc := List.head?_dropWhile_not (· ≠ '.') file.toList
        rw [hrest] at hc
        have hdot : c = '.' := by simpa using hc
        refine .inr ⟨String.ofList kind, ?_⟩
        rw [← String.toList_inj, hdot]
        simp
  · rintro ⟨stem, ending, rfl, hstem, hending, h⟩
    rw [takeWhile_dot hstem hending, String.ofList_toList]
    exact h

/-- A class path is cut at its dots in one way. -/
theorem splitString_eq {package : List String} {className entryPoint : String} :
    Text.splitString '.' entryPoint = package ++ [className] ↔
      IsClassPath package className entryPoint := by
  rw [Text.splitString_eq_iff (by simp)]
  exact ⟨fun h => ⟨h.1, h.2⟩, fun h => ⟨h.joined, h.noDots⟩⟩

theorem exists_classPath (entryPoint : String) :
    ∃ package className, Text.splitString '.' entryPoint = package ++ [className] :=
  ⟨_, _, (List.dropLast_append_getLast (Text.splitString_ne_nil '.' entryPoint)).symm⟩

theorem gathers_addClass (entryPoint : String) (files : Files) :
    b.Gathers (fun p => ∃ content, b.CollectsClass t entryPoint p content) files
      (b.addClass t entryPoint files) := by
  obtain ⟨package, className, hsplit⟩ := exists_classPath entryPoint
  have hplace : b.classPlace entryPoint = (b.packageDir package, className) := by
    simp [classPlace, hsplit, packageDir]
  have hclass := splitString_eq.1 hsplit
  rw [addClass, hplace]
  dsimp only
  split
  · rename_i hlist
    refine gathers_none b files fun p => ?_
    rintro ⟨content, hcollects⟩
    cases hcollects with
    | intro package' className' file l l' _ hclass' hdir _ _ _ =>
      obtain ⟨rfl, -⟩ := List.append_inj' (hsplit.symm.trans (splitString_eq.2 hclass')) rfl
      rw [list_eq_ok.2 ⟨l, hdir, rfl⟩] at hlist
      cases hlist
  · rename_i names hlist
    obtain ⟨l, hdir, rfl⟩ := list_eq_ok.1 hlist
    refine ⟨_, List.foldl_filter.symm, fun p => ?_⟩
    simp only [List.mem_filter, List.mem_map]
    constructor
    · rintro ⟨⟨file, ⟨hfile, hname⟩, rfl⟩, hregular⟩
      obtain ⟨l', content, hcontent⟩ := isFile_eq_true.1 hregular
      exact ⟨content, .intro package className file l l' content hclass hdir (mem_children.1 hfile)
        ((isOfClass_iff className file).1 hname) hcontent⟩
    · rintro ⟨content, hcollects⟩
      cases hcollects with
      | intro package' className' file l₁ l' _ hclass' hdir' hentry hname hfile =>
        obtain ⟨rfl, hlast⟩ := List.append_inj' (hsplit.symm.trans (splitString_eq.2 hclass')) rfl
        obtain rfl := List.singleton_inj.1 hlast
        rw [hdir] at hdir'
        cases hdir'
        exact ⟨⟨file, ⟨mem_children.2 hentry, (isOfClass_iff className file).2 hname⟩, rfl⟩,
          isFile_eq_true.2 ⟨l', content, hfile⟩⟩

theorem gathers_addEntryPoint (ho : t.Once)
    (h : b.addEntryPoint t f.entryPoint files = .ok files') :
    b.Gathers (fun p => ∃ content, t.Covers (b.dir.joinText f.entryPoint) p content ∨
      t.isFile (b.dir.joinText f.entryPoint) = false ∧
        t.isDir (b.dir.joinText f.entryPoint) = false ∧ b.CollectsClass t f.entryPoint p content)
      files files' := by
  rw [addEntryPoint] at h
  split at h
  · rename_i hfile
    obtain ⟨l, content, hl⟩ := isFile_eq_true.1 hfile
    cases h
    refine (gathers_itself hl files).congr fun p => ?_
    simp [hfile]
  split at h
  · rename_i hdir
    obtain ⟨l, hl⟩ := isDir_eq_true.1 hdir
    refine (gathers_addTree ho hl h).congr fun p => ?_
    simp [hdir]
  · rename_i hfile hdir
    cases h
    rw [Bool.not_eq_true] at hfile hdir
    refine (gathers_addClass f.entryPoint files).congr fun p => exists_congr fun content => ?_
    -- at a path that leads nowhere there is nothing to cover
    have hnone : ¬t.Covers (b.dir.joinText f.entryPoint) p content := by
      intro hcovers
      cases hcovers with
      | itself l _ h => rw [isFile_eq_true.2 ⟨l, content, h⟩] at hfile; cases hfile
      | below l names _ h _ => rw [isDir_eq_true.2 ⟨l, h⟩] at hdir; cases hdir
    simp [hfile, hdir, hnone]

/-- The files of a function are those collected for it, met in some order. -/
theorem gathers_filesOf (ho : t.Once) (h : b.filesOf t f = .ok files) :
    b.Gathers (fun p => ∃ content, b.Collects t f p content) [] files := by
  rw [filesOf] at h
  split at h
  · cases h
  · rename_i between hbetween
    refine ((gathers_addEntryPoint ho hbetween).trans (gathers_addAllListed ho h)).congr fun p => ?_
    constructor
    · rintro (⟨content, hcovers | ⟨hfile, hdir, hclass⟩⟩ | ⟨listed, hlisted, content, hcovers⟩)
      · exact ⟨content, .entryPoint hcovers⟩
      · exact ⟨content, .ofClass hfile hdir hclass⟩
      · exact ⟨content, .listed listed hlisted hcovers⟩
    · rintro ⟨content, hcovers | ⟨hfile, hdir, hclass⟩ | ⟨listed, hlisted, hcovers⟩⟩
      · exact .inl ⟨content, .inl hcovers⟩
      · exact .inl ⟨content, .inr ⟨hfile, hdir, hclass⟩⟩
      · exact .inr ⟨listed, hlisted, content, hcovers⟩

end BuildOutput

end Rollout
