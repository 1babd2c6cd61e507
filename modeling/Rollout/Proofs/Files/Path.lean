import Mathlib.Data.List.Induction
import Rollout.Files.Tree
import Rollout.Proofs.Text.Split

/-!
Where paths lead that take no step back. Such a path stands for one location, whatever the tree
holds as long as no link is in the way; joining adds names at its end and the parent has one
name less.
-/

namespace Rollout.Path

/-- Where a path leads from a working directory, names taken as they are. -/
def place (work : Location) (p : Path) : Location :=
  (if p.isAbsolute then [] else work) ++ p.names

/-- No step of a path leads back. -/
def Plain (p : Path) : Prop := ".." ∉ p.names

instance (p : Path) : Decidable p.Plain := inferInstanceAs (Decidable (".." ∉ p.names))

/-- A part that counts as a name. -/
def IsName (part : String) : Prop := part ≠ "" ∧ part ≠ "."

instance (part : String) : Decidable (IsName part) :=
  inferInstanceAs (Decidable (part ≠ "" ∧ part ≠ "."))

/-! ## Names -/

theorem isName_of_mem_names {p : Path} {name : String} (h : name ∈ p.names) : IsName name := by
  simpa [names, IsName] using (List.mem_filter.1 h).2

theorem ofString_of_not_mem {text : String} (h : '/' ∉ text.toList) : ofString text = ⟨[text]⟩ := by
  simp [ofString, Text.splitString, Text.split_of_not_mem h]

theorem parts_ofString_ne_nil (text : String) : (ofString text).parts ≠ [] := by
  simp [ofString, Text.splitString, Text.split_ne_nil]

/-- A text without slashes that is a name. -/
structure IsEntry (text : String) : Prop where
  noSlash : '/' ∉ text.toList
  isName : IsName text
  noStepBack : text ≠ ".."

theorem IsEntry.names_ofString {text : String} (h : IsEntry text) :
    (ofString text).names = [text] := by
  simp [ofString_of_not_mem h.noSlash, names, h.isName.1, h.isName.2]

theorem IsEntry.isAbsolute_ofString {text : String} (h : IsEntry text) :
    (ofString text).isAbsolute = false := by
  simp [ofString_of_not_mem h.noSlash, isAbsolute]

/-! ## Joining -/

theorem isAbsolute_cons (part : String) (parts : List String) :
    isAbsolute ⟨part :: parts⟩ = (decide (part = "") && !parts.isEmpty) := by
  unfold isAbsolute
  split
  · rename_i h
    cases h
    rfl
  · rename_i h
    cases parts with
    | nil => simp
    | cons second parts =>
      have hne : part ≠ "" := by
        rintro rfl
        exact h second parts rfl
      simp [hne]

theorem isEmpty_iff {p : Path} : p.isEmpty = true ↔ p.parts = [] ∨ p.parts = [""] := by
  obtain ⟨parts⟩ := p
  match parts with
  | [] => simp [isEmpty]
  | [part] => simp [isEmpty]
  | part :: part' :: parts => simp [isEmpty]

theorem place_of_isEmpty {p : Path} (h : p.isEmpty = true) (work : Location) :
    p.place work = work := by
  obtain ⟨parts⟩ := p
  rcases isEmpty_iff.1 h with rfl | rfl <;> simp [place, isAbsolute, names]

theorem names_dropLast_of_blank {parts : List String} (h : parts.getLast? = some "") :
    names ⟨parts.dropLast⟩ = names ⟨parts⟩ := by
  obtain ⟨start, rfl⟩ := List.getLast?_eq_some_iff.1 h
  simp [names]

theorem names_join {base rel : Path} (h : rel.isAbsolute = false) :
    (base.join rel).names = base.names ++ rel.names := by
  unfold join
  by_cases hempty : base.isEmpty = true
  · rw [if_pos (by simp [hempty])]
    have := place_of_isEmpty hempty []
    simp only [place] at this
    have hnames : base.names = [] := by
      rcases isEmpty_iff.1 hempty with hp | hp <;> simp [names, hp]
    simp [hnames]
  · rw [if_neg (by simp [hempty, h])]
    split
    · rename_i hblank
      have := names_dropLast_of_blank hblank
      simp only [names] at this ⊢
      rw [List.filter_append, this]
    · simp [names]

theorem isAbsolute_join {base rel : Path} (h : rel.isAbsolute = false) (hrel : rel.parts ≠ []) :
    (base.join rel).isAbsolute = base.isAbsolute := by
  obtain ⟨base⟩ := base
  obtain ⟨part, parts, hparts⟩ := List.exists_cons_of_ne_nil hrel
  unfold join
  split
  · rename_i hjoin
    have hempty : isEmpty ⟨base⟩ = true := by simpa [h] using hjoin
    rcases isEmpty_iff.1 hempty with hp | hp <;> simp_all [isAbsolute]
  · rename_i hjoin
    have hempty : ¬(base = [] ∨ base = [""]) := by
      simpa [h, ← isEmpty_iff (p := ⟨base⟩)] using hjoin
    match base with
    | [] => simp at hempty
    | [only] =>
      simp only [reduceCtorEq, false_or, List.cons.injEq, and_true] at hempty
      simp [hempty, isAbsolute_cons]
    | first :: second :: others =>
      -- dropping an empty last part leaves at least one part before those that are added
      split <;> simp [hparts, isAbsolute_cons]

theorem place_joinText (work : Location) (base : Path) {text : String}
    (h : (ofString text).isAbsolute = false) :
    (base.joinText text).place work = base.place work ++ (ofString text).names := by
  simp only [place, joinText, names_join h, isAbsolute_join h (parts_ofString_ne_nil text),
    List.append_assoc]

theorem parts_joinText (base : Path) {text last : String} {start : List String}
    (h : (ofString text).parts = start ++ [last]) :
    ∃ start, (base.joinText text).parts = start ++ [last] := by
  rw [joinText, join]
  split
  · exact ⟨start, h⟩
  split
  · exact ⟨base.parts.dropLast ++ start, by rw [h, List.append_assoc]⟩
  · exact ⟨base.parts ++ start, by rw [h, List.append_assoc]⟩

theorem IsEntry.parts_joinText {text : String} (h : IsEntry text) (base : Path) :
    ∃ start, (base.joinText text).parts = start ++ [text] :=
  Path.parts_joinText base (show (ofString text).parts = [] ++ [text] by
    rw [ofString_of_not_mem h.noSlash]
    rfl)

theorem namesDirectory_of_last {p : Path} {start : List String} {last : String}
    (h : p.parts = start ++ [last]) (hlast : IsName last) : p.namesDirectory = false := by
  rw [namesDirectory, h, List.getLast?_concat]
  split
  · rename_i heq
    cases heq
    exact absurd rfl hlast.1
  · rename_i heq
    cases heq
    exact absurd rfl hlast.2
  · rfl

theorem namesDirectory_joinText (base : Path) {text : String} (h : IsEntry text) :
    (base.joinText text).namesDirectory = false := by
  obtain ⟨start, hstart⟩ := h.parts_joinText base
  exact namesDirectory_of_last hstart h.isName

theorem IsEntry.place_joinText {text : String} (h : IsEntry text) (work : Location) (base : Path) :
    (base.joinText text).place work = base.place work ++ [text] := by
  rw [Path.place_joinText work base h.isAbsolute_ofString, h.names_ofString]

theorem join_concat {sep : String} {pieces : List String} (h : pieces ≠ []) (piece : String) :
    Text.join sep (pieces ++ [piece]) = Text.join sep pieces ++ sep ++ piece := by
  induction pieces with
  | nil => exact absurd rfl h
  | cons first pieces ih =>
    cases pieces with
    | nil => rfl
    | cons second pieces =>
      have := ih (by simp)
      simp only [List.cons_append, Text.join] at this ⊢
      rw [this]
      simp only [String.append_assoc]

theorem isEmpty_of_last {p : Path} {start : List String} {last : String}
    (h : p.parts = start ++ [last]) (hlast : IsName last) : p.isEmpty = false := by
  cases he : p.isEmpty with
  | false => rfl
  | true =>
    rcases isEmpty_iff.1 he with hp | hp
    · simp [hp] at h
    · have := congrArg List.getLast? h
      rw [hp, List.getLast?_concat] at this
      cases this
      exact absurd rfl hlast.1

/-- Below a name, the text of a path goes on after a slash. -/
theorem parts_joinText_of_last {base : Path} {start : List String} {last text : String}
    (hbase : base.parts = start ++ [last]) (hlast : IsName last) (h : IsEntry text) :
    (base.joinText text).parts = base.parts ++ [text] := by
  have hempty := isEmpty_of_last hbase hlast
  have hblank : base.parts.getLast? ≠ some "" := by
    rw [hbase, List.getLast?_concat]
    intro heq
    cases heq
    exact hlast.1 rfl
  rw [joinText, join, ofString_of_not_mem h.noSlash, if_neg (by simp [hempty, isAbsolute]),
    if_neg hblank]

theorem text_joinText {base : Path} {start : List String} {last text : String}
    (hbase : base.parts = start ++ [last]) (hlast : IsName last) (h : IsEntry text) :
    (base.joinText text).text = base.text ++ "/" ++ text := by
  rw [Path.text, parts_joinText_of_last hbase hlast h, join_concat (by simp [hbase])]
  rfl

/-- The last part of a path whose text has a given ending, whatever the ending. -/
theorem parts_ofString_append (a : String) :
    ∃ start last, ∀ b : String, '/' ∉ b.toList →
      (ofString (a ++ b)).parts = start ++ [last ++ b] := by
  obtain ⟨pieces, last, hsplit⟩ := Text.split_append_of_not_mem '/' a.toList
  refine ⟨pieces.map String.ofList, String.ofList last, fun b h => ?_⟩
  rw [ofString, Text.splitString, String.toList_append, hsplit _ h, List.map_append]
  simp [String.ofList_append]

/-! ## Parents -/

theorem trimParts_concat (parts : List String) (part : String) :
    trimParts (parts ++ [part]) =
      if part = "" ∨ part = "." then trimParts parts else parts ++ [part] := by
  by_cases h : part = "" ∨ part = "."
  · simp [trimParts, h]
  · simp [trimParts, h]

theorem names_concat (parts : List String) (part : String) :
    names ⟨parts ++ [part]⟩ =
      if part = "" ∨ part = "." then names ⟨parts⟩ else names ⟨parts⟩ ++ [part] := by
  by_cases h1 : part = "" <;> by_cases h2 : part = "." <;> simp [names, h1, h2]

/-- Parts trimmed at the end are none, or end in the last name. -/
theorem trimParts_spec (parts : List String) :
    (trimParts parts = [] ∧ names ⟨parts⟩ = []) ∨
      ∃ start last, trimParts parts = start ++ [last] ∧ IsName last ∧
        names ⟨parts⟩ = names ⟨start⟩ ++ [last] := by
  induction parts using List.reverseRecOn with
  | nil => exact .inl ⟨rfl, rfl⟩
  | append_singleton parts part ih =>
    rw [trimParts_concat, names_concat]
    by_cases h : part = "" ∨ part = "."
    · simpa only [if_pos h] using ih
    · simp only [if_neg h]
      exact .inr ⟨parts, part, rfl, by simpa [IsName] using h, rfl⟩

theorem head?_trimParts {parts : List String} (h : trimParts parts ≠ []) :
    (trimParts parts).head? = parts.head? := by
  induction parts using List.reverseRecOn with
  | nil => exact absurd rfl h
  | append_singleton parts part ih =>
    rw [trimParts_concat] at h ⊢
    split
    · rename_i hblank
      rw [if_pos hblank] at h
      have hne : parts ≠ [] := by
        rintro rfl
        exact h rfl
      obtain ⟨first, others, rfl⟩ := List.exists_cons_of_ne_nil hne
      rw [ih h]
      rfl
    · rfl

theorem names_trimParts (parts : List String) : names ⟨trimParts parts⟩ = names ⟨parts⟩ := by
  rcases trimParts_spec parts with ⟨htrim, hnames⟩ | ⟨start, last, htrim, hlast, hnames⟩
  · rw [htrim, hnames]
    rfl
  · rw [htrim, hnames, names_concat, if_neg (by simpa [IsName] using hlast)]

/-- Trimming at the end does not change where a path starts. -/
theorem isAbsolute_of_head? {parts rest : List String} (hrest : trimParts rest ≠ [])
    (hhead : (trimParts rest).head? = parts.head?) (hparts : trimParts parts ≠ []) :
    isAbsolute ⟨trimParts rest⟩ = isAbsolute ⟨parts⟩ := by
  have hlong {l : List String} (h : trimParts l ≠ []) {part : String} {others : List String}
      (hl : trimParts l = part :: others) (hpart : part = "") : others ≠ [] := by
    rintro rfl
    rcases trimParts_spec l with ⟨hnil, -⟩ | ⟨start, last, htrim, hlast, -⟩
    · exact h hnil
    · rw [hl] at htrim
      have htrim' : [] ++ [part] = start ++ [last] := htrim
      have := List.append_inj_right' htrim' rfl
      simp only [List.cons.injEq, and_true] at this
      exact hlast.1 (this.symm.trans hpart)
  obtain ⟨part, others, hl⟩ := List.exists_cons_of_ne_nil hrest
  obtain ⟨part', others', hl'⟩ := List.exists_cons_of_ne_nil hparts
  have hhead' := head?_trimParts hparts
  cases parts with
  | nil => exact absurd rfl hparts
  | cons first parts =>
    rw [hl, List.head?_cons, List.head?_cons, Option.some.injEq] at hhead
    rw [hl', List.head?_cons, List.head?_cons, Option.some.injEq] at hhead'
    subst hhead hhead'
    rw [hl, isAbsolute_cons, isAbsolute_cons]
    by_cases hpart : part' = ""
    · have h1 := hlong hrest hl hpart
      have h2 : parts ≠ [] := by
        rintro rfl
        exact hparts (by simp [hpart, trimParts])
      rw [List.isEmpty_eq_false_iff.2 h1, List.isEmpty_eq_false_iff.2 h2]
    · simp [hpart]

theorem parent_spec {p q : Path} (h : p.parent = some q) :
    q.names = p.names.dropLast ∧ q.isAbsolute = p.isAbsolute := by
  obtain ⟨parts⟩ := p
  rcases trimParts_spec parts with ⟨htrim, hnames⟩ | ⟨start, last, htrim, hlast, hnames⟩
  · simp only [parent, htrim] at h
    split at h
    · rename_i hdot
      cases h
      simp only [Bool.and_eq_true, Bool.not_eq_true'] at hdot
      refine ⟨?_, hdot.2.symm⟩
      rw [hnames]
      rfl
    · cases h
  · have hne : trimParts parts ≠ [] := by simp [htrim]
    have hstart : trimParts start = [] → names ⟨start⟩ = [] := by
      intro hnil
      rw [← names_trimParts, hnil]
      rfl
    rw [hnames, List.dropLast_concat]
    simp only [parent, htrim] at h
    split at h
    · simp at *
    rw [List.dropLast_concat] at h
    split at h
    · rename_i hroot
      cases h
      simp only [Bool.and_eq_true, List.isEmpty_iff] at hroot
      rw [hstart hroot.2, hroot.1]
      exact ⟨rfl, rfl⟩
    · rename_i hroot
      split at h
      · rename_i hrest
        have habs : isAbsolute ⟨parts⟩ = false := by simpa [hrest] using hroot
        rw [hstart (List.isEmpty_iff.1 hrest), habs]
        cases h
        split <;> exact ⟨rfl, rfl⟩
      · rename_i hrest
        cases h
        have hrest' : trimParts start ≠ [] := by simpa using hrest
        have hstart' : start ≠ [] := by
          rintro rfl
          exact hrest' rfl
        refine ⟨names_trimParts start, isAbsolute_of_head? hrest' ?_ hne⟩
        obtain ⟨first, others, rfl⟩ := List.exists_cons_of_ne_nil hstart'
        rw [head?_trimParts hrest', ← head?_trimParts hne, htrim]
        rfl

theorem names_of_last {p : Path} {start : List String} {last : String}
    (h : p.parts = start ++ [last]) (hlast : IsName last) : p.names = names ⟨start⟩ ++ [last] := by
  obtain ⟨parts⟩ := p
  obtain rfl : parts = start ++ [last] := h
  rw [names_concat, if_neg (by simpa [IsName] using hlast)]

theorem getLast?_place {p : Path} {start : List String} {last : String}
    (h : p.parts = start ++ [last]) (hlast : IsName last) (work : Location) :
    (p.place work).getLast? = some last := by
  rw [place, names_of_last h hlast, ← List.append_assoc, List.getLast?_concat]

theorem exists_parent {p : Path} (h : p.names ≠ []) : ∃ q, p.parent = some q := by
  obtain ⟨parts⟩ := p
  rcases trimParts_spec parts with ⟨-, hnames⟩ | ⟨start, last, htrim, -, -⟩
  · exact absurd hnames h
  · simp only [parent, htrim]
    split
    · simp at *
    split
    · exact ⟨_, rfl⟩
    split <;> exact ⟨_, rfl⟩

theorem place_parent {p q : Path} (h : p.parent = some q) (hp : p.names ≠ []) (work : Location) :
    q.place work = (p.place work).dropLast := by
  obtain ⟨hnames, habs⟩ := parent_spec h
  rw [place, place, hnames, habs, List.dropLast_append_of_ne_nil hp]

end Rollout.Path
