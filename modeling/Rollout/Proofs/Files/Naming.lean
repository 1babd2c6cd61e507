import Mathlib.Data.List.Basic
import Rollout.Proofs.Files.Listing
import Rollout.Proofs.Text.Joined

/-!
What a file below a directory is called. The name tells the components of the path apart from those of
every other path that was joined to the directory, so two paths of one name lead to the same place.
-/

namespace Rollout

namespace Path

variable {base p q rel : Path} {text : String} {names names' parts : List String}

/-- Parts that were cut from a text. -/
structure Clean (p : Path) : Prop where
  ne_nil : p.parts ≠ []
  noSlash : ∀ part ∈ p.parts, '/' ∉ part.toList

instance (p : Path) : Decidable p.Clean :=
  decidable_of_iff (p.parts ≠ [] ∧ ∀ part ∈ p.parts, '/' ∉ part.toList)
    ⟨fun h => ⟨h.1, h.2⟩, fun h => ⟨h.ne_nil, h.noSlash⟩⟩

instance (text : String) : Decidable (IsEntry text) :=
  decidable_of_iff ('/' ∉ text.toList ∧ IsName text ∧ text ≠ "..")
    ⟨fun h => ⟨h.1, h.2.1, h.2.2⟩, fun h => ⟨h.noSlash, h.isName, h.noStepBack⟩⟩

theorem clean_ofString (text : String) : (ofString text).Clean :=
  ⟨parts_ofString_ne_nil text, fun _ => Text.not_mem_of_mem_splitString⟩

/-- The parts of two paths that are joined. -/
theorem parts_join (base rel : Path) : (base.join rel).parts = rel.parts ∧
      (rel.isAbsolute = true ∨ base.isEmpty = true) ∨
    base.isEmpty = false ∧ rel.isAbsolute = false ∧ ∃ start, start ≠ [] ∧
      start.head? = base.parts.head? ∧ (∀ part ∈ start, part ∈ base.parts) ∧
      (base.join rel).parts = start ++ rel.parts := by
  unfold join
  by_cases hrel : rel.isAbsolute = true
  · exact .inl (by simp [hrel])
  by_cases hempty : base.isEmpty = true
  · exact .inl (by simp [hempty])
  rw [if_neg (by simp [hrel, hempty])]
  simp only [Bool.not_eq_true] at hrel hempty
  refine .inr ⟨hempty, hrel, ?_⟩
  have hparts : base.parts ≠ [] ∧ base.parts ≠ [""] := by
    rw [← not_or, ← isEmpty_iff]
    simp [hempty]
  split
  · rename_i hlast
    obtain ⟨start, hstart⟩ := List.getLast?_eq_some_iff.1 hlast
    have hne : start ≠ [] := by
      rintro rfl
      exact hparts.2 hstart
    refine ⟨start, hne, ?_, fun part hpart => ?_, by simp [hstart]⟩
    · rw [hstart, List.head?_append_of_ne_nil _ hne]
    · rw [hstart]
      exact List.mem_append_left _ hpart
  · exact ⟨base.parts, hparts.1, rfl, fun _ h => h, rfl⟩

theorem Clean.join (hbase : base.Clean) (hrel : rel.Clean) : (base.join rel).Clean := by
  rcases parts_join base rel with ⟨hparts, -⟩ | ⟨-, -, start, -, -, hstart, hparts⟩
  · exact ⟨hparts ▸ hrel.ne_nil, hparts ▸ hrel.noSlash⟩
  · refine ⟨by simp [hparts, hrel.ne_nil], fun part hpart => ?_⟩
    rw [hparts] at hpart
    rcases List.mem_append.1 hpart with hpart | hpart
    · exact hbase.noSlash part (hstart part hpart)
    · exact hrel.noSlash part hpart

theorem components_join (hbase : base.isEmpty = false) (hrel : rel.isAbsolute = false)
    (hne : rel.parts ≠ []) : (base.join rel).components = base.components ++ rel.names := by
  rcases parts_join base rel with ⟨-, h | h⟩ | ⟨-, -, start, hstart, hhead, -, hparts⟩
  · rw [hrel] at h
    cases h
  · rw [hbase] at h
    cases h
  · have hhead' : (base.join rel).parts.head? = base.parts.head? := by
      rw [hparts, List.head?_append_of_ne_nil _ hstart, hhead]
    rw [components, components, isAbsolute_join hrel hne, hhead', names_join hrel]
    split
    · rfl
    split
    · rfl
    · rfl

/-- The components of what is joined to a path begin with its own. -/
theorem prefix_components_join (base : Path) (hrel : rel.isAbsolute = false) (hne : rel.parts ≠ []) :
    base.components <+: (base.join rel).components := by
  cases hbase : base.isEmpty with
  | true =>
    have hnil : base.components = [] := by
      rcases isEmpty_iff.1 hbase with hp | hp <;> simp [components, names, isAbsolute, hp]
    rw [hnil]
    exact List.nil_prefix
  | false => exact ⟨rel.names, (components_join hbase hrel hne).symm⟩

/-- A path that was joined to a directory, step by step. -/
structure Placed (base p : Path) : Prop where
  clean : p.Clean
  start : p.isAbsolute = true ∨ base.components <+: p.components

theorem Clean.placed (h : base.Clean) : Placed base base := ⟨h, .inr List.prefix_rfl⟩

theorem Placed.join (h : Placed base p) (hrel : rel.Clean) : Placed base (p.join rel) := by
  refine ⟨h.clean.join hrel, ?_⟩
  cases habsolute : rel.isAbsolute with
  | true => simp [Path.join, habsolute]
  | false =>
    refine h.start.imp (fun hp => ?_) fun hp => ?_
    · rw [isAbsolute_join habsolute hrel.ne_nil, hp]
    · exact hp.trans (prefix_components_join p habsolute hrel.ne_nil)

/-! ## Components -/

/-- A component other than the root. -/
def IsComponent (part : String) : Prop := part ≠ "" ∧ '/' ∉ part.toList

theorem Clean.isComponent_of_mem_names (h : p.Clean) {name : String} (hname : name ∈ p.names) :
    IsComponent name :=
  ⟨(isName_of_mem_names hname).1, h.noSlash name (List.mem_filter.1 hname).1⟩

/-- The components tell how a path begins and which names it goes through. -/
theorem eq_of_components (hp : p.Clean) (hq : q.Clean) (h : p.components = q.components) :
    p.isAbsolute = q.isAbsolute ∧ p.names = q.names := by
  have hroot {p : Path} (hp : p.Clean) : "/" ∉ p.names := fun hmem =>
    (hp.isComponent_of_mem_names hmem).2 (by simp)
  have hdot {p : Path} : "." ∉ p.names := fun hmem => (isName_of_mem_names hmem).2 rfl
  have hsplit (p : Path) : p.components = "/" :: p.names ∧ p.isAbsolute = true ∨
      p.components = "." :: p.names ∧ p.isAbsolute = false ∨
      p.components = p.names ∧ p.isAbsolute = false := by
    unfold components
    cases p.isAbsolute with
    | true => simp
    | false => by_cases h : p.parts.head? = some "." <;> simp [h]
  rcases hsplit p with ⟨hpc, hpa⟩ | ⟨hpc, hpa⟩ | ⟨hpc, hpa⟩ <;>
  rcases hsplit q with ⟨hqc, hqa⟩ | ⟨hqc, hqa⟩ | ⟨hqc, hqa⟩ <;>
  rw [hpc, hqc] at h
  · exact ⟨hpa.trans hqa.symm, (List.cons.inj h).2⟩
  · exact absurd (List.cons.inj h).1 (by decide)
  · exact absurd (h ▸ List.mem_cons_self) (hroot hq)
  · exact absurd (List.cons.inj h).1 (by decide)
  · exact ⟨hpa.trans hqa.symm, (List.cons.inj h).2⟩
  · exact absurd (h ▸ List.mem_cons_self) (hdot (p := q))
  · exact absurd (h ▸ List.mem_cons_self) (hroot hp)
  · exact absurd (h ▸ List.mem_cons_self) (hdot (p := p))
  · exact ⟨hpa.trans hqa.symm, h⟩

/-- The root stands at the beginning or nowhere. -/
theorem Clean.isComponent_of_append (h : p.Clean) {start rest : List String}
    (hsplit : p.components = start ++ rest) (hstart : start ≠ []) :
    ∀ part ∈ rest, IsComponent part := by
  obtain ⟨first, start, rfl⟩ := List.exists_cons_of_ne_nil hstart
  intro part hpart
  have hmem : part ∈ start ++ rest := List.mem_append_right _ hpart
  unfold components at hsplit
  split at hsplit
  · rw [List.cons_append, List.cons.injEq] at hsplit
    exact h.isComponent_of_mem_names (hsplit.2 ▸ hmem)
  split at hsplit
  · rw [List.cons_append, List.cons.injEq] at hsplit
    exact h.isComponent_of_mem_names (hsplit.2 ▸ hmem)
  · refine h.isComponent_of_mem_names (hsplit ▸ ?_)
    exact List.mem_append_right _ hpart

/-- Components as they are written: the root is a slash that another one follows. -/
theorem splitString_join_components {parts : List String} (hparts : ∀ part ∈ parts, IsComponent part) :
    Text.splitString '/' (Text.join "/" parts) = (if parts = [] then [""] else parts) ∧
      Text.splitString '/' (Text.join "/" ("/" :: parts)) = "" :: "" :: parts := by
  have hslash (part : String) (h : part ∈ parts) : '/' ∉ part.toList := (hparts part h).2
  by_cases hnil : parts = []
  · subst hnil
    exact ⟨rfl, rfl⟩
  · refine ⟨?_, ?_⟩
    · rw [if_neg hnil]
      exact Text.splitString_join hnil hslash
    · have hblank : Text.join "/" ("/" :: parts) = Text.join "/" ("" :: "" :: parts) := by
        rw [Text.join_cons _ _ _ hnil, Text.join_cons _ _ _ (List.cons_ne_nil _ _),
          Text.join_cons _ _ _ hnil]
        simp only [String.empty_append, String.append_assoc]
      rw [hblank]
      refine Text.splitString_join (List.cons_ne_nil _ _) fun part hpart => ?_
      rcases List.mem_cons.1 hpart with rfl | hpart
      · simp
      rcases List.mem_cons.1 hpart with rfl | hpart
      · simp
      · exact hslash part hpart

/-- What the name of a path below a directory is put together from. -/
inductive IsNaming : List String → Prop
  | below (parts : List String) (h : ∀ part ∈ parts, IsComponent part) : IsNaming parts
  | root (parts : List String) (h : ∀ part ∈ parts, IsComponent part) : IsNaming ("/" :: parts)

theorem Clean.isNaming (h : p.Clean) : IsNaming p.components := by
  unfold components
  split
  · exact .root _ fun _ => h.isComponent_of_mem_names
  split
  · refine .below _ fun part hpart => ?_
    rcases List.mem_cons.1 hpart with rfl | hpart
    · exact ⟨by decide, by decide⟩
    · exact h.isComponent_of_mem_names hpart
  · exact .below _ fun _ => h.isComponent_of_mem_names

theorem IsNaming.eq_of_join (h : IsNaming parts) (h' : IsNaming names)
    (heq : Text.join "/" parts = Text.join "/" names) : parts = names := by
  have hsplit := congrArg (Text.splitString '/') heq
  have hblank {l : List String} (hl : ∀ part ∈ l, IsComponent part) : "" ∉ l :=
    fun hmem => (hl _ hmem).1 rfl
  -- the pieces of a name below a directory are not blank, the first two of the root are
  have hroot {l l' : List String} (hl : ∀ part ∈ l, IsComponent part) :
      (if l = [] then [""] else l) ≠ "" :: "" :: l' := by
    intro heq
    split at heq
    · cases heq
    · exact hblank hl (heq ▸ List.mem_cons_self)
  cases h with
  | below _ hparts =>
    rw [(splitString_join_components hparts).1] at hsplit
    cases h' with
    | below _ hnames =>
      rw [(splitString_join_components hnames).1] at hsplit
      split at hsplit
      · rename_i hnil
        split at hsplit
        · rename_i hnil'
          rw [hnil, hnil']
        · exact absurd (hsplit ▸ List.mem_cons_self) (hblank hnames)
      · split at hsplit
        · exact absurd (hsplit ▸ List.mem_cons_self) (hblank hparts)
        · exact hsplit
    | root names hnames =>
      rw [(splitString_join_components hnames).2] at hsplit
      exact absurd hsplit (hroot hparts)
  | root parts hparts =>
    rw [(splitString_join_components hparts).2] at hsplit
    cases h' with
    | below _ hnames =>
      rw [(splitString_join_components hnames).1] at hsplit
      exact absurd hsplit.symm (hroot hnames)
    | root names hnames =>
      rw [(splitString_join_components hnames).2] at hsplit
      rw [(List.cons.inj (List.cons.inj hsplit).2).2]

/-- The components of a path, from what its name is made of. -/
theorem Placed.relativeText_eq (h : Placed base p) : ∃ parts,
    base.relativeText p = Text.join "/" parts ∧ IsNaming parts ∧
      p.components = if parts.head? = some "/" then parts else base.components ++ parts := by
  unfold relativeText
  cases hdrop : dropNames? base.components p.components with
  | some rest =>
    have hsplit := dropNames?_eq_some.1 hdrop
    refine ⟨rest, rfl, ?_⟩
    by_cases hbase : base.components = []
    · rw [hbase, List.nil_append] at hsplit
      exact ⟨hsplit ▸ h.clean.isNaming, by simp [hbase, hsplit]⟩
    · have hrest := h.clean.isComponent_of_append hsplit hbase
      refine ⟨.below rest hrest, ?_⟩
      rw [if_neg, hsplit]
      intro hhead
      exact (hrest "/" (List.mem_of_mem_head? hhead)).2 (by simp)
  | none =>
    have hbase : ¬base.components <+: p.components := by
      rintro ⟨rest, hrest⟩
      rw [dropNames?_eq_some.2 hrest.symm] at hdrop
      cases hdrop
    have habsolute := h.start.resolve_right hbase
    refine ⟨_, rfl, h.clean.isNaming, ?_⟩
    rw [if_pos]
    simp [components, habsolute]

/-- Paths of one name go through the same names from the same place. -/
theorem Placed.eq_of_relativeText (hp : Placed base p) (hq : Placed base q)
    (h : base.relativeText p = base.relativeText q) :
    p.isAbsolute = q.isAbsolute ∧ p.names = q.names := by
  obtain ⟨parts, hparts, hnaming, hcomponents⟩ := hp.relativeText_eq
  obtain ⟨parts', hparts', hnaming', hcomponents'⟩ := hq.relativeText_eq
  rw [hparts, hparts'] at h
  obtain rfl := hnaming.eq_of_join hnaming' h
  exact eq_of_components hp.clean hq.clean (hcomponents.trans hcomponents'.symm)

end Path

end Rollout
