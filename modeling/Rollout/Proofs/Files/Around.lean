import Rollout.Proofs.Files.Apart
import Rollout.Proofs.Files.Pruned

/-!
Changes around a few spots of a tree. An effect changes what is below the location it is about and
makes directories on the way there, so what lies to the side of all spots that a list of effects
is about stays exactly what it was.
-/

namespace Rollout

namespace FileTree

variable {t t' t'' : FileTree} {top spot l : Location} {S S' : Location → Prop} {p : Path}

/-- Nothing changed but at spots, below them and on the way to them. -/
structure Around (S : Location → Prop) (t t' : FileTree) : Prop where
  work : t'.workDir = t.workDir
  entry : ∀ l, (∀ s, S s → ¬s <+: l ∧ ¬l <+: s) → t'.entry? l = t.entry? l

namespace Around

theorem refl (S : Location → Prop) (t : FileTree) : Around S t t := ⟨rfl, fun _ _ => rfl⟩

theorem trans (h : Around S t t') (h' : Around S t' t'') : Around S t t'' :=
  ⟨h'.work.trans h.work, fun l hl => (h'.entry l hl).trans (h.entry l hl)⟩

/-- Spots below others are covered by them. -/
theorem mono (h : Around S t t') (hS : ∀ s, S s → ∃ s', S' s' ∧ s' <+: s) : Around S' t t' := by
  refine ⟨h.work, fun l hl => h.entry l fun s hs => ?_⟩
  obtain ⟨s', hs', hbelow⟩ := hS s hs
  obtain ⟨hdown, hup⟩ := hl s' hs'
  refine ⟨fun hsl => hdown (hbelow.trans hsl), fun hls => ?_⟩
  rcases List.prefix_or_prefix_of_prefix hls hbelow with h | h
  · exact hup h
  · exact hdown h

end Around

theorem Confined.around (h : Confined l t t') : Around (· = l) t t' :=
  ⟨h.work, fun l' hl' => h.entry l' (hl' l rfl).2⟩

theorem Paved.around (h : Paved l t t') : Around (· = l) t t' := h.confined.around

theorem Pruned.around (h : Pruned (l <+: ·) t t') : Around (· = l) t t' :=
  ⟨h.work, fun _ hl' => h.same (hl' l rfl).1⟩

/-- Locations that differ in one name lie to the side of each other. -/
theorem beside_of_ne {start : Location} {a b : String} {l l' : Location} (h : a ≠ b)
    (hl : start ++ [a] <+: l) (hl' : start ++ [b] <+: l') : ¬l <+: l' ∧ ¬l' <+: l := by
  have hno {a b : String} {l l' : Location} (h : a ≠ b) (hl : start ++ [a] <+: l)
      (hl' : start ++ [b] <+: l') : ¬l <+: l' := by
    intro hprefix
    have heq := List.prefix_of_prefix_length_le (hl.trans hprefix) hl' (by simp)
    rw [List.prefix_append_right_inj, List.cons_prefix_cons] at heq
    exact h heq.1
  exact ⟨hno h hl hl', hno h.symm hl' hl⟩

end FileTree

open FileTree

namespace Effect

/-- The path an effect is about. -/
def path : Effect → Path
  | .makeDirs p | .replace p _ | .discard p | .remove p | .removeTree p | .append p _ => p

/-- An effect on a location at or below a spot. Nothing is appended to a file, and a directory is
removed only if the run is not in it. -/
structure Aims (top spot work : Location) (e : Effect) : Prop where
  below : Below work top e.path
  spot : spot <+: e.path.place work
  whole : ∀ p content, e ≠ .append p content
  outside : ∀ p, e = .removeTree p → ¬p.place work <+: work

variable {top spot : Location} {t t' : FileTree} {e : Effect} {es : List Effect}

/-- Such an effect leaves the tree tidy and changes it around the spot. -/
theorem Aims.perform (h : e.Aims top spot t.workDir) (ht : t.Tidy top)
    {r : Except FileError Unit} (hrun : e.perform t = (r, t')) :
    t'.Tidy top ∧ Around (· = spot) t t' := by
  have hspot : ∀ s, s = e.path.place t.workDir → ∃ s', s' = spot ∧ s' <+: s :=
    fun s hs => ⟨spot, rfl, hs ▸ h.spot⟩
  cases e with
  | makeDirs p =>
    have hrun' : t.makeDirs p = (t', r) := Prod.ext (congrArg Prod.snd hrun) (congrArg Prod.fst hrun)
    exact ⟨(FileTree.makeDirs_spec ht h.below.near hrun').1,
      (makeDirsFrom_paved _ ht h.below.near hrun').around.mono hspot⟩
  | replace p content =>
    exact ⟨(replace_spec ht h.below hrun).1, (replace_confined ht h.below hrun).1.around.mono hspot⟩
  | discard p =>
    refine ⟨(discard_spec ht h.below hrun).1, ?_⟩
    rcases discard_eq ht.free h.below hrun with rfl | rfl
    · exact .refl ..
    · exact ((pruned_drop h.below.place_ne_nil).mono
        (fun l hl => hl ▸ List.prefix_rfl)).around.mono hspot
  | remove p =>
    simp only [Effect.perform, Disk.step] at hrun
    split at hrun
    · rename_i hremove
      cases hrun
      exact ⟨(remove_ok ht h.below hremove).1,
        (remove_confined ht.free h.below hremove).around.mono hspot⟩
    · cases hrun
      exact ⟨ht, .refl ..⟩
  | removeTree p =>
    simp only [Effect.perform, Disk.step] at hrun
    split at hrun
    · rename_i hremove
      cases hrun
      obtain rfl := removeTree_eq ht.free h.below hremove
      exact ⟨ht.of_cuts h.below.below h.below.place_ne_nil (h.outside p rfl)
        ⟨rfl, fun l => entry?_dropAll h.below.place_ne_nil⟩,
        (pruned_dropAll h.below.place_ne_nil).around.mono hspot⟩
    · cases hrun
      exact ⟨ht, .refl ..⟩
  | append p content => exact absurd rfl (h.whole p content)

/-- So do several, however far they come. -/
theorem around_of_performAll (h : ∀ e ∈ es, e.Aims top spot t.workDir) (ht : t.Tidy top)
    {r : Except FileError Unit} (hrun : performAll es t = (r, t')) :
    t'.Tidy top ∧ Around (· = spot) t t' := by
  induction es generalizing t with
  | nil =>
    obtain ⟨rfl, -⟩ := Outcome.performAll_nil hrun
    exact ⟨ht, .refl ..⟩
  | cons e es ih =>
    have he := h e List.mem_cons_self
    rcases Outcome.performAll_cons hrun with ⟨hfirst, -⟩ | ⟨t₁, hfirst, hrest⟩
    · exact he.perform ht hfirst
    · obtain ⟨ht₁, haround⟩ := he.perform ht hfirst
      obtain ⟨ht', haround'⟩ := ih
        (fun e he => haround.work.symm ▸ h e (List.mem_cons_of_mem _ he)) ht₁ hrest
      exact ⟨ht', haround.trans haround'⟩

end Effect

end Rollout
