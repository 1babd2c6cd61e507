import Rollout.Config.Warning
import Rollout.Proofs.Text.EditDistance

/-!
The name that is suggested for a key nobody knows. How far two texts are apart is the least number of
edits of single bytes between them, and so a distance in the usual sense; what is suggested is the
first of the known names that no other one is nearer than, unless even that one is too far away.
-/

namespace Rollout

namespace Text

/-- The bytes of a text. -/
def bytesOf (s : String) : List UInt8 := s.toByteArray.data.toList

theorem bytesOf_inj {s t : String} : bytesOf s = bytesOf t ↔ s = t := by
  constructor
  · intro h
    exact String.toByteArray_inj.1 (ByteArray.ext (Array.toList_inj.1 h))
  · rintro rfl
    rfl

theorem isLeast_editDistance (s t : String) :
    IsLeast {n | Turns n (bytesOf s) (bytesOf t)} (editDistance s t) := by
  unfold editDistance
  split
  · rename_i hsame
    exact ⟨hsame ▸ .none _, fun _ _ => Nat.zero_le _⟩
  · exact isLeast_editDistanceBytes ..

theorem editDistance_le {s t : String} {n : Nat} (h : Turns n (bytesOf s) (bytesOf t)) :
    editDistance s t ≤ n :=
  (isLeast_editDistance s t).2 h

theorem turns_editDistance (s t : String) :
    Turns (editDistance s t) (bytesOf s) (bytesOf t) :=
  (isLeast_editDistance s t).1

theorem editDistance_comm (s t : String) : editDistance s t = editDistance t s :=
  Nat.le_antisymm (editDistance_le (turns_editDistance t s).symm)
    (editDistance_le (turns_editDistance s t).symm)

theorem editDistance_eq_zero {s t : String} : editDistance s t = 0 ↔ s = t := by
  constructor
  · intro h
    have hturns := turns_editDistance s t
    rw [h] at hturns
    exact bytesOf_inj.1 hturns.eq_of_zero
  · rintro rfl
    exact Nat.le_zero.1 (editDistance_le (.none _))

theorem editDistance_triangle (s t u : String) :
    editDistance s u ≤ editDistance s t + editDistance t u :=
  editDistance_le ((turns_editDistance s t).trans (turns_editDistance t u))

end Text

namespace ConfigWarning

open Text

variable {text name : String} {names : List String}

/-- The first of the names nearest to a text: all names before it are farther, and no name behind it
is nearer. -/
def IsFirstNearest (text : String) (names : List String) (name : String) : Prop :=
  ∃ before after, names = before ++ name :: after ∧
    (∀ other ∈ before, editDistance text name < editDistance text other) ∧
    ∀ other ∈ after, editDistance text name ≤ editDistance text other

theorem IsFirstNearest.mem (h : IsFirstNearest text names name) : name ∈ names := by
  obtain ⟨before, after, rfl, -, -⟩ := h
  exact List.mem_append_right _ (.head _)

theorem IsFirstNearest.le (h : IsFirstNearest text names name) {other : String}
    (hother : other ∈ names) : editDistance text name ≤ editDistance text other := by
  obtain ⟨before, after, rfl, hbefore, hafter⟩ := h
  rcases List.mem_append.1 hother with hmem | hmem
  · exact Nat.le_of_lt (hbefore other hmem)
  · rcases List.mem_cons.1 hmem with rfl | hmem
    · exact Nat.le_refl _
    · exact hafter other hmem

theorem IsFirstNearest.unique {name' : String} (h : IsFirstNearest text names name)
    (h' : IsFirstNearest text names name') : name = name' := by
  have hle := h.le h'.mem
  have hle' := h'.le h.mem
  obtain ⟨before, after, rfl, hbefore, -⟩ := h
  obtain ⟨before', after', heq, hbefore', -⟩ := h'
  -- of two names that stand apart the one behind would be nearer than the one before it
  rcases List.append_eq_append_iff.1 heq with ⟨more, rfl, hrest⟩ | ⟨more, rfl, hrest⟩
  · cases more with
    | nil => exact (List.cons.inj hrest).1
    | cons x more =>
      obtain ⟨rfl, -⟩ := List.cons.inj hrest
      have := hbefore' name (List.mem_append_right _ (.head _))
      omega
  · cases more with
    | nil => exact (List.cons.inj hrest).1.symm
    | cons x more =>
      obtain ⟨rfl, -⟩ := List.cons.inj hrest
      have := hbefore name' (List.mem_append_right _ (.head _))
      omega

theorem nearest_ne_none (h : names ≠ []) : nearest text names ≠ none := by
  cases names with
  | nil => exact absurd rfl h
  | cons name names =>
    rw [nearest]
    split
    · split <;> nofun
    · nofun

/-- The search ends with the first of the nearest names, and its distance. -/
theorem isFirstNearest_of_nearest {distance : Nat} (h : nearest text names = some (name, distance)) :
    IsFirstNearest text names name ∧ distance = editDistance text name := by
  induction names generalizing name distance with
  | nil => cases h
  | cons first names ih =>
    rw [nearest] at h
    cases hrest : nearest text names with
    | none =>
      rw [hrest] at h
      cases h
      obtain rfl : names = [] :=
        Classical.byContradiction fun hne => nearest_ne_none hne hrest
      exact ⟨⟨[], [], rfl, nofun, nofun⟩, rfl⟩
    | some best =>
      obtain ⟨other, d⟩ := best
      obtain ⟨hother, rfl⟩ := ih hrest
      rw [hrest] at h
      dsimp only at h
      split at h
      next hlt =>
        cases h
        obtain ⟨before, after, rfl, hbefore, hafter⟩ := hother
        refine ⟨⟨first :: before, after, rfl, ?_, hafter⟩, rfl⟩
        intro o ho
        rcases List.mem_cons.1 ho with rfl | ho
        · exact hlt
        · exact hbefore o ho
      next hlt =>
        cases h
        refine ⟨⟨[], names, rfl, nofun, fun o ho => ?_⟩, rfl⟩
        have := hother.le ho
        omega

theorem exists_nearest (text : String) : ∃ name,
    nearest text knownNames = some (name, editDistance text name) ∧
      IsFirstNearest text knownNames name := by
  obtain ⟨⟨name, distance⟩, hbest⟩ :=
    Option.ne_none_iff_exists'.1 (nearest_ne_none (List.cons_ne_nil _ _ : knownNames ≠ []))
  obtain ⟨hfirst, rfl⟩ := isFirstNearest_of_nearest hbest
  exact ⟨name, hbest, hfirst⟩

/-- What is suggested is the first of the nearest known names if it is near enough. -/
theorem suggestion_eq_some : suggestion? text = some name ↔
    IsFirstNearest text knownNames name ∧ editDistance text name ≤ suggestionDistance := by
  obtain ⟨other, hbest, hother⟩ := exists_nearest text
  -- an equation of the definition would be proved by running the search
  delta suggestion?
  rw [hbest]
  dsimp only
  constructor
  · intro h
    split at h
    next hnear =>
      cases h
      exact ⟨hother, hnear⟩
    next => cases h
  · rintro ⟨hname, hnear⟩
    obtain rfl := hother.unique hname
    exact if_pos hnear

theorem suggestion_isSome : (suggestion? text).isSome = true ↔
    ∃ name ∈ knownNames, editDistance text name ≤ suggestionDistance := by
  rw [Option.isSome_iff_exists]
  constructor
  · rintro ⟨name, hname⟩
    obtain ⟨hfirst, hnear⟩ := suggestion_eq_some.1 hname
    exact ⟨name, hfirst.mem, hnear⟩
  · rintro ⟨name, hmem, hnear⟩
    obtain ⟨best, -, hfirst⟩ := exists_nearest text
    exact ⟨best, suggestion_eq_some.2 ⟨hfirst, Nat.le_trans (hfirst.le hmem) hnear⟩⟩

/-- The distance that suggestions go by is the least number of insertions, deletions and replacements
of single bytes. It is symmetric, nothing but a text itself is at distance zero, and no detour is
shorter. For a key there is a suggestion exactly if some known name is within a distance of two, and
then it is the first known name at the least distance. -/
theorem suggests_nearest :
    (∀ s t, IsLeast {n | Turns n (bytesOf s) (bytesOf t)} (editDistance s t)) ∧
    (∀ s t, editDistance s t = editDistance t s) ∧
    (∀ s t, editDistance s t = 0 ↔ s = t) ∧
    (∀ s t u, editDistance s u ≤ editDistance s t + editDistance t u) ∧
    ∀ key, ((suggestion? key).isSome = true ↔ ∃ name ∈ knownNames, editDistance key name ≤ 2) ∧
      ∀ name, suggestion? key = some name ↔
        IsFirstNearest key knownNames name ∧ editDistance key name ≤ 2 :=
  ⟨isLeast_editDistance, editDistance_comm, fun _ _ => editDistance_eq_zero, editDistance_triangle,
    fun _ => ⟨suggestion_isSome, fun _ => suggestion_eq_some⟩⟩

end ConfigWarning

end Rollout
