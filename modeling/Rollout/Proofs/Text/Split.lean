import Rollout.Text.Split

/-!
Cutting what was put together gives the parts back.
-/

namespace Rollout.Text

variable {sep : Char}

theorem after?_append (start rest : List Char) : after? start (start ++ rest) = some rest := by
  induction start with
  | nil => rfl
  | cons c start ih => simp [after?, ih]

theorem after?_eq_some {start text rest : List Char} :
    after? start text = some rest ↔ text = start ++ rest := by
  constructor
  · intro h
    induction start generalizing text with
    | nil => exact Option.some.inj h
    | cons c start ih =>
      cases text with
      | nil => cases h
      | cons d text =>
        obtain ⟨rfl, hrest⟩ := Option.ite_none_right_eq_some.1 h
        rw [ih hrest, List.cons_append]
  · rintro rfl
    exact after?_append start rest

theorem splitFirst_append {before : List Char} (h : sep ∉ before) (after : List Char) :
    splitFirst sep (before ++ sep :: after) = some (before, after) := by
  induction before with
  | nil => simp [splitFirst]
  | cons c before ih =>
    rw [List.mem_cons, not_or] at h
    simp [splitFirst, Ne.symm h.1, ih h.2]

theorem split_of_not_mem {cs : List Char} (h : sep ∉ cs) : split sep cs = [cs] := by
  induction cs with
  | nil => rfl
  | cons c cs ih =>
    rw [List.mem_cons, not_or] at h
    simp [split, Ne.symm h.1, ih h.2]

/-- What follows the last separator of a text, whatever is put behind it. -/
theorem split_append_of_not_mem (sep : Char) (a : List Char) :
    ∃ pieces last, ∀ b, sep ∉ b → split sep (a ++ b) = pieces ++ [last ++ b] := by
  induction a with
  | nil => exact ⟨[], [], fun b h => split_of_not_mem h⟩
  | cons c a ih =>
    obtain ⟨pieces, last, hsplit⟩ := ih
    by_cases hc : c = sep
    · refine ⟨[] :: pieces, last, fun b h => ?_⟩
      rw [List.cons_append, split, hsplit b h, if_pos hc]
      rfl
    · cases pieces with
      | nil =>
        refine ⟨[], c :: last, fun b h => ?_⟩
        rw [List.cons_append, split, hsplit b h, if_neg hc]
        rfl
      | cons piece pieces =>
        refine ⟨(c :: piece) :: pieces, last, fun b h => ?_⟩
        rw [List.cons_append, split, hsplit b h, if_neg hc]
        rfl

end Rollout.Text
