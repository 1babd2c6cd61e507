import Rollout.Proofs.Text.Split

/-!
Pieces and the text they make: what is cut at the separators and put together again is the same
text, and pieces without separators are found again in the text they were put together to; what a text
begins with is the first of two pieces.
-/

namespace Rollout.Text

variable {sep : Char} {text : String} {pieces : List String}

theorem join_cons (sep : String) (piece : String) (pieces : List String) (h : pieces ≠ []) :
    join sep (piece :: pieces) = piece ++ sep ++ join sep pieces := by
  cases pieces with
  | nil => exact absurd rfl h
  | cons next pieces => rfl

theorem toList_join_map_ofList (sep : Char) (cs : List Char) :
    (join (String.singleton sep) ((split sep cs).map String.ofList)).toList = cs := by
  induction cs with
  | nil => rfl
  | cons c cs ih =>
    rw [split]
    split
    · rename_i hc
      rw [List.map_cons, join_cons _ _ _ (by simpa using split_ne_nil sep cs)]
      simp [ih, hc]
    · split
      · rename_i hnil
        exact absurd hnil (split_ne_nil sep cs)
      · rename_i piece pieces hsplit
        rw [hsplit] at ih
        cases pieces with
        | nil => simpa [join] using ih
        | cons next pieces =>
          simp only [List.map_cons, join, String.toList_append, String.toList_ofList,
            List.cons_append] at ih ⊢
          rw [ih]

theorem join_splitString (sep : Char) (text : String) :
    join (String.singleton sep) (splitString sep text) = text := by
  rw [← String.toList_inj, splitString, toList_join_map_ofList]

theorem not_mem_of_mem_split {cs piece : List Char} (h : piece ∈ split sep cs) : sep ∉ piece := by
  induction cs generalizing piece with
  | nil =>
    rw [split, List.mem_singleton] at h
    simp [h]
  | cons c cs ih =>
    rw [split] at h
    split at h
    · rcases List.mem_cons.1 h with rfl | h
      · simp
      · exact ih h
    · rename_i hc
      split at h
      · rw [List.mem_singleton] at h
        simp [h, Ne.symm hc]
      · rename_i first pieces hsplit
        rcases List.mem_cons.1 h with rfl | h
        · have := ih (hsplit ▸ List.mem_cons_self)
          simp [Ne.symm hc, this]
        · exact ih (hsplit ▸ List.mem_cons_of_mem _ h)

theorem not_mem_of_mem_splitString {piece : String} (h : piece ∈ splitString sep text) :
    sep ∉ piece.toList := by
  obtain ⟨cs, hcs, rfl⟩ := List.mem_map.1 h
  rw [String.toList_ofList]
  exact not_mem_of_mem_split hcs

theorem split_append_cons {before : List Char} (h : sep ∉ before) (after : List Char) :
    split sep (before ++ sep :: after) = before :: split sep after := by
  induction before with
  | nil => simp [split]
  | cons c before ih =>
    rw [List.mem_cons, not_or] at h
    rw [List.cons_append, split, if_neg (Ne.symm h.1), ih h.2]

/-- Pieces without separators are found again. -/
theorem splitString_join (hne : pieces ≠ []) (h : ∀ piece ∈ pieces, sep ∉ piece.toList) :
    splitString sep (join (String.singleton sep) pieces) = pieces := by
  induction pieces with
  | nil => exact absurd rfl hne
  | cons piece pieces ih =>
    have hpiece := h piece List.mem_cons_self
    by_cases hpieces : pieces = []
    · subst hpieces
      simp [join, splitString, split_of_not_mem hpiece]
    · have hrest := ih hpieces fun other hother => h other (List.mem_cons_of_mem _ hother)
      rw [splitString] at hrest ⊢
      rw [join_cons _ _ _ hpieces, String.toList_append, String.toList_append,
        String.toList_singleton, List.append_assoc, List.singleton_append,
        split_append_cons hpiece, List.map_cons, hrest, String.ofList_toList]

/-- Cutting a text at its separators, by what the pieces are like. -/
theorem splitString_eq_iff (hne : pieces ≠ []) : splitString sep text = pieces ↔
    join (String.singleton sep) pieces = text ∧ ∀ piece ∈ pieces, sep ∉ piece.toList := by
  constructor
  · rintro rfl
    exact ⟨join_splitString sep text, fun _ => not_mem_of_mem_splitString⟩
  · rintro ⟨rfl, h⟩
    exact splitString_join hne h

theorem splitString_ne_nil (sep : Char) (text : String) : splitString sep text ≠ [] := by
  rw [splitString, ne_eq, List.map_eq_nil_iff]
  exact split_ne_nil sep _

theorem mem_join {c : Char} {sep : String} (h : c ∈ (join sep pieces).toList) :
    c ∈ sep.toList ∨ ∃ piece ∈ pieces, c ∈ piece.toList := by
  induction pieces with
  | nil => simp [join] at h
  | cons piece pieces ih =>
    by_cases hne : pieces = []
    · subst hne
      exact .inr ⟨piece, List.mem_cons_self, h⟩
    · rw [join_cons _ _ _ hne] at h
      simp only [String.toList_append, List.mem_append] at h
      rcases h with (h | h) | h
      · exact .inr ⟨piece, List.mem_cons_self, h⟩
      · exact .inl h
      · exact (ih h).imp_right fun ⟨piece', hmem, hc⟩ => ⟨piece', List.mem_cons_of_mem _ hmem, hc⟩

theorem mem_join_of_mem {c : Char} {piece : String} (sep : String) (hpiece : piece ∈ pieces)
    (hc : c ∈ piece.toList) : c ∈ (join sep pieces).toList := by
  induction pieces with
  | nil => cases hpiece
  | cons first pieces ih =>
    by_cases hne : pieces = []
    · subst hne
      rw [List.mem_singleton] at hpiece
      exact hpiece ▸ hc
    · rw [join_cons _ _ _ hne]
      simp only [String.toList_append, List.mem_append]
      rcases List.mem_cons.1 hpiece with rfl | hpiece
      · exact .inl (.inl hc)
      · exact .inr (ih hpiece)

/-! ## Beginnings -/

theorem after?_isSome (start text : List Char) :
    (after? start text).isSome = true ↔ start <+: text := by
  induction start generalizing text with
  | nil => simp [after?]
  | cons p start ih =>
    cases text with
    | nil => simp [after?]
    | cons c text =>
      rw [after?, List.cons_prefix_cons]
      split
      · rename_i hpc
        rw [ih, and_iff_right hpc]
      · rename_i hpc
        simp [hpc]

theorem startsWith_iff (start text : String) :
    startsWith start text = true ↔ ∃ rest, text = start ++ rest := by
  rw [startsWith, after?_isSome]
  constructor
  · rintro ⟨rest, hrest⟩
    refine ⟨String.ofList rest, ?_⟩
    rw [← String.toList_inj, String.toList_append, String.toList_ofList, hrest]
  · rintro ⟨rest, rfl⟩
    rw [String.toList_append]
    exact List.prefix_append _ _

/-! ## Ends -/

theorem endsWith_iff_suffix (tail text : String) :
    endsWith tail text = true ↔ tail.toList <:+ text.toList := by
  rw [endsWith, after?_isSome, List.reverse_prefix]

/-- A text ends in two ways only if one of the two ends in the other. -/
theorem endsWith_or_of_endsWith {tail tail' text : String} (h : endsWith tail text = true)
    (h' : endsWith tail' text = true) :
    endsWith tail tail' = true ∨ endsWith tail' tail = true := by
  simp only [endsWith_iff_suffix] at *
  exact List.suffix_or_suffix_of_suffix h h'

end Rollout.Text
