import Mathlib.Data.List.Infix
import Rollout.Proofs.Text.Joined

/-!
The lines of a text. What stands in a text without a line break stands in the line whose number
is that of the line feeds before it; and the last piece of a text is the end of it.
-/

namespace Rollout.Text

variable {sep : Char} {cs part rest piece : List Char} {pieces more : List (List Char)}

theorem occursIn_iff_infix (part text : List Char) : occursIn part text = true ↔ part <:+: text := by
  induction text with
  | nil => simp [occursIn]
  | cons c text ih => rw [occursIn, Bool.or_eq_true, after?_isSome, ih, List.infix_cons_iff]

/-! ## Pieces -/

theorem exists_split_eq_cons (sep : Char) (cs : List Char) :
    ∃ first more, split sep cs = first :: more :=
  List.exists_cons_of_ne_nil (split_ne_nil sep cs)

/-- The first piece of what is put behind a text goes on its last piece. -/
theorem split_append (sep : Char) (cs : List Char) : ∃ pieces last,
    pieces.length = cs.count sep ∧ ∀ {rest first more}, split sep rest = first :: more →
      split sep (cs ++ rest) = pieces ++ (last ++ first) :: more := by
  induction cs with
  | nil => exact ⟨[], [], rfl, fun h => h⟩
  | cons c cs ih =>
    obtain ⟨pieces, last, hlength, hsplit⟩ := ih
    by_cases hc : c = sep
    · refine ⟨[] :: pieces, last, by simp [hc, hlength], fun h => ?_⟩
      rw [List.cons_append, split, if_pos hc, hsplit h, List.cons_append]
    · have hlength : pieces.length = (c :: cs).count sep := by simp [hc, hlength]
      cases pieces with
      | nil =>
        refine ⟨[], c :: last, hlength, fun h => ?_⟩
        rw [List.cons_append, split, if_neg hc, hsplit h]
        rfl
      | cons piece pieces =>
        refine ⟨(c :: piece) :: pieces, last, hlength, fun h => ?_⟩
        rw [List.cons_append, split, if_neg hc, hsplit h]
        rfl

theorem split_append_of_not_mem_left (h : sep ∉ part) {first : List Char}
    (hrest : split sep rest = first :: more) :
    split sep (part ++ rest) = (part ++ first) :: more := by
  induction part with
  | nil => exact hrest
  | cons c part ih =>
    rw [List.mem_cons, not_or] at h
    rw [List.cons_append, split, if_neg (Ne.symm h.1), ih h.2]
    rfl

/-- What stands in a text without a separator stands in one of its pieces. -/
theorem exists_piece (before : List Char) (h : sep ∉ part) (rest : List Char) :
    ∃ piece, (split sep (before ++ (part ++ rest)))[before.count sep]? = some piece ∧
      part <:+: piece := by
  obtain ⟨first, more, hrest⟩ := exists_split_eq_cons sep rest
  obtain ⟨pieces, last, hlength, hsplit⟩ := split_append sep before
  refine ⟨last ++ (part ++ first), ?_, last, first, by simp⟩
  rw [hsplit (split_append_of_not_mem_left h hrest), List.getElem?_append_right (by omega)]
  simp [hlength]

theorem getLast?_split_append_cons (sep : Char) (before after : List Char) :
    (split sep (before ++ sep :: after)).getLast? = (split sep after).getLast? := by
  obtain ⟨pieces, last, -, hsplit⟩ := split_append sep before
  have hcons : split sep (sep :: after) = [] :: split sep after := by rw [split, if_pos rfl]
  obtain ⟨first, more, hafter⟩ := exists_split_eq_cons sep after
  rw [hsplit hcons, hafter, List.getLast?_append, List.getLast?_cons_cons]
  cases hlast : (first :: more).getLast? with
  | none => simp at hlast
  | some piece => rfl

/-- The last piece is the end of the text. -/
theorem suffix_of_getLast?_split (h : (split sep cs).getLast? = some piece) : piece <:+ cs := by
  induction cs generalizing piece with
  | nil =>
    rw [split] at h
    cases h
    exact List.nil_suffix
  | cons c cs ih =>
    obtain ⟨first, more, hcs⟩ := exists_split_eq_cons sep cs
    rw [hcs] at ih
    rw [split, hcs] at h
    split at h
    · rw [List.getLast?_cons_cons] at h
      exact (ih h).trans (List.suffix_cons _ _)
    · cases more with
      | nil =>
        cases h
        have hwhole : first = cs := by
          have hjoin := toList_join_map_ofList sep cs
          rw [hcs] at hjoin
          simpa [join] using hjoin
        exact hwhole ▸ List.suffix_rfl
      | cons next more =>
        rw [List.getLast?_cons_cons] at h
        rw [List.getLast?_cons_cons] at ih
        exact (ih h).trans (List.suffix_cons _ _)

/-! ## Lines -/

theorem dropCarriageReturn_eq (line : List Char) :
    dropCarriageReturn line = line ∨ line = dropCarriageReturn line ++ ['\r'] := by
  unfold dropCarriageReturn
  split
  · rename_i rest hrev
    right
    rw [← List.reverse_reverse line, hrev, List.reverse_cons]
  · exact .inl rfl

theorem infix_dropCarriageReturn (h : part <:+: piece) (hreturn : '\r' ∉ part) :
    part <:+: dropCarriageReturn piece := by
  rcases dropCarriageReturn_eq piece with heq | heq
  · rwa [heq]
  · rw [heq, List.infix_concat_iff] at h
    rcases h with h | h
    · rcases List.suffix_concat_iff.1 h with rfl | ⟨start, rfl, -⟩
      · exact List.nil_infix
      · simp at hreturn
    · exact h

theorem exists_line_of_piece {i : Nat} (h : pieces[i]? = some piece) (hne : piece ≠ []) :
    ∃ line, (linesOfPieces pieces)[i]? = some line ∧
      (line = piece ∨ line = dropCarriageReturn piece) := by
  induction pieces generalizing i with
  | nil => cases h
  | cons first pieces ih =>
    cases pieces with
    | nil =>
      cases i with
      | zero =>
        cases h
        exact ⟨piece, by simp [linesOfPieces, hne], .inl rfl⟩
      | succ i => cases h
    | cons second pieces =>
      rw [linesOfPieces.eq_3 _ _ (by simp)]
      cases i with
      | zero =>
        cases h
        exact ⟨_, rfl, .inr rfl⟩
      | succ i => exact ih h

/-- What stands in a text on one line stands in the line with the number of the line feeds before
it. -/
theorem exists_line {text : String} {before : List Char}
    (htext : text.toList = before ++ (part ++ rest)) (hne : part ≠ [])
    (hbreaks : '\n' ∉ part ∧ '\r' ∉ part) :
    ∃ line, (lines text)[before.count '\n']? = some line ∧ part <:+: line.toList := by
  obtain ⟨piece, hpiece, hpart⟩ := exists_piece before hbreaks.1 rest
  have hpiecene : piece ≠ [] := by
    rintro rfl
    exact hne (List.infix_nil.1 hpart)
  obtain ⟨line, hline, hcases⟩ := exists_line_of_piece hpiece hpiecene
  refine ⟨String.ofList line, ?_, ?_⟩
  · rw [lines, htext, List.getElem?_map, hline]
    rfl
  · rw [String.toList_ofList]
    rcases hcases with rfl | rfl
    · exact hpart
    · exact infix_dropCarriageReturn hpart hbreaks.2

end Rollout.Text
