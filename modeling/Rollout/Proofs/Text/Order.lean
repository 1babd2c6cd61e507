import Rollout.Text.Order

/-!
Sorting by insertion: the values of a sorted list are those of the list, and they stand in order.
-/

namespace Rollout.Text

variable {α : Type} (before : α → α → Bool)

theorem insertWith_perm (a : α) (l : List α) : (insertWith before a l).Perm (a :: l) := by
  induction l with
  | nil => exact .refl _
  | cons b l ih =>
    rw [insertWith]
    split
    · exact .refl _
    · exact (ih.cons b).trans (.swap a b l)

theorem sortWith_perm (l : List α) : (sortWith before l).Perm l := by
  have hfold (sorted : List α) :
      (l.foldl (fun sorted a => insertWith before a sorted) sorted).Perm (l ++ sorted) := by
    induction l generalizing sorted with
    | nil => exact .refl _
    | cons a l ih =>
      calc l.foldl (fun sorted a => insertWith before a sorted) (insertWith before a sorted)
        _ |>.Perm (l ++ insertWith before a sorted) := ih _
        _ |>.Perm (l ++ a :: sorted) := (insertWith_perm before a sorted).append_left l
        _ |>.Perm (a :: l ++ sorted) := List.perm_middle
  have hall := hfold []
  rwa [List.append_nil] at hall

/-! ## The result is in order -/

variable {before} {l : List α}

/-- Inserting a new value into a list in order keeps it in order. -/
theorem insertWith_ordered
    (htrans : ∀ a b c, before a b = true → before b c = true → before a c = true)
    (htotal : ∀ a b, before a b = false → before b a = false → a = b) {a : α}
    (h : l.Pairwise fun a b => before a b = true) (ha : a ∉ l) :
    (insertWith before a l).Pairwise fun a b => before a b = true := by
  induction l with
  | nil => exact List.pairwise_singleton _ _
  | cons b l ih =>
    rw [List.pairwise_cons] at h
    rw [List.mem_cons, not_or] at ha
    rw [insertWith]
    split
    · rename_i hab
      refine List.pairwise_cons.2 ⟨List.forall_mem_cons.2 ⟨hab, fun c hc => ?_⟩,
        List.pairwise_cons.2 h⟩
      exact htrans a b c hab (h.1 c hc)
    · rename_i hab
      refine List.pairwise_cons.2 ⟨fun c hc => ?_, ih h.2 ha.2⟩
      rcases List.mem_cons.1 ((insertWith_perm before a l).mem_iff.1 hc) with rfl | hc
      · refine Bool.of_not_eq_false fun hba => ha.1 (htotal c b (by simpa using hab) hba)
      · exact h.1 c hc

theorem sortWith_ordered
    (htrans : ∀ a b c, before a b = true → before b c = true → before a c = true)
    (htotal : ∀ a b, before a b = false → before b a = false → a = b) (h : l.Nodup) :
    (sortWith before l).Pairwise fun a b => before a b = true := by
  have hfold (sorted : List α) (hsorted : sorted.Pairwise fun a b => before a b = true)
      (hnew : (l ++ sorted).Nodup) :
      (l.foldl (fun sorted a => insertWith before a sorted) sorted).Pairwise
        fun a b => before a b = true := by
    clear h
    induction l generalizing sorted with
    | nil => exact hsorted
    | cons a l ih =>
      rw [List.cons_append, List.nodup_cons, List.mem_append, not_or] at hnew
      refine ih _ (insertWith_ordered htrans htotal hsorted hnew.1.2) ?_
      rw [((insertWith_perm before a sorted).append_left l).nodup_iff, List.perm_middle.nodup_iff,
        List.nodup_cons, List.mem_append, not_or]
      exact hnew
  exact hfold [] .nil (by rwa [List.append_nil])

/-- Different texts that were sorted stand in order. -/
theorem sortWith_precedes {texts : List String} (h : texts.Nodup) :
    (sortWith precedes texts).Pairwise fun a b => precedes a b = true :=
  sortWith_ordered (fun _ _ _ => precedes_trans) (fun _ _ => eq_of_not_precedes) h

/-! ## The result does not depend on the order before -/

/-- No value of a sorted list comes before one that stands earlier. -/
theorem insertWith_sorted (hirrefl : ∀ a, before a a = false)
    (htrans : ∀ a b c, before a b = true → before b c = true → before a c = true) {a : α}
    (h : l.Pairwise fun a b => before b a = false) :
    (insertWith before a l).Pairwise fun a b => before b a = false := by
  induction l with
  | nil => exact List.pairwise_singleton _ _
  | cons b l ih =>
    rw [List.pairwise_cons] at h
    rw [insertWith]
    split
    · rename_i hab
      refine List.pairwise_cons.2 ⟨fun c hc => Bool.eq_false_iff.2 fun hca => ?_,
        List.pairwise_cons.2 h⟩
      have hcb := htrans c a b hca hab
      rcases List.mem_cons.1 hc with rfl | hc
      · rw [hirrefl] at hcb
        cases hcb
      · rw [h.1 c hc] at hcb
        cases hcb
    · rename_i hab
      refine List.pairwise_cons.2 ⟨fun c hc => ?_, ih h.2⟩
      rcases List.mem_cons.1 ((insertWith_perm before a l).mem_iff.1 hc) with rfl | hc
      · exact Bool.eq_false_iff.2 hab
      · exact h.1 c hc

theorem sortWith_sorted (hirrefl : ∀ a, before a a = false)
    (htrans : ∀ a b c, before a b = true → before b c = true → before a c = true) (l : List α) :
    (sortWith before l).Pairwise fun a b => before b a = false := by
  have hfold (sorted : List α) (hsorted : sorted.Pairwise fun a b => before b a = false) :
      (l.foldl (fun sorted a => insertWith before a sorted) sorted).Pairwise
        fun a b => before b a = false := by
    induction l generalizing sorted with
    | nil => exact hsorted
    | cons a l ih => exact ih _ (insertWith_sorted hirrefl htrans hsorted)
  exact hfold [] .nil

/-- Lists of the same values are sorted into the same list, if values of equal rank are equal. -/
theorem sortWith_eq_of_perm (hirrefl : ∀ a, before a a = false)
    (htrans : ∀ a b c, before a b = true → before b c = true → before a c = true) {l' : List α}
    (hequal : ∀ a ∈ l, ∀ b ∈ l, before a b = false → before b a = false → a = b)
    (h : l.Perm l') : sortWith before l = sortWith before l' := by
  refine List.Perm.eq_of_pairwise (fun a b ha hb hba hab => ?_)
    (sortWith_sorted hirrefl htrans l) (sortWith_sorted hirrefl htrans l')
    (((sortWith_perm before l).trans h).trans (sortWith_perm before l').symm)
  refine hequal a ((sortWith_perm before l).mem_iff.1 ha) b ?_ hab hba
  exact h.mem_iff.2 ((sortWith_perm before l').mem_iff.1 hb)

end Rollout.Text
