import Rollout.Substitution

/-!
Maps in the order of their keys: binding and dropping keep the order, a list already in order is
the map of its bindings, and what is bound is what stands in the list.
-/

namespace Rollout.TextMap

variable {α β : Type}

theorem Ordered.tail {e : String × α} {m : TextMap α} (h : Ordered (e :: m)) : Ordered m :=
  (List.pairwise_cons.1 h).2

theorem Ordered.nil : Ordered ([] : TextMap α) := List.Pairwise.nil

theorem Ordered.insert {m : TextMap α} (h : Ordered m) (k : String) (v : α) :
    Ordered (insert k v m) := by
  induction m with
  | nil => simp [TextMap.insert, Ordered]
  | cons e m ih =>
    obtain ⟨k', v'⟩ := e
    obtain ⟨hk', hm⟩ := List.pairwise_cons.1 h
    simp only [TextMap.insert]
    by_cases heq : k' = k
    · subst heq
      rw [if_pos rfl]
      exact List.pairwise_cons.2 ⟨hk', hm⟩
    · rw [if_neg heq]
      by_cases hlt : Text.precedes k k' = true
      · rw [if_pos hlt]
        refine List.pairwise_cons.2 ⟨fun e he => ?_, h⟩
        rcases List.mem_cons.1 he with rfl | he
        · exact hlt
        · exact Text.precedes_trans hlt (hk' e he)
      · rw [if_neg hlt]
        refine List.pairwise_cons.2 ⟨fun e he => ?_, ih hm⟩
        rcases mem_insert he with rfl | he
        · have hlt' : Text.precedes k k' = false := by simpa using hlt
          -- neither comes before the other only if they are equal
          cases hgt : Text.precedes k' k with
          | true => rfl
          | false => exact absurd (Text.eq_of_not_precedes hgt hlt') heq
        · exact hk' e he

theorem Ordered.filter {m : TextMap α} (h : Ordered m) (p : String × α → Bool) :
    Ordered (m.filter p : TextMap α) := List.Pairwise.filter p h

theorem Ordered.erase {m : TextMap α} (h : Ordered m) (k : String) : Ordered (erase k m) :=
  h.filter _

theorem Ordered.mapValues {m : TextMap α} (h : Ordered m) (f : String → α → β) :
    Ordered (m.map fun e => (e.1, f e.1 e.2)) := by
  unfold Ordered at h ⊢
  rw [List.pairwise_map]
  exact h

theorem ordered_foldl_insert (l : List (String × α)) {m : TextMap α} (h : Ordered m) :
    Ordered (l.foldl (fun m e => insert e.1 e.2 m) m) := by
  induction l generalizing m with
  | nil => exact h
  | cons e l ih => exact ih (h.insert e.1 e.2)

theorem ordered_ofList (l : List (String × α)) : Ordered (ofList l) :=
  ordered_foldl_insert l Ordered.nil

theorem Ordered.union {m : TextMap α} (h : Ordered m) (n : TextMap α) : Ordered (union m n) :=
  ordered_foldl_insert n h

theorem insert_of_precedes {m : TextMap α} {k : String}
    (h : ∀ e ∈ m, Text.precedes e.1 k = true) (v : α) : insert k v m = m ++ [(k, v)] := by
  induction m with
  | nil => rfl
  | cons e m ih =>
    obtain ⟨k', v'⟩ := e
    have hk' : Text.precedes k' k = true := h (k', v') (by simp)
    have hne : k' ≠ k := by
      rintro rfl
      rw [Text.precedes_irrefl] at hk'
      cases hk'
    have hnot : Text.precedes k k' = false := by
      cases hkk : Text.precedes k k' with
      | false => rfl
      | true =>
        have := Text.precedes_trans hkk hk'
        rw [Text.precedes_irrefl] at this
        cases this
    simp only [insert, if_neg hne, hnot, Bool.false_eq_true, if_false, List.cons_append]
    rw [ih fun e he => h e (List.mem_cons_of_mem _ he)]

/-- Bindings already in order are their own map. -/
theorem ofList_of_ordered {m : TextMap α} (h : Ordered m) : ofList m = m := by
  -- read from left to right, every binding comes after those before it
  have grow : ∀ (l acc : TextMap α), Ordered (acc ++ l) →
      l.foldl (fun m e => insert e.1 e.2 m) acc = acc ++ l := by
    intro l
    induction l with
    | nil => simp
    | cons e l ih =>
      intro acc hacc
      have hbefore : ∀ a ∈ acc, Text.precedes a.1 e.1 = true := fun a ha =>
        (List.pairwise_append.1 hacc).2.2 a ha e (by simp)
      rw [List.foldl_cons, insert_of_precedes hbefore, ih]
      · simp
      · simpa using hacc
  exact grow m [] h

theorem mem_of_mem_foldl_insert {l : List (String × α)} {m : TextMap α} {e : String × α}
    (h : e ∈ l.foldl (fun m e => insert e.1 e.2 m) m) : e ∈ l ∨ e ∈ m := by
  induction l generalizing m with
  | nil => exact .inr h
  | cons a l ih =>
    rcases ih h with h | h
    · exact .inl (List.mem_cons_of_mem _ h)
    · rcases mem_insert h with rfl | h
      · exact .inl (List.mem_cons_self ..)
      · exact .inr h

theorem mem_of_mem_ofList {l : List (String × α)} {e : String × α} (h : e ∈ ofList l) : e ∈ l := by
  rcases mem_of_mem_foldl_insert h with h | h
  · exact h
  · cases h

/-- A binding of a union is one of the later bindings, if they have the key, and else the earlier
one. -/
theorem get?_union (m l : TextMap α) (k : String) :
    (∀ e ∈ l, e.1 ≠ k) ∧ get? k (union m l) = get? k m ∨
      ∃ v, (k, v) ∈ l ∧ get? k (union m l) = some v := by
  induction l generalizing m with
  | nil => exact .inl ⟨by simp, rfl⟩
  | cons e l ih =>
    obtain ⟨k', v'⟩ := e
    have hfirst : union m ((k', v') :: l) = union (insert k' v' m) l := rfl
    rw [hfirst]
    rcases ih (insert k' v' m) with ⟨hno, hsame⟩ | ⟨v, hv, hsome⟩
    · rw [hsame, get?_insert]
      by_cases hk : k' = k
      · exact .inr ⟨v', by rw [hk]; exact List.mem_cons_self, if_pos hk⟩
      · exact .inl ⟨List.forall_mem_cons.2 ⟨hk, hno⟩, if_neg hk⟩
    · exact .inr ⟨v, List.mem_cons_of_mem _ hv, hsome⟩

theorem mem_of_get? {m : TextMap α} {k : String} {v : α} (h : get? k m = some v) : (k, v) ∈ m := by
  induction m with
  | nil => cases h
  | cons e m ih =>
    rw [get?_cons] at h
    split at h
    · rename_i hk
      subst hk
      cases h
      exact List.mem_cons_self ..
    · exact List.mem_cons_of_mem _ (ih h)

theorem get?_of_mem {m : TextMap α} (ho : Ordered m) {k : String} {v : α} (h : (k, v) ∈ m) :
    get? k m = some v := by
  induction m with
  | nil => cases h
  | cons e m ih =>
    rw [get?_cons]
    rcases List.mem_cons.1 h with rfl | h
    · exact if_pos rfl
    · have hlt := (List.pairwise_cons.1 ho).1 _ h
      have hne : e.1 ≠ k := by
        intro heq
        rw [heq, Text.precedes_irrefl] at hlt
        cases hlt
      rw [if_neg hne, ih ho.tail h]

/-- A key that is not bound need not be dropped. -/
theorem erase_of_get?_eq_none {k : String} {m : TextMap α} (h : get? k m = none) :
    erase k m = m := by
  induction m with
  | nil => rfl
  | cons e m ih =>
    rw [get?_cons] at h
    split at h
    · cases h
    · rename_i hk
      rw [erase, List.filter_cons_of_pos (by simpa using hk)]
      exact congrArg _ (ih h)

theorem erase_of_precedes {k : String} {m : TextMap α}
    (h : ∀ e ∈ m, Text.precedes k e.1 = true) : erase k m = m := by
  refine List.filter_eq_self.2 fun e he => ?_
  have hlt := h e he
  simp only [ne_eq, decide_eq_true_eq]
  intro heq
  rw [heq, Text.precedes_irrefl] at hlt
  cases hlt

/-- The first binding of a map is its only one of that key. -/
theorem Ordered.erase_head {k : String} {v : α} {m : TextMap α} (h : Ordered ((k, v) :: m)) :
    TextMap.erase k ((k, v) :: m) = m := by
  rw [TextMap.erase, List.filter_cons_of_neg (by simp)]
  exact erase_of_precedes (List.pairwise_cons.1 h).1

/-- Binding a key adds one binding to those of the other keys. -/
theorem insert_perm {m : TextMap α} (h : Ordered m) (k : String) (v : α) :
    (insert k v m).Perm ((k, v) :: erase k m) := by
  induction m with
  | nil => exact List.Perm.refl _
  | cons e m ih =>
    obtain ⟨k', v'⟩ := e
    simp only [insert]
    split
    · rename_i heq
      subst heq
      rw [h.erase_head]
    · rename_i hne
      split
      · rename_i hlt
        rw [erase_of_precedes]
        intro e he
        rcases List.mem_cons.1 he with rfl | he
        · exact hlt
        · exact Text.precedes_trans hlt ((List.pairwise_cons.1 h).1 e he)
      · rw [erase, List.filter_cons_of_pos (by simpa using hne)]
        exact ((ih h.tail).cons _).trans (List.Perm.swap ..)

/-- The bindings of a map are one key's and those of the other keys. -/
theorem perm_of_get? {m : TextMap α} (h : Ordered m) {k : String} {v : α} (hk : get? k m = some v) :
    m.Perm ((k, v) :: erase k m) := by
  induction m with
  | nil => cases hk
  | cons e m ih =>
    obtain ⟨k', v'⟩ := e
    rw [get?_cons] at hk
    split at hk
    · rename_i heq
      subst heq
      cases hk
      rw [h.erase_head]
    · rename_i hne
      rw [erase, List.filter_cons_of_pos (by simpa using hne)]
      exact ((ih h.tail hk).cons _).trans (List.Perm.swap ..)

/-- Maps with the same bindings are the same. -/
theorem Ordered.eq_of_perm {m n : TextMap α} (hm : Ordered m) (hn : Ordered n) (h : m.Perm n) :
    m = n := by
  refine h.eq_of_pairwise (fun a b _ _ hab hba => ?_) hm hn
  have := Text.precedes_trans hab hba
  rw [Text.precedes_irrefl] at this
  cases this

theorem Ordered.nodup {m : TextMap α} (h : m.Ordered) : m.Nodup :=
  h.imp fun {a b} hab heq => by
    rw [heq, Text.precedes_irrefl] at hab
    cases hab

/-- Maps that hold the same bindings are the same. -/
theorem Ordered.ext {m n : TextMap α} (hm : m.Ordered) (hn : n.Ordered)
    (h : ∀ e, e ∈ m ↔ e ∈ n) : m = n :=
  hm.eq_of_perm hn ((List.perm_ext_iff_of_nodup hm.nodup hn.nodup).2 h)

/-! ## Other values -/

theorem get?_map (f : α → β) (k : String) (m : TextMap α) :
    get? k (m.map fun e => (e.1, f e.2)) = (get? k m).map f := by
  induction m with
  | nil => rfl
  | cons e m ih =>
    rw [List.map_cons, get?_cons, get?_cons, ih]
    split <;> rfl

theorem insert_map (f : α → β) (k : String) (v : α) (m : TextMap α) :
    insert k (f v) (m.map fun e => (e.1, f e.2)) =
      (insert k v m).map fun e => (e.1, f e.2) := by
  induction m with
  | nil => rfl
  | cons e m ih =>
    simp only [List.map_cons, insert]
    split
    · rfl
    · split
      · rfl
      · rw [List.map_cons, ih]

theorem erase_map (f : α → β) (k : String) (m : TextMap α) :
    erase k (m.map fun e => (e.1, f e.2)) = (erase k m).map fun e => (e.1, f e.2) := by
  rw [erase, erase, List.filter_map]
  rfl

end Rollout.TextMap
