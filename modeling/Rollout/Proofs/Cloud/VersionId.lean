import Rollout.Proofs.Cloud.Bucket

/-!
Version ids as texts. As long as there are at most twelve digits to a number, all ids have the
same length, and they come in the order of their numbers.
-/

namespace Rollout

variable {width m n : Nat}

/-- How many versions a bucket can number with ids of one length. -/
def idLimit : Nat := 10 ^ 12

theorem length_zeroPadded (hwidth : 0 < width) (hn : n < 10 ^ width) :
    (zeroPadded width n).length = width := by
  have := (Nat.length_toDigits_le_iff (by decide) hwidth).2 hn
  rw [zeroPadded, List.length_append, List.length_replicate]
  omega

/-- The last digit of a padded number stands behind the padded rest. -/
theorem zeroPadded_succ (hwidth : 0 < width) (n : Nat) :
    zeroPadded (width + 1) n = zeroPadded width (n / 10) ++ [Nat.digitChar (n % 10)] := by
  simp only [zeroPadded]
  rw [Nat.toDigits_eq_if (by decide)]
  split
  · rename_i hn
    rw [Nat.div_eq_of_lt hn, Nat.mod_eq_of_lt hn, Nat.toDigits_zero]
    -- a number of one digit stands behind zeros only
    obtain ⟨k, rfl⟩ : ∃ k, width = k + 1 := ⟨width - 1, by omega⟩
    simp only [List.length_singleton, Nat.add_sub_cancel]
    rw [List.replicate_succ']
  · rw [List.length_append, List.length_singleton, Nat.add_sub_add_right, List.append_assoc]

/-- Texts of the same length are compared at their ends only if they are equal before. -/
theorem precedesList_append {a b : List Char} (h : a.length = b.length) (c d : Char) :
    Text.precedesList (a ++ [c]) (b ++ [d]) =
      (Text.precedesList a b || (decide (a = b) && decide (c.toNat < d.toNat))) := by
  induction a generalizing b with
  | nil =>
    cases b with
    | nil =>
      simp [Text.precedesList]
    | cons y b => simp at h
  | cons x a ih =>
    cases b with
    | nil => simp at h
    | cons y b =>
      have hrest := ih (by simpa using h)
      simp only [List.cons_append, Text.precedesList, hrest, List.cons.injEq]
      by_cases hxy : x = y
      · simp [hxy]
      · have hne : x.toNat ≠ y.toNat := fun heq => hxy (Char.toNat_inj.1 heq)
        by_cases hlt : x.toNat < y.toNat
        · simp [hlt]
        · have : y.toNat < x.toNat := by omega
          simp [hlt, this, hxy]

/-- Padded numbers come in the order of the numbers. -/
theorem precedesList_zeroPadded (hm : m < 10 ^ (width + 1)) (hn : n < 10 ^ (width + 1)) :
    Text.precedesList (zeroPadded (width + 1) m) (zeroPadded (width + 1) n) = decide (m < n) := by
  have hdigit (a b : Nat) :
      decide ((Nat.digitChar (a % 10)).toNat < (Nat.digitChar (b % 10)).toNat) =
        decide (a % 10 < b % 10) := by
    rw [Nat.toNat_digitChar_of_lt_ten (Nat.mod_lt _ (by decide)),
      Nat.toNat_digitChar_of_lt_ten (Nat.mod_lt _ (by decide))]
    simp
  induction width generalizing m n with
  | zero =>
    have hone (k : Nat) (hk : k < 10) : zeroPadded (0 + 1) k = [] ++ [Nat.digitChar (k % 10)] := by
      rw [zeroPadded, Nat.toDigits_of_lt_base hk, Nat.mod_eq_of_lt hk]
      rfl
    have hm : m < 10 := hm
    have hn : n < 10 := hn
    rw [hone m hm, hone n hn, precedesList_append rfl, hdigit, Nat.mod_eq_of_lt hm,
      Nat.mod_eq_of_lt hn]
    simp [Text.precedesList]
  | succ width ih =>
    have hm' : m / 10 < 10 ^ (width + 1) := by omega
    have hn' : n / 10 < 10 ^ (width + 1) := by omega
    have hpos : 0 < width + 1 := Nat.succ_pos _
    rw [zeroPadded_succ hpos, zeroPadded_succ hpos, precedesList_append (by
      rw [length_zeroPadded hpos hm', length_zeroPadded hpos hn']), ih hm' hn', hdigit]
    have heq : decide (zeroPadded (width + 1) (m / 10) = zeroPadded (width + 1) (n / 10)) =
        decide (m / 10 = n / 10) := by
      refine decide_eq_decide.2 ⟨zeroPadded_inj, fun h => by rw [h]⟩
    rw [heq, ← Bool.decide_and, ← Bool.decide_or]
    exact decide_eq_decide.2 (by omega)

/-- A text of characters that take one byte each has as many bytes as characters. -/
theorem utf8ByteSize_ofList {cs : List Char} (h : ∀ c ∈ cs, c.utf8Size = 1) :
    (String.ofList cs).utf8ByteSize = cs.length := by
  induction cs with
  | nil => rfl
  | cons c cs ih =>
    rw [String.ofList_cons, String.utf8ByteSize_append, String.utf8ByteSize_singleton,
      h c List.mem_cons_self, ih fun c' hc' => h c' (List.mem_cons_of_mem _ hc'), List.length_cons]
    omega

theorem utf8ByteSize_versionId (n : Nat) :
    (versionId n).utf8ByteSize = (zeroPadded 12 n).length + 1 := by
  rw [versionId, utf8ByteSize_ofList, List.length_cons]
  intro c hc
  rcases List.mem_cons.1 hc with rfl | hc
  · decide
  · obtain ⟨-, hle⟩ := isDecimal_of_mem_zeroPadded hc
    exact Char.utf8Size_eq_one_iff.2 (Nat.le_trans hle (by decide))

/-- The ids of smaller numbers are no longer. -/
theorem utf8ByteSize_versionId_mono (h : m ≤ n) :
    (versionId m).utf8ByteSize ≤ (versionId n).utf8ByteSize := by
  have hdigits : (Nat.toDigits 10 m).length ≤ (Nat.toDigits 10 n).length := by
    have hpos : 0 < (Nat.toDigits 10 n).length := Nat.length_toDigits_pos
    rw [Nat.length_toDigits_le_iff (by decide) hpos]
    exact Nat.lt_of_le_of_lt h ((Nat.length_toDigits_le_iff (by decide) hpos).1 (Nat.le_refl _))
  rw [utf8ByteSize_versionId, utf8ByteSize_versionId]
  simp only [zeroPadded, List.length_append, List.length_replicate]
  omega

/-- Ids come in the order of their numbers. -/
theorem precedes_versionId (hm : m < idLimit) (hn : n < idLimit) :
    Text.precedes (versionId m) (versionId n) = decide (m < n) := by
  simp only [Text.precedes, versionId, String.toList_ofList, Text.precedesList, Nat.lt_irrefl,
    if_false]
  exact precedesList_zeroPadded hm hn

end Rollout
