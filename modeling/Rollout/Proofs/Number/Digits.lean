import Rollout.Number.Decimal

/-!
The decimal digits of a natural number. They are ten characters only, they spell the number
again, and no number but zero has a zero in front.
-/

namespace Rollout.Number

/-- The values of the decimal digits of a number, the highest first. -/
def digitsOf (n : Nat) : List Nat := (Nat.toDigits 10 n).map fun c => c.toNat - 48

/-- A character of a decimal number. -/
def IsDecimal (c : Char) : Prop := 48 ≤ c.toNat ∧ c.toNat ≤ 57

/-- A digit read after a number that was read before. -/
def appendDigit (n d : Nat) : Nat := n * 10 + d

theorem digitsOf_eq (n : Nat) :
    digitsOf n = if n < 10 then [n] else digitsOf (n / 10) ++ [n % 10] := by
  rw [digitsOf, Nat.toDigits_eq_if (by decide)]
  split
  · rename_i h
    simp [Nat.toNat_digitChar_of_lt_ten h]
  · have h : n % 10 < 10 := Nat.mod_lt _ (by decide)
    simp [digitsOf, Nat.toNat_digitChar_of_lt_ten h]

theorem isDecimal_of_mem_toDigits {n : Nat} {c : Char} (h : c ∈ Nat.toDigits 10 n) :
    IsDecimal c := by
  have hd := Nat.isDigit_of_mem_toDigits (by decide) (by decide) h
  simp only [Char.isDigit, Bool.and_eq_true, decide_eq_true_eq] at hd
  obtain ⟨h1, h2⟩ := hd
  exact ⟨h1, h2⟩

theorem digitsOf_ne_nil (n : Nat) : digitsOf n ≠ [] := by
  simp [digitsOf, Nat.toDigits_ne_nil]

/-- The digits of a number spell it. -/
theorem foldl_digitsOf (n : Nat) : (digitsOf n).foldl appendDigit 0 = n := by
  induction n using Nat.strongRecOn with
  | ind n ih =>
    rw [digitsOf_eq]
    split
    · simp [appendDigit]
    · rename_i h
      rw [List.foldl_append, ih (n / 10) (by omega)]
      simp only [List.foldl_cons, List.foldl_nil, appendDigit]
      omega

/-- More digits never make a number less. -/
theorem le_foldl_appendDigit (ds : List Nat) (n : Nat) : n ≤ ds.foldl appendDigit n := by
  induction ds generalizing n with
  | nil => exact Nat.le_refl n
  | cons d ds ih =>
    have h := ih (appendDigit n d)
    simp only [List.foldl_cons]
    unfold appendDigit at h ⊢
    omega

/-- A positive number does not begin with a zero. -/
theorem head?_digitsOf {n : Nat} (h : 0 < n) : (digitsOf n).head? ≠ some 0 := by
  induction n using Nat.strongRecOn with
  | ind n ih =>
    rw [digitsOf_eq]
    split
    · simp
      omega
    · rename_i h10
      have hd := ih (n / 10) (by omega) (by omega)
      cases hc : digitsOf (n / 10) with
      | nil => exact absurd hc (digitsOf_ne_nil _)
      | cons d ds =>
        rw [hc] at hd
        simpa using hd

/-! ## Reading them back -/

theorem decimalDigit?_of_isDecimal {c : Char} (h : IsDecimal c) :
    decimalDigit? c = some (c.toNat - 48) := if_pos h

theorem continueDigits?_of_isDecimal {cs : List Char} (h : ∀ c ∈ cs, IsDecimal c) (n : Nat) :
    continueDigits? n cs = some ((cs.map fun c => c.toNat - 48).foldl appendDigit n) := by
  induction cs generalizing n with
  | nil => rfl
  | cons c cs ih =>
    rw [List.forall_mem_cons] at h
    rw [continueDigits?, decimalDigit?_of_isDecimal h.1, Option.bind_some, ih h.2]
    rfl

/-- A number that was written is read. -/
theorem parseBelow?_toString {n bound : Nat} (h : n < bound) :
    parseBelow? bound (toString n) = some n := by
  have hdigits (c : Char) (hc : c ∈ Nat.toDigits 10 n) := isDecimal_of_mem_toDigits hc
  have hlist : (toString n).toList = Nat.toDigits 10 n := String.toList_ofList
  have hread : continueDigits? 0 (Nat.toDigits 10 n) = some n := by
    rw [continueDigits?_of_isDecimal hdigits, ← digitsOf, foldl_digitsOf]
  have hplus : dropPlus (Nat.toDigits 10 n) = Nat.toDigits 10 n := by
    unfold dropPlus
    split
    · rename_i cs heq
      exact absurd (hdigits '+' (heq ▸ List.mem_cons_self)) (by unfold IsDecimal; decide)
    · rfl
  have hne : Nat.toDigits 10 n ≠ [] := fun hnil => digitsOf_ne_nil n (by rw [digitsOf, hnil]; rfl)
  unfold parseBelow?
  rw [hlist, hplus]
  split
  · rename_i hnil
    exact absurd hnil hne
  · rw [hread, Option.filter_some, if_pos (decide_eq_true h)]

end Rollout.Number
