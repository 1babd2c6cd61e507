import Mathlib.Data.Nat.Cast.Order.Field
import Rollout.Proofs.Number.Rounding

/-!
The shortest decimal of a double. It is at most half a unit above the double, and it has a
digit other than zero unless it is written without a power of ten.
-/

namespace Rollout.Number

/-- The number a decimal stands for. -/
def decimal (x : Nat × Int) : ℚ := x.1 * 10 ^ x.2

theorem decimal_add (d : Nat) (j k : Int) : decimal (d, j + k) = decimal (d, j) * 10 ^ k := by
  rw [decimal, decimal, zpow_add₀ (by norm_num), mul_assoc]

/-- A decimal whose digits are not in vain. -/
def Leading (x : Nat × Int) : Prop := 0 < x.1 ∨ x.2 = 0

variable {num den low high c : Nat} {closed : Bool} {k : Int} {x : Nat × Int}

theorem overPowerOfTen_pos (num : Nat) (hden : 0 < den) (k : Int) :
    0 < (overPowerOfTen num den k).2 := by
  unfold overPowerOfTen
  split
  · exact Nat.mul_pos hden (Nat.pow_pos (by decide))
  · exact hden

theorem overPowerOfTen_snd (num low den : Nat) (k : Int) :
    (overPowerOfTen num den k).2 = (overPowerOfTen low den k).2 := by
  unfold overPowerOfTen
  split <;> rfl

theorem overPowerOfTen_div (num : Nat) (hden : 0 < den) (k : Int) :
    ((overPowerOfTen num den k).1 : ℚ) / (overPowerOfTen num den k).2 * 10 ^ k = num / den := by
  have hd : (den : ℚ) ≠ 0 := by exact_mod_cast hden.ne'
  unfold overPowerOfTen
  split
  · rename_i hk
    obtain ⟨n, rfl⟩ := Int.eq_ofNat_of_zero_le hk
    have hpow : (10 : ℚ) ^ n ≠ 0 := by positivity
    simp
    field_simp
  · rename_i hk
    obtain ⟨n, rfl⟩ := Int.exists_eq_neg_ofNat (by omega : k ≤ 0)
    have hpow : (10 : ℚ) ^ n ≠ 0 := by positivity
    simp
    field_simp

/-- A point of a grid lies between the bounds. -/
theorem gridPoint_spec (hden : 0 < den) (hlow : 0 < low)
    (h : gridPoint num den low high closed k = some c) : 0 < c ∧ decimal (c, k) ≤ high / den := by
  obtain ⟨d, hd⟩ : ∃ d, (overPowerOfTen num den k).2 = d := ⟨_, rfl⟩
  have hdpos : 0 < d := hd ▸ overPowerOfTen_pos num hden k
  have hlo : 0 < (overPowerOfTen low den k).1 := by
    unfold overPowerOfTen
    split
    · exact hlow
    · exact Nat.mul_pos hlow (Nat.pow_pos (by decide))
  have hfits {c : Nat} (hc : (if closed = true then
        decide ((overPowerOfTen low den k).1 ≤ c * d) && decide (c * d ≤ (overPowerOfTen high den k).1)
      else decide ((overPowerOfTen low den k).1 < c * d) &&
        decide (c * d < (overPowerOfTen high den k).1)) = true) :
      0 < c ∧ decimal (c, k) ≤ high / den := by
    have hin : (overPowerOfTen low den k).1 ≤ c * d ∧ c * d ≤ (overPowerOfTen high den k).1 := by
      split at hc <;> simp only [Bool.and_eq_true, decide_eq_true_eq] at hc <;> omega
    refine ⟨Nat.pos_of_ne_zero fun hzero => by simp [hzero] at hin; omega, ?_⟩
    rw [← overPowerOfTen_div high hden k, overPowerOfTen_snd high num, hd, decimal]
    gcongr
    rw [le_div_iff₀ (by exact_mod_cast hdpos)]
    exact_mod_cast hin.2
  unfold gridPoint at h
  simp only [hd] at h
  split at h
  · rename_i hbelow habove
    split at h
    · cases h
      exact hfits hbelow
    split at h
    · cases h
      exact hfits habove
    split at h
    · cases h
      exact hfits hbelow
    · cases h
      exact hfits habove
  · rename_i hbelow _
    cases h
    exact hfits hbelow
  · rename_i _ habove
    cases h
    exact hfits habove
  · cases h

/-- The first grid with a point gives a decimal below the upper bound. -/
theorem firstGrid_spec (hden : 0 < den) (hlow : 0 < low) (hnum : num ≤ high) (top : Int)
    (fuel digits : Nat) :
    Leading (firstGrid num den low high closed top fuel digits) ∧
      decimal (firstGrid num den low high closed top fuel digits) ≤ high / den := by
  induction fuel generalizing digits with
  | zero =>
    refine ⟨.inr rfl, ?_⟩
    rw [firstGrid, decimal, zpow_zero, mul_one]
    calc ((num / den : Nat) : ℚ) ≤ num / den := Nat.cast_div_le
      _ ≤ high / den := by gcongr
  | succ fuel ih =>
    rw [firstGrid]
    split
    · rename_i c hc
      have hspec := gridPoint_spec hden hlow hc
      exact ⟨.inl hspec.1, hspec.2⟩
    · exact ih (digits + 1)

theorem scaleByTwo_snd (m n : Nat) (e : Int) : (scaleByTwo m e).2 = (scaleByTwo n e).2 := by
  unfold scaleByTwo
  split <;> rfl

theorem scaleByTwo_mono {m n : Nat} (h : m ≤ n) (e : Int) :
    (scaleByTwo m e).1 ≤ (scaleByTwo n e).1 := by
  unfold scaleByTwo
  split
  · exact Nat.mul_le_mul_right _ h
  · exact h

theorem scaleByTwo_fst_pos {n : Nat} (h : 0 < n) (e : Int) : 0 < (scaleByTwo n e).1 := by
  unfold scaleByTwo
  split
  · exact Nat.mul_pos h (Nat.two_pow_pos _)
  · exact h

/-- The shortest decimal of a magnitude exceeds it by half a unit at most. -/
theorem shortestDecimal_spec {m : Nat} (hm : 0 < m) (e : Int) :
    Leading (shortestDecimal m e) ∧ decimal (shortestDecimal m e) ≤ (m + 1 / 2) * 2 ^ e := by
  have hhigh : ((scaleByTwo (4 * m + 2) (e - 2)).1 : ℚ) / (scaleByTwo (4 * m) (e - 2)).2 =
      (m + 1 / 2) * 2 ^ e := by
    rw [scaleByTwo_snd (4 * m) (4 * m + 2), scaleByTwo_div, zpow_sub₀ (by norm_num)]
    push_cast
    ring
  unfold shortestDecimal
  simp only
  rw [← hhigh]
  refine firstGrid_spec (scaleByTwo_pos _ _) (scaleByTwo_fst_pos ?_ _) ?_ _ _ _
  · split <;> omega
  · exact scaleByTwo_mono (by omega) _

/-- Zeros at the end of the digits go into the power of ten. -/
theorem stripZeros_spec (n : Nat) (x : Nat × Int) :
    decimal (stripZeros n x) = decimal x ∧ (Leading x → Leading (stripZeros n x)) := by
  induction n generalizing x with
  | zero => exact ⟨rfl, id⟩
  | succ n ih =>
    obtain ⟨d, k⟩ := x
    rw [stripZeros]
    split
    · rename_i hd
      obtain ⟨hvalue, hleading⟩ := ih (d / 10, k + 1)
      refine ⟨hvalue.trans ?_, fun _ => hleading (.inl (show 0 < d / 10 by omega))⟩
      have hten : ((d / 10 : Nat) : ℚ) * 10 = d := by
        exact_mod_cast Nat.div_mul_cancel (Nat.dvd_of_mod_eq_zero hd.2)
      rw [decimal, decimal, zpow_add_one₀ (by norm_num), ← hten]
      ring
    · exact ⟨rfl, id⟩

end Rollout.Number
