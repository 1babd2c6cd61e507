import Mathlib.Tactic.Linarith
import Mathlib.Tactic.FieldSimp
import Mathlib.Tactic.Positivity
import Mathlib.Tactic.Ring
import Mathlib.Algebra.Order.Field.Power
import Mathlib.Data.Rat.Cast.Order
import Rollout.Number.Binary64

/-!
How far rounding goes. A fraction is rounded to a point of a grid, at most half a unit of that
grid away, and the grid is as fine as 53 bits make it. So a decimal that stays clear of the
greatest double is read as some double, although its digits are rounded first, its power of ten
next and their product last.
-/

namespace Rollout.Number

/-- The number a magnitude stands for. -/
def magnitude (x : Nat × Int) : ℚ := x.1 * 2 ^ x.2

/-- A magnitude that a double can have. -/
structure IsDouble (x : Nat × Int) : Prop where
  mantissa : x.1 < 2 * hiddenBit
  least : leastExponent ≤ x.2
  greatest : x.2 ≤ greatestExponent

theorem isDouble_zero : IsDouble (0, leastExponent) := ⟨by decide, by decide, by decide⟩

/-- From here on numbers are rounded past the greatest double. -/
def overflow : ℚ := (2 ^ 54 - 1) * 2 ^ (greatestExponent - 1)

/-- The relative error of rounding to 53 bits. -/
def unitError : ℚ := 1 / 2 ^ 53

theorem two_hiddenBit : 2 * hiddenBit = 2 ^ 53 := rfl

theorem magnitude_nonneg (x : Nat × Int) : 0 ≤ magnitude x := by
  unfold magnitude
  positivity

theorem scaleByTwo_pos (n : Nat) (e : Int) : 0 < (scaleByTwo n e).2 := by
  unfold scaleByTwo
  split
  · exact Nat.one_pos
  · exact Nat.two_pow_pos _

theorem scaleByTwo_eq (n : Nat) (e : Int) :
    ((scaleByTwo n e).1 : ℚ) = n * 2 ^ e * (scaleByTwo n e).2 := by
  unfold scaleByTwo
  split
  · rename_i he
    obtain ⟨k, rfl⟩ := Int.eq_ofNat_of_zero_le he
    simp
  · rename_i he
    obtain ⟨k, rfl⟩ := Int.exists_eq_neg_ofNat (by omega : e ≤ 0)
    have hpow : (2 : ℚ) ^ k ≠ 0 := by positivity
    simp [hpow]

theorem scaleByTwo_div (n : Nat) (e : Int) :
    ((scaleByTwo n e).1 : ℚ) / (scaleByTwo n e).2 = n * 2 ^ e := by
  have hpos : ((scaleByTwo n e).2 : ℚ) ≠ 0 := by exact_mod_cast (scaleByTwo_pos n e).ne'
  rw [scaleByTwo_eq, mul_div_cancel_right₀ _ hpos]

/-! ## Rounding a fraction -/

theorem roundDiv_le (num : Nat) {den : Nat} (hden : 0 < den) :
    2 * (roundDiv num den * den) ≤ 2 * num + den := by
  have hdiv := Nat.div_add_mod' num den
  have hmod := Nat.mod_lt num hden
  unfold roundDiv
  simp only
  split
  · omega
  split
  · rw [Nat.add_mul]
    omega
  split
  · omega
  · rw [Nat.add_mul]
    omega

theorem le_roundDiv (num : Nat) {den : Nat} (hden : 0 < den) :
    2 * num ≤ 2 * (roundDiv num den * den) + den := by
  have hdiv := Nat.div_add_mod' num den
  have hmod := Nat.mod_lt num hden
  unfold roundDiv
  simp only
  split
  · omega
  split
  · rw [Nat.add_mul]
    omega
  split
  · omega
  · rw [Nat.add_mul]
    omega

/-- A number `v` rounded to `x` on the grid of the multiples of `2 ^ e`. -/
structure Rounded (v : ℚ) (e : Int) (x : Nat × Int) : Prop where
  grid : e = leastExponent ∨ 2 ^ (e + 52) ≤ v
  near : |magnitude x - v| ≤ 2 ^ (e - 1)
  /-- The point above all mantissas is the least one of the next grid. -/
  exponent : x.2 = e ∨ x = (hiddenBit, e + 1)
  mantissa : x.1 < 2 * hiddenBit
  least : leastExponent ≤ x.2

variable {v : ℚ} {e : Int} {x y : Nat × Int} {num den : Nat}

/-- The power of two below a fraction. -/
theorem exists_top (hnum : 0 < num) (hden : 0 < den) :
    ∃ top : Int, (2 : ℚ) ^ top ≤ num / den ∧ (num / den : ℚ) < 2 ^ (top + 1) ∧
      top =
        if (scaleByTwo den ((Nat.log2 num : Int) - Nat.log2 den)).1 ≤
          num * (scaleByTwo den ((Nat.log2 num : Int) - Nat.log2 den)).2
        then (Nat.log2 num : Int) - Nat.log2 den else (Nat.log2 num : Int) - Nat.log2 den - 1 := by
  have hd : (0 : ℚ) < den := by exact_mod_cast hden
  have hlog (n : Nat) (hn : 0 < n) :
      (2 : ℚ) ^ (Nat.log2 n : Int) ≤ n ∧ (n : ℚ) < 2 ^ ((Nat.log2 n : Int) + 1) := by
    constructor
    · exact_mod_cast Nat.log2_self_le hn.ne'
    · exact_mod_cast Nat.lt_log2_self
  obtain ⟨hnlow, hnhigh⟩ := hlog num hnum
  obtain ⟨hdlow, hdhigh⟩ := hlog den hden
  generalize (Nat.log2 num : Int) = a at *
  generalize (Nat.log2 den : Int) = b at *
  -- the quotient of the leading bits is off by a factor of two at most
  have hlow : (2 : ℚ) ^ (a - b - 1) ≤ num / den := by
    rw [le_div_iff₀ hd, show a - b - 1 = a - (b + 1) by ring, zpow_sub₀ (by norm_num)]
    calc (2 : ℚ) ^ a / 2 ^ (b + 1) * den
        ≤ 2 ^ a / 2 ^ (b + 1) * 2 ^ (b + 1) := by gcongr
      _ = 2 ^ a := by field_simp
      _ ≤ num := hnlow
  have hhigh : (num / den : ℚ) < 2 ^ (a - b + 1) := by
    rw [div_lt_iff₀ hd, show a - b + 1 = a + 1 - b by ring, zpow_sub₀ (by norm_num)]
    calc (num : ℚ) < 2 ^ (a + 1) := hnhigh
      _ = 2 ^ (a + 1) / 2 ^ b * 2 ^ b := by field_simp
      _ ≤ 2 ^ (a + 1) / 2 ^ b * den := by gcongr
  have hcompare : (scaleByTwo den (a - b)).1 ≤ num * (scaleByTwo den (a - b)).2 ↔
      (2 : ℚ) ^ (a - b) ≤ num / den := by
    have hpos : (0 : ℚ) < (scaleByTwo den (a - b)).2 := by exact_mod_cast scaleByTwo_pos _ _
    rw [le_div_iff₀ hd, ← mul_le_mul_iff_of_pos_right hpos, mul_comm _ (den : ℚ),
      ← scaleByTwo_eq]
    exact_mod_cast Iff.rfl
  by_cases hcase : (2 : ℚ) ^ (a - b) ≤ num / den
  · exact ⟨a - b, hcase, hhigh, by rw [if_pos (hcompare.2 hcase)]⟩
  · refine ⟨a - b - 1, hlow, ?_, by rw [if_neg (mt hcompare.1 hcase)]⟩
    rw [show a - b - 1 + 1 = a - b by ring]
    exact not_le.1 hcase

/-- Rounding goes to the nearest point of a grid that 53 bits are enough for. -/
theorem roundRatio_cases (num : Nat) (hden : 0 < den) : ∃ e x, Rounded (num / den) e x ∧
    roundRatio num den = if greatestExponent < x.2 then none else some x := by
  rcases Nat.eq_zero_or_pos num with rfl | hnum
  · refine ⟨leastExponent, (0, leastExponent), ⟨.inl rfl, ?_, .inl rfl, by decide, le_rfl⟩, rfl⟩
    simp only [magnitude, Nat.cast_zero, zero_mul, zero_div, sub_zero, abs_zero]
    positivity
  obtain ⟨top, htop, htop', heq⟩ := exists_top hnum hden
  have hd : (0 : ℚ) < den := by exact_mod_cast hden
  have hround : roundRatio num den =
      let e := max (top - 52) leastExponent
      let m := roundDiv (num * (scaleByTwo den e).2) (scaleByTwo den e).1
      let y := if m = 2 * hiddenBit then (hiddenBit, e + 1) else (m, e)
      if greatestExponent < y.2 then none else some y := by
    rw [roundRatio, if_neg hnum.ne', heq]
  generalize hgrid : max (top - 52) leastExponent = e at hround
  obtain ⟨sNum, sDen, hscale⟩ : ∃ a b, scaleByTwo den e = (a, b) := ⟨_, _, rfl⟩
  have hsDen : 0 < sDen := by
    have := scaleByTwo_pos den e
    rwa [hscale] at this
  have hsEq : (sNum : ℚ) = den * 2 ^ e * sDen := by
    have := scaleByTwo_eq den e
    rwa [hscale] at this
  have hsd : (0 : ℚ) < sDen := by exact_mod_cast hsDen
  have he : (0 : ℚ) < 2 ^ e := by positivity
  have hsNum : 0 < sNum := by
    have : (0 : ℚ) < sNum := by rw [hsEq]; positivity
    exact_mod_cast this
  simp only [hscale] at hround
  generalize hm : roundDiv (num * sDen) sNum = m at hround
  have hnear : |(m : ℚ) * 2 ^ e - num / den| ≤ 2 ^ (e - 1) := by
    have hupper : (2 : ℚ) * (m * sNum) ≤ 2 * (num * sDen) + sNum := by
      exact_mod_cast hm ▸ roundDiv_le (num * sDen) hsNum
    have hlower : (2 : ℚ) * (num * sDen) ≤ 2 * (m * sNum) + sNum := by
      exact_mod_cast hm ▸ le_roundDiv (num * sDen) hsNum
    rw [hsEq] at hupper hlower
    have hunit : (2 : ℚ) ^ (e - 1) = 2 ^ e / 2 := by rw [zpow_sub_one₀ (by norm_num)]; ring
    rw [hunit, abs_le, ← mul_le_mul_iff_of_pos_right (mul_pos hd hsd),
      ← mul_le_mul_iff_of_pos_right (mul_pos hd hsd) (b := _ - _)]
    have hcancel : ((m : ℚ) * 2 ^ e - num / den) * (den * sDen) =
        m * (den * 2 ^ e * sDen) - num * sDen := by field_simp
    rw [hcancel]
    constructor <;> linarith
  have hgridCase : e = leastExponent ∨ (2 : ℚ) ^ (e + 52) ≤ num / den := by
    rcases le_total (top - 52) leastExponent with hle | hle
    · exact .inl (by rw [← hgrid, max_eq_right hle])
    · refine .inr ?_
      rw [← hgrid, max_eq_left hle, sub_add_cancel]
      exact htop
  have hbound : m ≤ 2 * hiddenBit := by
    have hsmall : (num : ℚ) / den < 2 ^ (e + 53) :=
      htop'.trans_le (zpow_le_zpow_right₀ (by norm_num) (by omega))
    have hunit : (2 : ℚ) ^ (e - 1) = 2 ^ e / 2 := by rw [zpow_sub_one₀ (by norm_num)]; ring
    rw [hunit] at hnear
    rw [zpow_add₀ (by norm_num)] at hsmall
    have hlt : (m : ℚ) * 2 ^ e < (2 ^ 53 + 1) * 2 ^ e := by
      have := (abs_le.1 hnear).2
      norm_num at hsmall ⊢
      linarith
    have : (m : ℚ) < 2 ^ 53 + 1 := lt_of_mul_lt_mul_right hlt he.le
    rw [two_hiddenBit]
    exact Nat.lt_succ_iff.1 (by exact_mod_cast this)
  have hleast : leastExponent ≤ e := by rw [← hgrid]; exact le_max_right _ _
  refine ⟨e, if m = 2 * hiddenBit then (hiddenBit, e + 1) else (m, e), ?_, hround⟩
  split
  · rename_i htwice
    refine ⟨hgridCase, ?_, .inr rfl, show hiddenBit < 2 * hiddenBit by decide, by simp only; omega⟩
    have hsame : magnitude (hiddenBit, e + 1) = m * 2 ^ e := by
      rw [magnitude, htwice, zpow_add_one₀ (by norm_num)]
      push_cast
      ring
    rw [hsame]
    exact hnear
  · rename_i hother
    exact ⟨hgridCase, hnear, .inl rfl, by simp only; omega, hleast⟩

/-- Below the overflow rounding succeeds. -/
theorem Rounded.le_greatest (h : Rounded v e x) (hv : v < overflow) : x.2 ≤ greatestExponent := by
  by_contra hbig
  have hleast : leastExponent ≤ greatestExponent ∧ leastExponent ≠ greatestExponent := by decide
  have hpos : (0 : ℚ) < 2 ^ (greatestExponent - 1) := by positivity
  have hdouble (k : Int) : (2 : ℚ) ^ (greatestExponent + k) =
      2 ^ (k + 1) * 2 ^ (greatestExponent - 1) := by
    rw [← zpow_add₀ (by norm_num), show k + 1 + (greatestExponent - 1) = greatestExponent + k by ring]
  unfold overflow at hv
  generalize greatestExponent = last at hleast hpos hdouble hv hbig
  generalize (2 : ℚ) ^ (last - 1) = unit at hpos hdouble hv
  have hfar (he : last < e) : False := by
    have hgrid : (2 : ℚ) ^ (e + 52) ≤ v := h.grid.resolve_left (by omega)
    have hpow : (2 : ℚ) ^ (last + 53) ≤ 2 ^ (e + 52) :=
      zpow_le_zpow_right₀ (by norm_num) (by omega)
    rw [hdouble] at hpow
    norm_num at hpow hv
    linarith
  rcases h.exponent with heq | heq
  · exact hfar (by omega)
  have hexponent : x.2 = e + 1 := by rw [heq]
  by_cases he : last < e
  · exact hfar he
  -- the last grid, rounded up past its last point
  obtain rfl : e = last := by omega
  have hnear := (abs_le.1 h.near).2
  have hhalf : (2 : ℚ) ^ (e - 1) = unit := by
    have := hdouble (-1)
    norm_num at this
    exact this
  have hx : magnitude x = 2 ^ 54 * unit := by
    rw [heq, magnitude, hdouble 1]
    norm_num [hiddenBit]
    ring
  rw [hx, hhalf] at hnear
  linarith

theorem roundRatio_of_lt (num : Nat) (hden : 0 < den) (h : (num / den : ℚ) < overflow) :
    ∃ e x, Rounded (num / den) e x ∧ roundRatio num den = some x := by
  obtain ⟨e, x, hx, heq⟩ := roundRatio_cases num hden
  refine ⟨e, x, hx, ?_⟩
  rw [heq, if_neg (not_lt.2 (hx.le_greatest h))]

theorem isDouble_of_roundRatio (hden : 0 < den) (h : roundRatio num den = some x) :
    IsDouble x := by
  obtain ⟨e, y, hy, heq⟩ := roundRatio_cases num hden
  rw [heq] at h
  split at h
  · cases h
  · rename_i hle
    cases h
    exact ⟨hy.mantissa, hy.least, not_lt.1 hle⟩

theorem half_unit (e : Int) : (2 : ℚ) ^ (e - 1) = 2 ^ (e + 52) * unitError := by
  have hunit : unitError = 2 ^ (-53 : Int) := by norm_num [unitError]
  rw [hunit, ← zpow_add₀ (by norm_num)]
  congr 1
  ring

theorem half_least : (2 : ℚ) ^ (leastExponent - 1) ≤ unitError := by
  have hunit : unitError = 2 ^ (-53 : Int) := by norm_num [unitError]
  rw [hunit]
  exact zpow_le_zpow_right₀ (by norm_num) (by decide)

theorem unitError_pos : 0 < unitError := by norm_num [unitError]

/-- A number from one on is rounded by the relative error. -/
theorem Rounded.relative (h : Rounded v e x) (hv : 1 ≤ v) : |magnitude x - v| ≤ v * unitError := by
  have hunit := unitError_pos
  refine h.near.trans ?_
  rcases h.grid with rfl | hgrid
  · calc (2 : ℚ) ^ (leastExponent - 1) ≤ 1 * unitError := by rw [one_mul]; exact half_least
      _ ≤ v * unitError := by gcongr
  · rw [half_unit]
    gcongr

/-- Any number is rounded up by little. -/
theorem Rounded.le (h : Rounded v e x) (hv : 0 ≤ v) : magnitude x ≤ v * (1 + unitError) + 1 := by
  have hnear := (abs_le.1 h.near).2
  have hunit := unitError_pos
  have hstep : (2 : ℚ) ^ (e - 1) ≤ v * unitError + 1 := by
    rcases h.grid with rfl | hgrid
    · have hsmall : unitError ≤ 1 := by norm_num [unitError]
      have : 0 ≤ v * unitError := by positivity
      linarith [half_least]
    · rw [half_unit]
      have : (2 : ℚ) ^ (e + 52) * unitError ≤ v * unitError := by gcongr
      linarith
  linarith

/-! ## Decimals -/

theorem overflow_eq : overflow = ((2 ^ 54 - 1) * Nat.pow 2 970 : Nat) := by
  have hexponent : greatestExponent - 1 = ((970 : Nat) : Int) := rfl
  rw [overflow, hexponent]
  -- the power is too big to be computed with
  generalize 970 = k
  rw [zpow_natCast, Nat.cast_mul, show ((Nat.pow 2 k : Nat) : ℚ) = 2 ^ k from Nat.cast_pow 2 k]
  norm_num

theorem ten_pow_eq (k : Nat) : (10 : ℚ) ^ k = (Nat.pow 10 k : Nat) := by simp

/-- The overflow lies between two powers of ten. -/
theorem overflow_bounds : (10 : ℚ) ^ 308 < overflow ∧ overflow < (10 : ℚ) ^ 309 := by
  rw [overflow_eq, ten_pow_eq, ten_pow_eq, Nat.cast_lt, Nat.cast_lt]
  decide +kernel

/-- Numbers of some thirty digits are far from the overflow. -/
theorem lt_overflow_of_le {v : ℚ} (h : v ≤ 2 ^ 101) : v < overflow :=
  calc
    v ≤ 2 ^ 101 := h
    _ ≤ 10 ^ 101 := pow_le_pow_left₀ (by norm_num) (by norm_num) _
    _ ≤ 10 ^ 308 := pow_le_pow_right₀ (by norm_num) (by norm_num)
    _ < overflow := overflow_bounds.1

/-- A power of ten that doubles reach. -/
theorem rounded_powerOfTen {n : Nat} (hn : n ≤ 308) :
    ∃ e, Rounded (10 ^ n) e (powerOfTen n) := by
  have hvalue : ((Nat.pow 10 n : Nat) / (1 : Nat) : ℚ) = 10 ^ n := by simp
  have hlt : ((Nat.pow 10 n : Nat) / (1 : Nat) : ℚ) < overflow := by
    rw [hvalue]
    exact (pow_le_pow_right₀ (by norm_num) hn).trans_lt overflow_bounds.1
  obtain ⟨e, x, hx, heq⟩ := roundRatio_of_lt (Nat.pow 10 n) Nat.one_pos hlt
  refine ⟨e, ?_⟩
  rw [powerOfTen, heq, ← hvalue]
  exact hx

theorem le_powerOfTen {n : Nat} (hn : n ≤ 308) :
    10 ^ n * (1 - unitError) ≤ magnitude (powerOfTen n) ∧
      magnitude (powerOfTen n) ≤ 10 ^ n * (1 + unitError) := by
  obtain ⟨e, hx⟩ := rounded_powerOfTen hn
  have hnear := abs_le.1 (hx.relative (one_le_pow₀ (by norm_num)))
  constructor <;> linarith [hnear.1, hnear.2]

theorem mantissa_pos (h : 0 < magnitude x) : 0 < x.1 := by
  refine Nat.pos_of_ne_zero fun hzero => ?_
  simp [magnitude, hzero] at h

theorem mulMagnitude_of_lt (h : magnitude x * magnitude y < overflow) :
    ∃ z, mulMagnitude x y = some z := by
  have hvalue := scaleByTwo_div (x.1 * y.1) (x.2 + y.2)
  have hproduct : ((x.1 * y.1 : Nat) : ℚ) * 2 ^ (x.2 + y.2) = magnitude x * magnitude y := by
    rw [magnitude, magnitude, zpow_add₀ (by norm_num)]
    push_cast
    ring
  rw [hproduct] at hvalue
  obtain ⟨e, z, -, hz⟩ := roundRatio_of_lt _ (scaleByTwo_pos (x.1 * y.1) (x.2 + y.2)) (hvalue ▸ h)
  exact ⟨z, hz⟩

theorem divMagnitude_of_lt (hy : 0 < magnitude y) (h : magnitude x / magnitude y < overflow) :
    ∃ e z, Rounded (magnitude x / magnitude y) e z ∧ divMagnitude x y = some z := by
  have hquotient : ((scaleByTwo x.1 (x.2 - y.2)).1 : ℚ) /
      ((scaleByTwo x.1 (x.2 - y.2)).2 * y.1 : Nat) = magnitude x / magnitude y := by
    rw [magnitude, magnitude, Nat.cast_mul, ← div_div, scaleByTwo_div, zpow_sub₀ (by norm_num)]
    field_simp
  have hden : 0 < (scaleByTwo x.1 (x.2 - y.2)).2 * y.1 :=
    Nat.mul_pos (scaleByTwo_pos _ _) (mantissa_pos hy)
  rw [← hquotient] at h ⊢
  exact roundRatio_of_lt _ hden h

/-- Dividing by a power of ten stays in range. -/
theorem divMagnitude_powerOfTen {k : Nat} (hk : k ≤ 308) (h : magnitude x ≤ 2 ^ 100) :
    ∃ z, divMagnitude x (powerOfTen k) = some z ∧ (0 < k → magnitude z ≤ 2 ^ 100) := by
  have hunit : 0 < unitError ∧ unitError ≤ 1 / 2 := ⟨unitError_pos, by norm_num [unitError]⟩
  have hx := magnitude_nonneg x
  have hlow : (10 : ℚ) ^ k / 2 ≤ magnitude (powerOfTen k) := by
    have hle := (le_powerOfTen hk).1
    have : (10 : ℚ) ^ k * unitError ≤ 10 ^ k * (1 / 2) := by
      gcongr
      exact hunit.2
    linarith
  have hpow : (1 : ℚ) ≤ 10 ^ k := one_le_pow₀ (by norm_num)
  have hy : 0 < magnitude (powerOfTen k) := by linarith
  have hquotient : magnitude x / magnitude (powerOfTen k) ≤ 2 ^ 101 := by
    rw [div_le_iff₀ hy]
    linarith
  obtain ⟨e, z, hz, heq⟩ := divMagnitude_of_lt hy (lt_overflow_of_le hquotient)
  refine ⟨z, heq, fun hpos => ?_⟩
  have hten : (10 : ℚ) ≤ 10 ^ k := le_self_pow₀ (by norm_num) hpos.ne'
  have hless : magnitude x / magnitude (powerOfTen k) ≤ 2 ^ 98 := by
    rw [div_le_iff₀ hy]
    linarith
  have hround := hz.le (by positivity)
  have : magnitude x / magnitude (powerOfTen k) * (1 + unitError) ≤ 2 ^ 98 * (1 + 1 / 2) := by
    gcongr
    · linarith
    · exact hunit.2
  linarith

theorem divPowerOfTen_ne_none (n : Nat) (h : magnitude x ≤ 2 ^ 100) :
    divPowerOfTen x n ≠ none := by
  induction n using Nat.strongRecOn generalizing x with
  | ind n ih =>
    rw [divPowerOfTen]
    split
    · obtain ⟨z, hz, -⟩ := divMagnitude_powerOfTen ‹_› h
      simp [hz]
    split
    · exact Option.some_ne_none x
    · obtain ⟨z, hz, hle⟩ := divMagnitude_powerOfTen (le_refl 308) h
      rw [hz]
      exact ih (n - 308) (by omega) (hle (by decide))

/-- A decimal is read as a double if it stays clear of the overflow by what its digits and its
power of ten may be off. Below the point nothing can go wrong. -/
theorem ofDecimal_ne_none {s : Nat} {e : Int} (hs : s < 2 ^ 64)
    (h : e ≤ 0 ∨ s * 10 ^ e * (1 + unitError) ^ 2 < overflow) : ofDecimal s e ≠ none := by
  have hunit := unitError_pos
  have hvalue : ((s : Nat) / (1 : Nat) : ℚ) = s := by simp
  have hsmall : (s : ℚ) < 2 ^ 64 := by exact_mod_cast hs
  have hunit' : (2 : ℚ) ^ 64 * (1 + unitError) ^ 2 ≤ 2 ^ 101 := by norm_num [unitError]
  have hlt : ((s : Nat) / (1 : Nat) : ℚ) < overflow := by
    rw [hvalue]
    exact lt_overflow_of_le (hsmall.le.trans (pow_le_pow_right₀ (by norm_num) (by norm_num)))
  obtain ⟨e', x, hx, heq⟩ := roundRatio_of_lt s Nat.one_pos hlt
  rw [hvalue] at hx
  have hsignificand : magnitude x ≤ s * (1 + unitError) := by
    rcases Nat.eq_zero_or_pos s with rfl | hpos
    · cases heq
      simp [magnitude]
    · have := (abs_le.1 (hx.relative (by exact_mod_cast hpos))).2
      linarith
  rw [ofDecimal, heq]
  simp only
  split
  · refine divPowerOfTen_ne_none _ (hsignificand.trans ?_)
    have : (s : ℚ) * (1 + unitError) ≤ 2 ^ 64 * (1 + 1) := by
      gcongr
      norm_num [unitError]
    exact this.trans (by norm_num)
  rename_i hnonneg
  obtain ⟨k, rfl⟩ := Int.eq_ofNat_of_zero_le (not_lt.1 hnonneg)
  have hbound : (s : ℚ) * 10 ^ k * (1 + unitError) ^ 2 < overflow := by
    rcases h with hzero | h
    · obtain rfl : k = 0 := by omega
      refine lt_overflow_of_le (le_trans ?_ hunit')
      rw [pow_zero, mul_one]
      gcongr
    · exact_mod_cast h
  split
  · have hk : k ≤ 308 := by omega
    obtain ⟨z, hz⟩ := mulMagnitude_of_lt (x := x) (y := powerOfTen k) <|
      calc magnitude x * magnitude (powerOfTen k)
          ≤ s * (1 + unitError) * (10 ^ k * (1 + unitError)) := by
            gcongr
            exacts [magnitude_nonneg _, (le_powerOfTen hk).2]
        _ = s * 10 ^ k * (1 + unitError) ^ 2 := by ring
        _ < overflow := hbound
    simp [hz]
  split
  · exact Option.some_ne_none x
  rename_i hk hx0
  -- a power of ten past the doubles is left to zero
  have hpos : s ≠ 0 := by
    rintro rfl
    cases heq
    exact hx0 rfl
  have hone : (1 : ℚ) ≤ s := by exact_mod_cast Nat.one_le_iff_ne_zero.2 hpos
  have hpow : (10 : ℚ) ^ 309 ≤ 10 ^ k := pow_le_pow_right₀ (by norm_num) (by omega)
  have hmore : (10 : ℚ) ^ k ≤ s * 10 ^ k * (1 + unitError) ^ 2 := by
    have hfactor : (1 : ℚ) ≤ (1 + unitError) ^ 2 := one_le_pow₀ (by linarith)
    calc (10 : ℚ) ^ k = 1 * 10 ^ k * 1 := by ring
      _ ≤ s * 10 ^ k * (1 + unitError) ^ 2 := by gcongr
  exact absurd overflow_bounds.2 (not_lt.2 ((hpow.trans hmore).trans hbound.le))

/-- What is read of a decimal is a double. -/
theorem isDouble_of_ofDecimal {s : Nat} {e : Int} (h : ofDecimal s e = some x) : IsDouble x := by
  have hdiv {x y z : Nat × Int} (hy : 0 < y.1) (h : divMagnitude x y = some z) : IsDouble z :=
    isDouble_of_roundRatio (Nat.mul_pos (scaleByTwo_pos _ _) hy) h
  have hmantissa {n : Nat} (hn : n ≤ 308) : 0 < (powerOfTen n).1 := by
    refine mantissa_pos (lt_of_lt_of_le ?_ (le_powerOfTen hn).1)
    have hless : 0 < 1 - unitError := by norm_num [unitError]
    positivity
  have hdivs (n : Nat) {x z : Nat × Int} (hx : IsDouble x) (h : divPowerOfTen x n = some z) :
      IsDouble z := by
    induction n using Nat.strongRecOn generalizing x with
    | ind n ih =>
      rw [divPowerOfTen] at h
      split at h
      · exact hdiv (hmantissa ‹_›) h
      split at h
      · cases h
        exact hx
      split at h
      · cases h
      · rename_i y hy
        exact ih (n - 308) (by omega) (hdiv (hmantissa le_rfl) hy) h
  unfold ofDecimal at h
  split at h
  · cases h
  rename_i y hy
  have hdouble := isDouble_of_roundRatio Nat.one_pos hy
  split at h
  · exact hdivs _ hdouble h
  split at h
  · exact isDouble_of_roundRatio (scaleByTwo_pos _ _) h
  split at h
  · cases h
    exact hdouble
  · cases h

end Rollout.Number
