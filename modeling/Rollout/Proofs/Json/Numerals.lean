import Rollout.Proofs.Json.Written
import Rollout.Proofs.Number.ShortestDecimal

/-!
Numbers in a document. The reader comes to the end of a printed number and not past it. A
printed double is some number again, although not always the one it was: its digits are rounded,
its power of ten is rounded and then their product, and none of that leads past the greatest
double.
-/

namespace Rollout.Json

open Number

/-! ## Digits -/

/-- What may follow a printed value: nothing, a comma, a line break or a closing bracket. -/
def Closes : List Char → Prop
  | [] => True
  | c :: _ => c = ',' ∨ c = '\n' ∨ c = ']' ∨ c = '}'

theorem digit?_of_isDecimal {c : Char} (h : IsDecimal c) : digit? c = some (c.toNat - 48) :=
  if_pos h

theorem readDigits_append {cs rest : List Char} (hcs : ∀ c ∈ cs, IsDecimal c)
    (hrest : ∀ c ∈ rest.head?, digit? c = none) :
    readDigits (cs ++ rest) = (cs.map fun c => c.toNat - 48, rest) := by
  induction cs with
  | nil =>
    cases rest with
    | nil => rfl
    | cons c rest => simp [readDigits, hrest c rfl]
  | cons c cs ih =>
    rw [List.cons_append, readDigits, digit?_of_isDecimal (hcs c List.mem_cons_self)]
    simp [ih fun d hd => hcs d (List.mem_cons_of_mem c hd)]

theorem Closes.digit?_head {rest : List Char} (h : Closes rest) :
    ∀ c ∈ rest.head?, digit? c = none := by
  cases rest with
  | nil => simp
  | cons c rest =>
    rintro d ⟨⟩
    rcases h with rfl | rfl | rfl | rfl <;> decide

theorem Closes.readFraction {rest : List Char} (h : Closes rest) :
    readFraction rest = some (none, rest) := by
  cases rest with
  | nil => rfl
  | cons c rest => rcases h with rfl | rfl | rfl | rfl <;> rfl

theorem Closes.readExponent {rest : List Char} (h : Closes rest) :
    readExponent rest = some (none, rest) := by
  cases rest with
  | nil => rfl
  | cons c rest => rcases h with rfl | rfl | rfl | rfl <;> rfl

/-- The values of decimal digits. -/
def valuesOf (cs : List Char) : List Nat := cs.map fun c => c.toNat - 48

/-- Digits that may stand before a point: a zero alone, or digits that begin with none. -/
structure WholeDigits (ws : List Char) : Prop where
  decimal : ∀ c ∈ ws, IsDecimal c
  nonempty : ws ≠ []
  leading : ws.length = 1 ∨ ws.head? ≠ some '0'

theorem exists_cons_toDigits (n : Nat) : ∃ c cs, Nat.toDigits 10 n = c :: cs ∧ IsDecimal c := by
  cases h : Nat.toDigits 10 n with
  | nil => exact absurd h Nat.toDigits_ne_nil
  | cons c cs =>
    exact ⟨c, cs, rfl, isDecimal_of_mem_toDigits (h ▸ List.mem_cons_self)⟩

theorem eq_zero_of_isDecimal {c : Char} (hc : IsDecimal c) (h : c.toNat - 48 = 0) : c = '0' := by
  have : c.toNat = '0'.toNat := by
    rcases hc with ⟨h1, h2⟩
    change c.toNat = 48
    omega
  rw [← Char.ofNat_toNat c, this, Char.ofNat_toNat]

theorem head?_toDigits {n : Nat} (h : 0 < n) : (Nat.toDigits 10 n).head? ≠ some '0' := by
  intro hhead
  refine head?_digitsOf h ?_
  rw [digitsOf, List.head?_map, hhead]
  rfl

theorem wholeDigits_toDigits (n : Nat) : WholeDigits (Nat.toDigits 10 n) where
  decimal _ hc := isDecimal_of_mem_toDigits hc
  nonempty := Nat.toDigits_ne_nil
  leading := by
    rcases Nat.eq_zero_or_pos n with rfl | hn
    · exact .inl rfl
    · exact .inr (head?_toDigits hn)

theorem readWhole_append {ws rest : List Char} (h : WholeDigits ws)
    (hrest : ∀ c ∈ rest.head?, digit? c = none) :
    readWhole (ws ++ rest) = some (valuesOf ws, rest) := by
  have hread := readDigits_append h.decimal hrest
  rw [readWhole, hread, valuesOf]
  match ws, h with
  | [], h => exact absurd rfl h.nonempty
  | [c], _ => cases hc : c.toNat - 48 <;> simp [hc]
  | c :: d :: ws, h =>
    have hhead : c ≠ '0' := by
      rintro rfl
      rcases h.leading with hlen | hlead
      · simp at hlen
      · exact hlead rfl
    cases hc : c.toNat - 48 with
    | zero => exact absurd (eq_zero_of_isDecimal (h.decimal c List.mem_cons_self) hc) hhead
    | succ k => simp [hc]

/-- A text that is read as a literal, but for its sign. -/
structure Unsigned (cs : List Char) (l : Literal) : Prop where
  opens : ∃ c cs', cs = c :: cs' ∧ IsDecimal c
  read : ∀ rest, Closes rest → readUnsigned l.negative (cs ++ rest) = some (l, rest)

theorem Unsigned.readNumber {cs rest : List Char} {l : Literal} (h : Unsigned cs l)
    (hrest : Closes rest) :
    readNumber ((if l.negative then '-' :: cs else cs) ++ rest) = some (l, rest) := by
  cases hsign : l.negative with
  | true =>
    rw [if_pos rfl, List.cons_append, Json.readNumber, ← hsign]
    exact h.read rest hrest
  | false =>
    obtain ⟨c, cs', rfl, hc⟩ := h.opens
    have hne : c ≠ '-' := by
      rintro rfl
      exact absurd hc.1 (by decide)
    rw [if_neg Bool.false_ne_true, ← h.read rest hrest, hsign, List.cons_append, Json.readNumber]
    rintro _ ⟨rfl, -⟩
    exact hne rfl

theorem unsigned_toDigits (negative : Bool) (n : Nat) :
    Unsigned (Nat.toDigits 10 n) ⟨negative, digitsOf n, none, none⟩ where
  opens := exists_cons_toDigits n
  read rest hrest := by
    have hwhole := readWhole_append (wholeDigits_toDigits n) hrest.digit?_head
    simp [readUnsigned, hwhole, hrest.readFraction, hrest.readExponent, valuesOf, digitsOf]

theorem readNumber_intText (n : Int) {rest : List Char} (h : Closes rest) :
    readNumber (intText n ++ rest) = some (.ofInt n, rest) := by
  have hread := (unsigned_toDigits (decide (n < 0)) n.natAbs).readNumber h
  simpa [intText, Literal.ofInt] using hread

/-! ## Fractions and exponents -/

/-- A fraction, unless it has no digits. -/
def fractionText (fs : List Char) : List Char := if fs = [] then [] else '.' :: fs

/-- The fraction of a literal that `fractionText` is read as. -/
def fractionOf (fs : List Char) : Option (List Nat) := if fs = [] then none else some (valuesOf fs)

theorem readFraction_append {fs rest : List Char} (hfs : ∀ c ∈ fs, IsDecimal c)
    (hrest : ∀ c ∈ rest.head?, digit? c = none) (hpoint : rest.head? ≠ some '.') :
    readFraction (fractionText fs ++ rest) = some (fractionOf fs, rest) := by
  unfold fractionText fractionOf
  split
  · rw [List.nil_append, readFraction]
    rintro cs rfl
    exact hpoint rfl
  · rename_i hne
    rw [List.cons_append, readFraction, readDigits_append hfs hrest]
    obtain ⟨c, cs, rfl⟩ := List.exists_cons_of_ne_nil hne
    rfl

theorem digit?_head_fractionText (fs : List Char) {rest : List Char}
    (hrest : ∀ c ∈ rest.head?, digit? c = none) :
    ∀ c ∈ (fractionText fs ++ rest).head?, digit? c = none := by
  unfold fractionText
  split
  · exact hrest
  · rintro c ⟨⟩
    decide

theorem Closes.head?_ne_point {rest : List Char} (h : Closes rest) : rest.head? ≠ some '.' := by
  cases rest with
  | nil => simp
  | cons c rest => rcases h with rfl | rfl | rfl | rfl <;> simp

theorem unsigned_point {ws fs : List Char} (negative : Bool) (hws : WholeDigits ws)
    (hfs : ∀ c ∈ fs, IsDecimal c) :
    Unsigned (ws ++ fractionText fs) ⟨negative, valuesOf ws, fractionOf fs, none⟩ where
  opens := by
    obtain ⟨c, cs, rfl⟩ := List.exists_cons_of_ne_nil hws.nonempty
    exact ⟨c, _, rfl, hws.decimal c List.mem_cons_self⟩
  read rest hrest := by
    have hwhole := readWhole_append hws (digit?_head_fractionText fs hrest.digit?_head)
    have hfraction := readFraction_append hfs hrest.digit?_head hrest.head?_ne_point
    simp [readUnsigned, List.append_assoc, hwhole, hfraction, hrest.readExponent]

theorem unsigned_scientific {ws fs : List Char} (negative minus : Bool) (n : Nat)
    (hws : WholeDigits ws) (hfs : ∀ c ∈ fs, IsDecimal c) :
    Unsigned (ws ++ fractionText fs ++ 'e' :: (if minus then '-' else '+') :: Nat.toDigits 10 n)
      ⟨negative, valuesOf ws, fractionOf fs, some (minus, n)⟩ where
  opens := by
    obtain ⟨c, cs, rfl⟩ := List.exists_cons_of_ne_nil hws.nonempty
    exact ⟨c, _, rfl, hws.decimal c List.mem_cons_self⟩
  read rest hrest := by
    have hmark : ∀ c ∈ ('e' :: (if minus then '-' else '+') :: (Nat.toDigits 10 n ++ rest)).head?,
        digit? c = none := by
      rintro c ⟨⟩
      decide
    have hwhole := readWhole_append hws (digit?_head_fractionText fs hmark)
    have hfraction := readFraction_append hfs hmark (by simp)
    have hdigits : readDigits (Nat.toDigits 10 n ++ rest) = (digitsOf n, rest) :=
      readDigits_append (fun c hc => isDecimal_of_mem_toDigits hc) hrest.digit?_head
    have hspell : (digitsOf n).foldl (fun n d => n * 10 + d) 0 = n := foldl_digitsOf n
    have hexponent : readExponent
        ('e' :: (if minus then '-' else '+') :: (Nat.toDigits 10 n ++ rest)) =
          some (some (minus, n), rest) := by
      obtain ⟨d, ds, hds⟩ := List.exists_cons_of_ne_nil (digitsOf_ne_nil n)
      rw [hds] at hdigits hspell
      rw [readExponent, if_pos (.inl rfl)]
      cases minus <;> simp only [Bool.false_eq_true, if_false, if_true, readSign, hdigits, hspell]
    simp [readUnsigned, List.append_assoc, hwhole, hfraction, hexponent]

/-! ## Values -/

/-- The number that digits spell. -/
def spelled (ds : List Nat) : Nat := ds.foldl appendDigit 0

theorem foldl_appendDigit_eq (n : Nat) (ds : List Nat) :
    ds.foldl appendDigit n = n * 10 ^ ds.length + spelled ds := by
  induction ds generalizing n with
  | nil => simp [spelled]
  | cons d ds ih =>
    rw [spelled, List.foldl_cons, List.foldl_cons, ih, ih (appendDigit 0 d), List.length_cons,
      pow_succ]
    unfold appendDigit
    ring

theorem spelled_lt {ds : List Nat} (h : ∀ d ∈ ds, d ≤ 9) : spelled ds < 10 ^ ds.length := by
  induction ds with
  | nil => exact Nat.one_pos
  | cons d ds ih =>
    have hrest := ih fun e he => h e (List.mem_cons_of_mem _ he)
    have hd := h d List.mem_cons_self
    have hmul : d * 10 ^ ds.length ≤ 9 * 10 ^ ds.length := Nat.mul_le_mul_right _ hd
    rw [spelled, List.foldl_cons, foldl_appendDigit_eq, List.length_cons, pow_succ]
    simp only [appendDigit, Nat.zero_mul, Nat.zero_add]
    omega

theorem valuesOf_le {cs : List Char} (h : ∀ c ∈ cs, IsDecimal c) : ∀ d ∈ valuesOf cs, d ≤ 9 := by
  intro d hd
  obtain ⟨c, hc, rfl⟩ := List.mem_map.1 hd
  have := (h c hc).2
  omega

/-- Digits that did not fit are no more than zeros would have been. -/
theorem gather_spec (n : Nat) (ds : List Nat) :
    (gather n ds).1 * 10 ^ (gather n ds).2.length ≤ ds.foldl appendDigit n ∧
      (gather n ds).2.length ≤ ds.length := by
  induction ds generalizing n with
  | nil => simp [gather]
  | cons d ds ih =>
    rw [gather]
    split
    · obtain ⟨hle, hlen⟩ := ih (n * 10 + d)
      exact ⟨hle, hlen.trans (Nat.le_succ _)⟩
    · exact ⟨(foldl_appendDigit_eq n (d :: ds)).symm ▸ Nat.le_add_right _ _, le_rfl⟩

/-- A literal whose digits before the point fit a significand is worth no more than its digits
spell. -/
theorem exists_significand {l : Literal} (hwhole : spelled l.whole < significandBound)
    (hform : l.fraction ≠ none ∨ l.exponent ≠ none) : ∃ (s : Nat) (start : Int),
      l.value? = withExponent l.negative s start l.exponent ∧ s < 2 ^ 64 ∧ start ≤ 0 ∧
        (s : ℚ) * 10 ^ start ≤ decimal
          (spelled (l.whole ++ l.fraction.getD []), -((l.fraction.getD []).length : Int)) := by
  have hgather := gather_of_lt l.whole 0 hwhole
  obtain ⟨negative, whole, fraction, exponent⟩ := l
  cases fraction with
  | none =>
    have hexponent : exponent.isNone = false := by
      rcases hform with h | h
      · exact absurd rfl h
      · exact Option.isNone_eq_false_iff.2 (Option.isSome_iff_ne_none.2 h)
    refine ⟨spelled whole, 0, ?_, hwhole, le_rfl, by simp [decimal]⟩
    simp [Literal.value?, hgather, hexponent, spelled]
  | some ds =>
    obtain ⟨hle, hlen⟩ := gather_spec (spelled whole) ds
    have hlt := gather_fst_lt ds hwhole
    refine ⟨(gather (spelled whole) ds).1, -(ds.length - (gather (spelled whole) ds).2.length : Int),
      ?_, hlt, by omega, ?_⟩
    · simp [Literal.value?, hgather, spelled]
    · have hspelled : spelled (whole ++ ds) = ds.foldl appendDigit (spelled whole) :=
        List.foldl_append
      have hle' : ((gather (spelled whole) ds).1 : ℚ) * 10 ^ (gather (spelled whole) ds).2.length ≤
          spelled (whole ++ ds) := by
        rw [hspelled]
        exact_mod_cast hle
      rw [decimal, Option.getD_some, neg_sub, zpow_sub₀ (by norm_num), zpow_neg, zpow_natCast,
        zpow_natCast, div_eq_mul_inv, ← mul_assoc]
      gcongr

/-- A power of ten no greater than a number of a thousand bits is no greater itself. -/
theorem exponent_lt {n : Nat} (h : (10 : ℚ) ^ n < overflow) : n < 309 := by
  by_contra hbig
  have hpow : (10 : ℚ) ^ 309 ≤ 10 ^ n := pow_le_pow_right₀ (by norm_num) (by omega)
  exact absurd overflow_bounds.2 (not_lt.2 (hpow.trans h.le))

/-- A literal is a number if it is clear of the overflow, or has no positive exponent. -/
theorem value?_ne_none {l : Literal} (hwhole : spelled l.whole < significandBound)
    (hform : l.fraction ≠ none ∨ l.exponent ≠ none)
    (hclear : ∀ n, l.exponent = some (false, n) → (10 : ℚ) ^ n < overflow ∧
      decimal (spelled (l.whole ++ l.fraction.getD []), n - ((l.fraction.getD []).length : Int)) *
        (1 + unitError) ^ 2 < overflow) :
    l.value? ≠ none := by
  obtain ⟨s, start, hvalue, hs, hstart, hle⟩ := exists_significand hwhole hform
  have hscaled {e : Int} (he : e ≤ 0 ∨ s * 10 ^ e * (1 + unitError) ^ 2 < overflow) :
      scaled l.negative s e ≠ none := by
    rw [scaled, Ne, Option.map_eq_none_iff]
    exact ofDecimal_ne_none hs he
  rw [hvalue]
  match hexponent : l.exponent with
  | none => exact hscaled (.inl hstart)
  | some (true, n) =>
    rw [withExponent]
    split
    · simp
    · exact hscaled (.inl (by simp only [if_true]; omega))
  | some (false, n) =>
    obtain ⟨hn, hclear⟩ := hclear n hexponent
    rw [withExponent, if_neg (by have := exponent_lt hn; simp only [UInt32.size]; omega)]
    refine hscaled (.inr (lt_of_le_of_lt ?_ hclear))
    rw [if_neg Bool.false_ne_true, sub_eq_neg_add, decimal_add, zpow_add₀ (by norm_num),
      ← mul_assoc]
    gcongr

/-! ## Doubles -/

/-- A double whose decimal stays clear of the overflow when it is read. -/
def Clear (x : Binary64) : Prop :=
  (x.mantissa + 1 / 2) * 2 ^ x.exponent * (1 + unitError) ^ 2 < overflow

/-- What a magnitude is printed as. -/
def magnitudeText (x : Binary64) : List Char := floatText { x with negative := false }

theorem floatText_eq (x : Binary64) :
    floatText x = if x.negative then '-' :: magnitudeText x else magnitudeText x := by
  unfold magnitudeText floatText
  cases x.negative <;> simp

theorem isDecimal_zero : IsDecimal '0' := ⟨by decide, by decide⟩

theorem isDecimal_of_mem_zeros {n : Nat} {c : Char} (h : c ∈ List.replicate n '0') : IsDecimal c := by
  rw [List.eq_of_mem_replicate h]
  exact isDecimal_zero

/-- Digits with a point are a fraction. -/
theorem exists_pointText {digits : List Char} {places : Int} (hdigits : ∀ c ∈ digits, IsDecimal c)
    (hne : digits ≠ []) (hlead : digits.head? ≠ some '0' ∨ places ≤ 1) (hplaces : places ≤ 16) :
    ∃ ws fs, pointText digits places = ws ++ fractionText fs ∧ WholeDigits ws ∧
      (∀ c ∈ fs, IsDecimal c) ∧ fs ≠ [] ∧ ws.length ≤ 16 := by
  unfold pointText
  split
  · refine ⟨['0'], List.replicate (-places).toNat '0' ++ digits, by simp [fractionText, hne],
      ⟨by simp [isDecimal_zero], by simp, .inl rfl⟩, ?_, by simp [hne], by simp⟩
    intro c hc
    rcases List.mem_append.1 hc with hc | hc
    · exact isDecimal_of_mem_zeros hc
    · exact hdigits c hc
  rename_i hpos
  obtain ⟨n, rfl⟩ := Int.eq_ofNat_of_zero_le (by omega : 0 ≤ places)
  simp only [Int.toNat_natCast]
  obtain ⟨c, cs, rfl⟩ := List.exists_cons_of_ne_nil hne
  obtain ⟨k, rfl⟩ : ∃ k, n = k + 1 := ⟨n - 1, by omega⟩
  obtain ⟨fs, hfs⟩ : ∃ fs, (if ((c :: cs).drop (k + 1)).isEmpty then ['0']
      else (c :: cs).drop (k + 1)) = fs := ⟨_, rfl⟩
  have hne' : fs ≠ [] := by
    rw [← hfs]
    split
    · simp
    · rename_i hmore
      exact fun h => hmore (List.isEmpty_iff.2 h)
  have hdecimal : ∀ d ∈ fs, IsDecimal d := by
    intro d hd
    rw [← hfs] at hd
    split at hd
    · rw [List.mem_singleton.1 hd]
      exact isDecimal_zero
    · exact hdigits d (List.mem_of_mem_drop hd)
  refine ⟨(c :: cs).take (k + 1) ++ List.replicate (k + 1 - (c :: cs).length) '0', fs, ?_,
    ⟨?_, by simp, ?_⟩, hdecimal, hne', ?_⟩
  · rw [fractionText, if_neg hne', hfs]
  · intro d hd
    rcases List.mem_append.1 hd with hd | hd
    · exact hdigits d (List.mem_of_mem_take hd)
    · exact isDecimal_of_mem_zeros hd
  · rcases hlead with hlead | hone
    · exact .inr (by simpa using hlead)
    · obtain rfl : k = 0 := by omega
      exact .inl (by simp)
  · simp only [List.length_append, List.length_take, List.length_replicate]
    omega

/-- The digits of a decimal in scientific form are a fraction with an exponent. -/
theorem scientificText_cons (c : Char) (cs : List Char) (e : Int) :
    scientificText (c :: cs) e = [c] ++ fractionText cs ++
      'e' :: (if decide (e < 0) then '-' else '+') :: Nat.toDigits 10 e.natAbs := by
  unfold scientificText fractionText
  cases cs <;> by_cases he : e < 0 <;> simp [he]

theorem getD_fractionOf (fs : List Char) : (fractionOf fs).getD [] = valuesOf fs := by
  unfold fractionOf
  split
  · rename_i h
    rw [h]
    rfl
  · rfl

theorem one_le_of_isDecimal {c : Char} (hc : IsDecimal c) (h : c ≠ '0') : 1 ≤ c.toNat - 48 :=
  Nat.pos_of_ne_zero fun hzero => h (eq_zero_of_isDecimal hc hzero)

/-- A number has as many digits as it is great. -/
theorem pow_length_le {n : Nat} {c : Char} {cs : List Char} (hn : 0 < n)
    (h : Nat.toDigits 10 n = c :: cs) : 10 ^ cs.length ≤ n := by
  have hc : c ≠ '0' := by
    rintro rfl
    exact head?_toDigits hn (by rw [h]; rfl)
  have hdecimal : IsDecimal c := isDecimal_of_mem_toDigits (h ▸ List.mem_cons_self)
  have hspell : spelled (valuesOf (c :: cs)) = n := by
    rw [← h]
    exact foldl_digitsOf n
  rw [spelled, valuesOf, List.map_cons, List.foldl_cons, foldl_appendDigit_eq, List.length_map,
    appendDigit, Nat.zero_mul, Nat.zero_add] at hspell
  calc 10 ^ cs.length = 1 * 10 ^ cs.length := (Nat.one_mul _).symm
    _ ≤ (c.toNat - 48) * 10 ^ cs.length :=
      Nat.mul_le_mul_right _ (one_le_of_isDecimal hdecimal hc)
    _ ≤ n := by omega

theorem value?_point {ws fs : List Char} (negative : Bool) (hws : WholeDigits ws) (hne : fs ≠ [])
    (hlen : ws.length ≤ 16) :
    (⟨negative, valuesOf ws, fractionOf fs, none⟩ : Literal).value? ≠ none := by
  refine value?_ne_none ?_ (.inl (by simp [fractionOf, hne])) nofun
  refine (spelled_lt (valuesOf_le hws.decimal)).trans_le ?_
  rw [valuesOf, List.length_map]
  exact (Nat.pow_le_pow_right (by decide) hlen).trans (by decide)

theorem value?_scientific {x : Binary64} {d : Nat} {k : Int} {c : Char} {cs : List Char}
    (negative : Bool) (hx : Clear x) (hle : decimal (d, k) ≤ (x.mantissa + 1 / 2) * 2 ^ x.exponent)
    (hd : 0 < d) (hdigits : Nat.toDigits 10 d = c :: cs) :
    (⟨negative, valuesOf [c], fractionOf cs,
      some (decide (k + cs.length < 0), (k + cs.length).natAbs)⟩ : Literal).value? ≠ none := by
  have hdecimal : ∀ e ∈ [c], IsDecimal e := by
    rintro e he
    rw [List.mem_singleton.1 he]
    exact isDecimal_of_mem_toDigits (hdigits ▸ List.mem_cons_self)
  have hunit : (1 : ℚ) ≤ (1 + unitError) ^ 2 := one_le_pow₀ (by linarith [unitError_pos])
  have hnonneg : 0 ≤ decimal (d, k) := by unfold decimal; positivity
  refine value?_ne_none ?_ (.inr (by simp)) fun n hn => ?_
  · exact (spelled_lt (valuesOf_le hdecimal)).trans_le (show 10 ^ 1 ≤ significandBound by decide)
  simp only [Option.some.injEq, Prod.mk.injEq, decide_eq_false_iff_not, not_lt] at hn
  obtain rfl : k = (n : Int) - cs.length := by omega
  have hspell : spelled (valuesOf [c] ++ (fractionOf cs).getD []) = d := by
    rw [getD_fractionOf, valuesOf, valuesOf, ← List.map_append, List.singleton_append, ← hdigits]
    exact foldl_digitsOf d
  have hlen : ((fractionOf cs).getD []).length = cs.length := by
    rw [getD_fractionOf, valuesOf, List.length_map]
  rw [hspell, hlen]
  have hclear : decimal (d, (n : Int) - cs.length) * (1 + unitError) ^ 2 < overflow :=
    lt_of_le_of_lt (by gcongr) hx
  refine ⟨lt_of_le_of_lt ?_ hclear, hclear⟩
  have hpow : ((10 : ℚ) ^ cs.length) ≤ d := by exact_mod_cast pow_length_le hd hdigits
  calc (10 : ℚ) ^ n = 10 ^ cs.length * 10 ^ ((n : Int) - cs.length) := by
        rw [← zpow_natCast, ← zpow_natCast, ← zpow_add₀ (by norm_num)]
        congr 1
        ring
    _ ≤ d * 10 ^ ((n : Int) - cs.length) := by gcongr
    _ ≤ decimal (d, (n : Int) - cs.length) * (1 + unitError) ^ 2 :=
      le_mul_of_one_le_right hnonneg hunit

/-- The literal of a double, but for its sign, and when it has a value. -/
theorem exists_literal (x : Binary64) : ∃ l, l.negative = x.negative ∧
    Unsigned (magnitudeText x) l ∧ (Clear x → l.value? ≠ none) := by
  rw [magnitudeText, floatText]
  simp only [Bool.false_eq_true, if_false]
  by_cases hzero : x.mantissa = 0
  · have hdigit := wholeDigits_toDigits 0
    rw [if_pos hzero]
    exact ⟨_, rfl, unsigned_point x.negative hdigit
      (show ∀ c ∈ ['0'], IsDecimal c from hdigit.decimal), fun _ =>
      value?_point x.negative hdigit (by simp) (by decide)⟩
  rw [if_neg hzero]
  obtain ⟨hvalue, hleading⟩ := stripZeros_spec 400 (shortestDecimal x.mantissa x.exponent)
  obtain ⟨hshort, hle⟩ := shortestDecimal_spec (Nat.pos_of_ne_zero hzero) x.exponent
  have hlead := hleading hshort
  rw [← hvalue] at hle
  obtain ⟨d, k, hdk⟩ : ∃ d k, stripZeros 400 (shortestDecimal x.mantissa x.exponent) = (d, k) :=
    ⟨_, _, rfl⟩
  rw [hdk] at hle hlead ⊢
  simp only
  have hdecimal : ∀ c ∈ Nat.toDigits 10 d, IsDecimal c := fun c => isDecimal_of_mem_toDigits
  split
  · rename_i hrange
    have hfirst : (Nat.toDigits 10 d).head? ≠ some '0' ∨
        k + (Nat.toDigits 10 d).length - 1 + 1 ≤ 1 := by
      rcases Nat.eq_zero_or_pos d with rfl | hd
      · rcases hlead with hd | hk
        · exact absurd hd (lt_irrefl 0)
        · obtain rfl : k = 0 := hk
          exact .inr (by decide)
      · exact .inl (head?_toDigits hd)
    obtain ⟨ws, fs, htext, hws, hfs, hne, hlen⟩ :=
      exists_pointText hdecimal Nat.toDigits_ne_nil hfirst (by omega)
    rw [htext]
    exact ⟨_, rfl, unsigned_point x.negative hws hfs, fun _ =>
      value?_point x.negative hws hne hlen⟩
  · rename_i hrange
    obtain ⟨c, cs, hdigits, hc⟩ := exists_cons_toDigits d
    have hd : 0 < d := by
      rcases Nat.eq_zero_or_pos d with rfl | hd
      · obtain rfl : k = 0 := hlead.resolve_left (lt_irrefl 0)
        exact absurd (by decide) hrange
      · exact hd
    have hexponent : k + ((c :: cs).length : Int) - 1 = k + cs.length := by
      rw [List.length_cons]
      push_cast
      ring
    rw [hdigits, hexponent, scientificText_cons]
    have hone : WholeDigits [c] := ⟨by simpa using hc, by simp, .inl rfl⟩
    exact ⟨_, rfl, unsigned_scientific x.negative _ _ hone fun e he =>
      hdecimal e (hdigits ▸ List.mem_cons_of_mem _ he), fun hx =>
        value?_scientific x.negative hx hle hd hdigits⟩

/-- A printed double is read as its literal, whatever closes it. -/
theorem readNumber_floatText (x : Binary64) {rest : List Char} (h : Closes rest) :
    readNumber (floatText x ++ rest) = some (.ofFloat x, rest) := by
  obtain ⟨l, hsign, hread, -⟩ := exists_literal x
  have hall {rest : List Char} (h : Closes rest) :
      readNumber (floatText x ++ rest) = some (l, rest) := by
    rw [floatText_eq, ← hsign]
    exact hread.readNumber h
  have hliteral : Literal.ofFloat x = l := by
    have := hall (show Closes [] from trivial)
    rw [List.append_nil] at this
    rw [Literal.ofFloat, this]
    rfl
  rw [hliteral]
  exact hall h

theorem opens_floatText (x : Binary64) : ∃ c cs, floatText x = c :: cs ∧ (c = '-' ∨ IsDecimal c) := by
  obtain ⟨l, -, hread, -⟩ := exists_literal x
  obtain ⟨c, cs, hcs, hc⟩ := hread.opens
  rw [floatText_eq, hcs]
  split
  · exact ⟨_, _, rfl, .inl rfl⟩
  · exact ⟨_, _, rfl, .inr hc⟩

/-- All doubles but the two greatest are clear of the overflow by what reading may be off. -/
theorem clear_of_isDouble {x : Binary64} (h : IsDouble (x.mantissa, x.exponent))
    (hless : x.exponent < greatestExponent ∨ x.mantissa + 2 < 2 * hiddenBit) : Clear x := by
  obtain ⟨hm, -, he⟩ := h
  simp only [two_hiddenBit] at hm hless
  unfold Clear overflow
  generalize greatestExponent = last at he hless
  have hstep : (2 : ℚ) ^ last = 2 * 2 ^ (last - 1) := by
    rw [zpow_sub_one₀ (by norm_num)]
    ring
  have hpos : (0 : ℚ) < 2 ^ (last - 1) := by positivity
  rcases hless with hlow | hfew
  · have hmantissa : (x.mantissa : ℚ) + 1 ≤ 2 ^ 53 := by exact_mod_cast hm
    have hpow : (2 : ℚ) ^ x.exponent ≤ 2 ^ (last - 1) :=
      zpow_le_zpow_right₀ (by norm_num) (by omega)
    calc ((x.mantissa : ℚ) + 1 / 2) * 2 ^ x.exponent * (1 + unitError) ^ 2
        ≤ (2 ^ 53 - 1 / 2) * 2 ^ (last - 1) * (1 + unitError) ^ 2 := by
          gcongr
          linarith
      _ = (2 ^ 53 - 1 / 2) * (1 + unitError) ^ 2 * 2 ^ (last - 1) := by ring
      _ < (2 ^ 54 - 1) * 2 ^ (last - 1) := by
          gcongr
          norm_num [unitError]
  · have hmantissa : (x.mantissa : ℚ) + 3 ≤ 2 ^ 53 := by exact_mod_cast hfew
    have hpow : (2 : ℚ) ^ x.exponent ≤ 2 * 2 ^ (last - 1) :=
      hstep ▸ zpow_le_zpow_right₀ (by norm_num) he
    calc ((x.mantissa : ℚ) + 1 / 2) * 2 ^ x.exponent * (1 + unitError) ^ 2
        ≤ (2 ^ 53 - 5 / 2) * (2 * 2 ^ (last - 1)) * (1 + unitError) ^ 2 := by
          gcongr
          linarith
      _ = (2 ^ 53 - 5 / 2) * 2 * (1 + unitError) ^ 2 * 2 ^ (last - 1) := by ring
      _ < (2 ^ 54 - 1) * 2 ^ (last - 1) := by
          gcongr
          norm_num [unitError]

/-- A printed double is read as some number. -/
theorem value?_ofFloat {x : Binary64} (h : IsDouble (x.mantissa, x.exponent)) :
    (Literal.ofFloat x).value? ≠ none := by
  by_cases hless : x.exponent < greatestExponent ∨ x.mantissa + 2 < 2 * hiddenBit
  · obtain ⟨l, hsign, hread, hvalue⟩ := exists_literal x
    have hliteral := readNumber_floatText x (show Closes [] from trivial)
    rw [floatText_eq, ← hsign, hread.readNumber (show Closes [] from trivial)] at hliteral
    cases hliteral
    exact hvalue (clear_of_isDouble h hless)
  · obtain ⟨negative, m, e⟩ := x
    obtain ⟨hm, -, he⟩ := h
    simp only [not_or, not_lt] at hless hm he
    obtain rfl : e = greatestExponent := le_antisymm he hless.1
    have hgreatest : m = 2 * hiddenBit - 2 ∨ m = 2 * hiddenBit - 1 := by omega
    rcases hgreatest with rfl | rfl <;> cases negative <;> decide +kernel

end Rollout.Json
