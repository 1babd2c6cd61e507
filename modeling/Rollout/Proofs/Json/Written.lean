import Rollout.Json.Parser
import Rollout.Json.Printer
import Rollout.Proofs.Number.Digits
import Rollout.Proofs.Number.Rounding
import Rollout.Proofs.TextMap

/-!
What a printed value is as a document: `Json.written`. A value without doubles whose integers
fit 64 bits and whose members stand in order is the value of its document again, as deep as the
reader goes. Every value that a reader hands out has its numbers in range and its members in
order.
-/

namespace Rollout.Json

open Number

/-- The literal of an integer. -/
def Literal.ofInt (n : Int) : Literal := ⟨decide (n < 0), digitsOf n.natAbs, none, none⟩

/-- The literal of a double. -/
def Literal.ofFloat (x : Binary64) : Literal :=
  ((readNumber (floatText x)).map Prod.fst).getD (.ofInt 0)

/-- A text as the pieces of a string. -/
def piecesOf (s : String) : List Piece := s.toList.map .char

mutual

/-- The document a value is printed as. -/
def written : Json → Written
  | .null => .null
  | .bool b => .bool b
  | .number (.int n) => .number (.ofInt n)
  | .number (.float x) => .number (.ofFloat x)
  | .str s => .str (piecesOf s)
  | .arr items => .arr (writtenItems items)
  | .obj members => .obj (writtenMembers members)

/-- The documents of the items of an array. -/
def writtenItems : List Json → List Written
  | [] => []
  | v :: vs => written v :: writtenItems vs

/-- The documents of the members of an object. -/
def writtenMembers : List (String × Json) → List (List Piece × Written)
  | [] => []
  | (name, v) :: rest => (piecesOf name, written v) :: writtenMembers rest

end

mutual

/-- Whether every number in a value is an integer. -/
def integersOnly : Json → Bool
  | .number (.float _) => false
  | .arr items => integersOnlyItems items
  | .obj members => integersOnlyMembers members
  | _ => true

/-- `integersOnly` for each of several values. -/
def integersOnlyItems : List Json → Bool
  | [] => true
  | v :: vs => integersOnly v && integersOnlyItems vs

/-- `integersOnly` for each of several members. -/
def integersOnlyMembers : List (String × Json) → Bool
  | [] => true
  | (_, v) :: rest => integersOnly v && integersOnlyMembers rest

end

/-- A number that a reader hands out. -/
def Numeral.InRange : Numeral → Prop
  | .int n => -(UInt64.size / 2 : Nat) ≤ n ∧ n < UInt64.size
  | .float x => IsDouble (x.mantissa, x.exponent)

mutual

/-- Numbers are in range, and the members of objects stand in order. -/
def Canonical : Json → Prop
  | .number n => n.InRange
  | .arr items => CanonicalItems items
  | .obj members => TextMap.Ordered members ∧ CanonicalMembers members
  | _ => True

/-- `Canonical` for each of several values. -/
def CanonicalItems : List Json → Prop
  | [] => True
  | v :: vs => Canonical v ∧ CanonicalItems vs

/-- `Canonical` for each of several members. -/
def CanonicalMembers : List (String × Json) → Prop
  | [] => True
  | (_, v) :: rest => Canonical v ∧ CanonicalMembers rest

end

theorem canonicalMembers_iff {members : List (String × Json)} :
    CanonicalMembers members ↔ ∀ e ∈ members, e.2.Canonical := by
  induction members with
  | nil => simp [CanonicalMembers]
  | cons e rest ih => simp [CanonicalMembers, ih]

theorem integersOnlyItems_iff {items : List Json} :
    integersOnlyItems items = true ↔ ∀ v ∈ items, v.integersOnly = true := by
  induction items with
  | nil => simp [integersOnlyItems]
  | cons v vs ih => simp [integersOnlyItems, ih]

theorem integersOnlyMembers_iff {members : List (String × Json)} :
    integersOnlyMembers members = true ↔ ∀ e ∈ members, e.2.integersOnly = true := by
  induction members with
  | nil => simp [integersOnlyMembers]
  | cons e rest ih => simp [integersOnlyMembers, ih]

/-! ## Literals -/

theorem gather_of_lt (ds : List Nat) (n : Nat)
    (h : ds.foldl appendDigit n < significandBound) :
    gather n ds = (ds.foldl appendDigit n, []) := by
  induction ds generalizing n with
  | nil => rfl
  | cons d ds ih =>
    have hstep : appendDigit n d < significandBound := Nat.lt_of_le_of_lt (le_foldl_appendDigit ds _) h
    simp only [gather, List.foldl_cons]
    rw [if_pos (show n * 10 + d < significandBound from hstep)]
    exact ih _ h

theorem foldl_of_gather {ds : List Nat} {n m : Nat} (h : gather n ds = (m, [])) :
    ds.foldl appendDigit n = m := by
  induction ds generalizing n with
  | nil =>
    cases h
    rfl
  | cons d ds ih =>
    rw [gather] at h
    split at h
    · exact ih h
    · cases h

theorem not_int_of_scaled {negative : Bool} {n : Nat} {e m : Int} :
    scaled negative n e ≠ some (.int m) := by
  intro h
  obtain ⟨x, -, hx⟩ := Option.map_eq_some_iff.1 h
  cases hx

/-- A natural number that is read as an integer is read as itself. -/
theorem eq_of_value?_ofNat {n : Nat} {m : Int}
    (h : (Literal.ofInt (n : Int)).value? = some (.int m)) : m = n := by
  have hsign : decide ((n : Int) < 0) = false := by simp
  simp only [Literal.value?, Literal.ofInt, hsign, Int.natAbs_natCast] at h
  cases hg : gather 0 (digitsOf n) with
  | mk significand dropped =>
    rw [hg] at h
    cases dropped with
    | nil =>
      have hspell := foldl_of_gather hg
      rw [foldl_digitsOf] at hspell
      simp only [List.isEmpty_nil, Option.isNone_none, and_self, if_true, wholeNumeral,
        Bool.not_false, Option.some.injEq, Numeral.int.injEq] at h
      rw [← h, hspell]
    | cons d ds =>
      simp only [List.isEmpty_cons, Bool.false_eq_true, false_and, if_false, withExponent] at h
      exact absurd h not_int_of_scaled

theorem value?_ofInt {n : Int} (h : (Numeral.int n).InRange) :
    (Literal.ofInt n).value? = some (.int n) := by
  obtain ⟨hlow, hhigh⟩ := h
  have hsize : UInt64.size = 18446744073709551616 := rfl
  have hgather : gather 0 (digitsOf n.natAbs) = (n.natAbs, []) := by
    have := gather_of_lt (digitsOf n.natAbs) 0
    rw [foldl_digitsOf] at this
    exact this (by unfold significandBound; omega)
  simp only [Literal.value?, Literal.ofInt, hgather]
  simp only [List.isEmpty_nil, Option.isNone_none, and_self, if_true]
  by_cases hn : n < 0
  · have hnot : ¬(n.natAbs = 0 ∨ UInt64.size / 2 < n.natAbs) := by omega
    simp only [wholeNumeral, hn, decide_true, Bool.not_true, Bool.false_eq_true, if_false, hnot]
    congr 2
    omega
  · simp only [wholeNumeral, hn, decide_false, Bool.not_false, if_true]
    congr 2
    omega

/-! ## Values of documents -/

theorem pairSurrogates_map_char (cs : List Char) : pairSurrogates (cs.map .char) = some cs := by
  induction cs with
  | nil => rfl
  | cons c cs ih => simp [pairSurrogates, ih]

@[simp] theorem textOf?_piecesOf (s : String) : textOf? (piecesOf s) = some s := by
  simp [textOf?, piecesOf, pairSurrogates_map_char]

mutual

/-- Where the document of a value has a value, it is that value. -/
theorem eq_of_value?_written {depth : Nat} {v v' : Json} (hi : v.integersOnly = true)
    (hc : v.Canonical) (h : Written.value? depth v.written = some v') : v' = v := by
  cases v with
  | null => cases h; rfl
  | bool b => cases h; rfl
  | number n =>
    cases n with
    | int n =>
      rw [written, Written.value?, value?_ofInt hc] at h
      cases h
      rfl
    | float x => simp [integersOnly] at hi
  | str s =>
    rw [written, Written.value?, textOf?_piecesOf] at h
    cases h
    rfl
  | arr items =>
    cases depth with
    | zero => simp [written, Written.value?] at h
    | succ depth =>
      rw [written, Written.value?, Option.map_eq_some_iff] at h
      obtain ⟨vs, hvs, rfl⟩ := h
      rw [integersOnly] at hi
      rw [Canonical] at hc
      rw [eq_of_itemValues?_written hi hc hvs]
  | obj members =>
    cases depth with
    | zero => simp [written, Written.value?] at h
    | succ depth =>
      rw [written, Written.value?, Option.map_eq_some_iff] at h
      obtain ⟨vs, hvs, rfl⟩ := h
      rw [integersOnly] at hi
      rw [Canonical] at hc
      rw [eq_of_memberValues?_written hi hc.2 hvs, TextMap.ofList_of_ordered hc.1]

theorem eq_of_itemValues?_written {depth : Nat} {vs vs' : List Json}
    (hi : integersOnlyItems vs = true) (hc : CanonicalItems vs)
    (h : itemValues? depth (writtenItems vs) = some vs') : vs' = vs := by
  cases vs with
  | nil =>
    rw [writtenItems, itemValues?] at h
    cases h
    rfl
  | cons v vs =>
    simp only [integersOnlyItems, Bool.and_eq_true] at hi
    rw [CanonicalItems] at hc
    rw [writtenItems, itemValues?] at h
    split at h
    · rename_i w ws hw hws
      cases h
      rw [eq_of_value?_written hi.1 hc.1 hw, eq_of_itemValues?_written hi.2 hc.2 hws]
    · cases h

theorem eq_of_memberValues?_written {depth : Nat} {vs vs' : List (String × Json)}
    (hi : integersOnlyMembers vs = true) (hc : CanonicalMembers vs)
    (h : memberValues? depth (writtenMembers vs) = some vs') : vs' = vs := by
  match vs with
  | [] =>
    rw [writtenMembers, memberValues?] at h
    cases h
    rfl
  | (name, v) :: vs =>
    simp only [integersOnlyMembers, Bool.and_eq_true] at hi
    rw [CanonicalMembers] at hc
    rw [writtenMembers, memberValues?, textOf?_piecesOf] at h
    split at h
    · rename_i k w ws hk hw hws
      cases hk
      cases h
      rw [eq_of_value?_written hi.1 hc.1 hw, eq_of_memberValues?_written hi.2 hc.2 hws]
    · cases h

end

/-! ## Values that were read -/

theorem gather_fst_lt (ds : List Nat) {n : Nat} (h : n < significandBound) :
    (gather n ds).1 < significandBound := by
  induction ds generalizing n with
  | nil => exact h
  | cons d ds ih =>
    rw [gather]
    split
    · rename_i hd
      exact ih hd
    · exact h

theorem inRange_of_scaled {negative : Bool} {n : Nat} {e : Int} {v : Numeral}
    (h : scaled negative n e = some v) : v.InRange := by
  obtain ⟨⟨m, e⟩, hx, rfl⟩ := Option.map_eq_some_iff.1 h
  exact isDouble_of_ofDecimal hx

theorem inRange_of_withExponent {negative : Bool} {n : Nat} {start : Int}
    {e : Option (Bool × Nat)} {v : Numeral} (h : withExponent negative n start e = some v) :
    v.InRange := by
  match e with
  | none => exact inRange_of_scaled h
  | some (minus, k) =>
    rw [withExponent] at h
    split at h
    · split at h
      · cases h
      · cases h
        exact isDouble_zero
    · exact inRange_of_scaled h

theorem inRange_of_wholeNumeral {negative : Bool} {n : Nat} {v : Numeral}
    (hn : n < significandBound) (h : wholeNumeral negative n = some v) : v.InRange := by
  have hsize : UInt64.size = 18446744073709551616 := rfl
  unfold significandBound at hn
  rw [wholeNumeral] at h
  split at h
  · cases h
    exact ⟨by omega, by omega⟩
  · split at h
    · exact inRange_of_scaled h
    · rename_i hbig
      cases h
      exact ⟨by omega, by omega⟩

theorem inRange_of_value? {l : Literal} {v : Numeral} (h : l.value? = some v) : v.InRange := by
  have hlt := gather_fst_lt l.whole (show 0 < significandBound by decide)
  obtain ⟨negative, whole, fraction, exponent⟩ := l
  cases fraction with
  | some digits => exact inRange_of_withExponent h
  | none =>
    simp only [Literal.value?] at h
    split at h
    · exact inRange_of_wholeNumeral hlt h
    · exact inRange_of_withExponent h

mutual

/-- What a reader hands out has its numbers in range and its members in order. -/
theorem canonical_of_value? {depth : Nat} {w : Written} {v : Json}
    (h : Written.value? depth w = some v) : v.Canonical := by
  cases w with
  | null => simp only [Written.value?, Option.some.injEq] at h; subst h; trivial
  | bool b => simp only [Written.value?, Option.some.injEq] at h; subst h; trivial
  | number l =>
    rw [Written.value?, Option.map_eq_some_iff] at h
    obtain ⟨n, hn, rfl⟩ := h
    exact inRange_of_value? hn
  | str pieces =>
    rw [Written.value?, Option.map_eq_some_iff] at h
    obtain ⟨s, -, rfl⟩ := h
    trivial
  | arr items =>
    cases depth with
    | zero => simp [Written.value?] at h
    | succ depth =>
      rw [Written.value?, Option.map_eq_some_iff] at h
      obtain ⟨vs, hvs, rfl⟩ := h
      exact canonicalItems_of_itemValues? hvs
  | obj members =>
    cases depth with
    | zero => simp [Written.value?] at h
    | succ depth =>
      rw [Written.value?, Option.map_eq_some_iff] at h
      obtain ⟨vs, hvs, rfl⟩ := h
      have hc := canonicalMembers_iff.1 (canonicalMembers_of_memberValues? hvs)
      exact ⟨TextMap.ordered_ofList vs,
        canonicalMembers_iff.2 fun e he => hc e (TextMap.mem_of_mem_ofList he)⟩

theorem canonicalItems_of_itemValues? {depth : Nat} {ws : List Written} {vs : List Json}
    (h : itemValues? depth ws = some vs) : CanonicalItems vs := by
  match ws with
  | [] =>
    rw [itemValues?] at h
    cases h
    trivial
  | w :: ws =>
    rw [itemValues?] at h
    split at h
    · rename_i v vs hv hvs
      cases h
      exact ⟨canonical_of_value? hv, canonicalItems_of_itemValues? hvs⟩
    · cases h

theorem canonicalMembers_of_memberValues? {depth : Nat} {ws : List (List Piece × Written)}
    {vs : List (String × Json)} (h : memberValues? depth ws = some vs) : CanonicalMembers vs := by
  match ws with
  | [] =>
    rw [memberValues?] at h
    cases h
    trivial
  | (name, w) :: ws =>
    rw [memberValues?] at h
    split at h
    · rename_i k v vs hk hv hvs
      cases h
      exact ⟨canonical_of_value? hv, canonicalMembers_of_memberValues? hvs⟩
    · cases h

end

theorem canonical_of_parse? {text : String} {v : Json} (h : parse? text = some v) :
    v.Canonical := by
  obtain ⟨w, -, hw⟩ := Option.bind_eq_some_iff.1 h
  exact canonical_of_value? hw

/-! ## Sameness -/

mutual

/-- Among values whose numbers are integers, the same are equal. -/
theorem eq_of_same {v w : Json} (hi : v.integersOnly = true) (h : v.same w = true) : v = w := by
  cases v <;> cases w <;> simp only [same, Bool.false_eq_true] at h
  · rfl
  · rw [of_decide_eq_true h]
  · rename_i m n
    cases m with
    | float x => cases hi
    | int m =>
      cases n with
      | float y => cases h
      | int n => rw [of_decide_eq_true h]
  · rw [of_decide_eq_true h]
  · rw [eq_of_sameItems hi h]
  · rw [eq_of_sameMembers hi h]

/-- `eq_of_same` for lists of values. -/
theorem eq_of_sameItems {vs ws : List Json} (hi : integersOnlyItems vs = true)
    (h : sameItems vs ws = true) : vs = ws := by
  cases vs with
  | nil =>
    cases ws with
    | nil => rfl
    | cons w ws => cases h
  | cons v vs =>
    cases ws with
    | nil => cases h
    | cons w ws =>
      rw [sameItems, Bool.and_eq_true] at h
      rw [integersOnlyItems, Bool.and_eq_true] at hi
      rw [eq_of_same hi.1 h.1, eq_of_sameItems hi.2 h.2]

/-- `eq_of_same` for lists of members. -/
theorem eq_of_sameMembers {vs ws : List (String × Json)} (hi : integersOnlyMembers vs = true)
    (h : sameMembers vs ws = true) : vs = ws := by
  cases vs with
  | nil =>
    cases ws with
    | nil => rfl
    | cons w ws => cases h
  | cons v vs =>
    cases ws with
    | nil => cases h
    | cons w ws =>
      rw [sameMembers, Bool.and_eq_true, Bool.and_eq_true, decide_eq_true_eq] at h
      rw [integersOnlyMembers, Bool.and_eq_true] at hi
      rw [Prod.ext h.1.1 (eq_of_same hi.1 h.1.2), eq_of_sameMembers hi.2 h.2]

end

end Rollout.Json
