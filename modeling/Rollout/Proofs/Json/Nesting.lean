import Rollout.Proofs.Json.Reading

/-!
How deep values nest. A printed value is read back if the reader may go as deep as the value
does, whatever numbers it holds, and is not read back otherwise; and what a reader hands out
nests no deeper than it was allowed to go.
-/

namespace Rollout.Json

open Number

mutual

/-- How many arrays and objects lie around the innermost part of a value. -/
def nesting : Json → Nat
  | .arr items => nestingItems items + 1
  | .obj members => nestingMembers members + 1
  | _ => 0

/-- `nesting` for the deepest of several values. -/
def nestingItems : List Json → Nat
  | [] => 0
  | v :: vs => max (nesting v) (nestingItems vs)

/-- `nesting` for the deepest of several members. -/
def nestingMembers : List (String × Json) → Nat
  | [] => 0
  | (_, v) :: rest => max (nesting v) (nestingMembers rest)

end

theorem nestingMembers_le {members : List (String × Json)} {n : Nat} :
    nestingMembers members ≤ n ↔ ∀ e ∈ members, e.2.nesting ≤ n := by
  induction members with
  | nil => simp [nestingMembers]
  | cons e rest ih => simp [nestingMembers, ih]

theorem value?_numeral {n : Numeral} (h : n.InRange) (depth : Nat) :
    ∃ v, Written.value? depth (Json.number n).written = some v := by
  cases n with
  | int n => exact ⟨_, by rw [written, Written.value?, value?_ofInt h]; rfl⟩
  | float x =>
    obtain ⟨y, hy⟩ := Option.ne_none_iff_exists'.1 (value?_ofFloat h)
    exact ⟨_, by rw [written, Written.value?, hy]; rfl⟩

mutual

/-- A reader that goes deep enough finds a value in what was printed. -/
theorem exists_value?_written {depth : Nat} {v : Json} (hc : v.Canonical)
    (hn : v.nesting ≤ depth) : ∃ v', Written.value? depth v.written = some v' := by
  match v with
  | .null => exact ⟨_, rfl⟩
  | .bool b => exact ⟨_, rfl⟩
  | .number n => exact value?_numeral hc depth
  | .str s => exact ⟨_, by rw [written, Written.value?, textOf?_piecesOf]; rfl⟩
  | .arr items =>
    rw [nesting] at hn
    obtain ⟨depth, rfl⟩ : ∃ k, depth = k + 1 := ⟨depth - 1, by omega⟩
    rw [Canonical] at hc
    obtain ⟨vs, hvs⟩ := exists_itemValues?_written hc (Nat.le_of_succ_le_succ hn)
    exact ⟨_, by rw [written, Written.value?, hvs]; rfl⟩
  | .obj members =>
    rw [nesting] at hn
    obtain ⟨depth, rfl⟩ : ∃ k, depth = k + 1 := ⟨depth - 1, by omega⟩
    rw [Canonical] at hc
    obtain ⟨vs, hvs⟩ := exists_memberValues?_written hc.2 (Nat.le_of_succ_le_succ hn)
    exact ⟨_, by rw [written, Written.value?, hvs]; rfl⟩

theorem exists_itemValues?_written {depth : Nat} {vs : List Json} (hc : CanonicalItems vs)
    (hn : nestingItems vs ≤ depth) : ∃ vs', itemValues? depth (writtenItems vs) = some vs' := by
  match vs with
  | [] => exact ⟨_, by rw [writtenItems, itemValues?]⟩
  | v :: vs =>
    rw [nestingItems, Nat.max_le] at hn
    rw [CanonicalItems] at hc
    obtain ⟨v', hv⟩ := exists_value?_written hc.1 hn.1
    obtain ⟨vs', hvs⟩ := exists_itemValues?_written hc.2 hn.2
    exact ⟨_, by rw [writtenItems, itemValues?, hv, hvs]⟩

theorem exists_memberValues?_written {depth : Nat} {vs : List (String × Json)}
    (hc : CanonicalMembers vs) (hn : nestingMembers vs ≤ depth) :
    ∃ vs', memberValues? depth (writtenMembers vs) = some vs' := by
  match vs with
  | [] => exact ⟨_, by rw [writtenMembers, memberValues?]⟩
  | (name, v) :: vs =>
    rw [nestingMembers, Nat.max_le] at hn
    rw [CanonicalMembers] at hc
    obtain ⟨v', hv⟩ := exists_value?_written hc.1 hn.1
    obtain ⟨vs', hvs⟩ := exists_memberValues?_written hc.2 hn.2
    exact ⟨_, by rw [writtenMembers, memberValues?, textOf?_piecesOf, hv, hvs]⟩

end

mutual

/-- A reader that does not go deep enough finds none. -/
theorem nesting_le_of_value?_written {depth : Nat} {v v' : Json}
    (h : Written.value? depth v.written = some v') : v.nesting ≤ depth := by
  match v with
  | .null | .bool _ | .number _ | .str _ => rw [nesting.eq_def]; exact Nat.zero_le _
  | .arr items =>
    cases depth with
    | zero => simp [written, Written.value?] at h
    | succ depth =>
      rw [written, Written.value?, Option.map_eq_some_iff] at h
      obtain ⟨vs, hvs, -⟩ := h
      exact Nat.succ_le_succ (nestingItems_le_of_itemValues? hvs)
  | .obj members =>
    cases depth with
    | zero => simp [written, Written.value?] at h
    | succ depth =>
      rw [written, Written.value?, Option.map_eq_some_iff] at h
      obtain ⟨vs, hvs, -⟩ := h
      exact Nat.succ_le_succ (nestingMembers_le_of_memberValues? hvs)

theorem nestingItems_le_of_itemValues? {depth : Nat} {vs vs' : List Json}
    (h : itemValues? depth (writtenItems vs) = some vs') : nestingItems vs ≤ depth := by
  match vs with
  | [] => exact Nat.zero_le _
  | v :: vs =>
    rw [writtenItems, itemValues?] at h
    split at h
    · rename_i hv hvs
      exact Nat.max_le.2 ⟨nesting_le_of_value?_written hv, nestingItems_le_of_itemValues? hvs⟩
    · cases h

theorem nestingMembers_le_of_memberValues? {depth : Nat} {vs vs' : List (String × Json)}
    (h : memberValues? depth (writtenMembers vs) = some vs') : nestingMembers vs ≤ depth := by
  match vs with
  | [] => exact Nat.zero_le _
  | (name, v) :: vs =>
    rw [writtenMembers, memberValues?] at h
    split at h
    · rename_i hv hvs
      exact Nat.max_le.2 ⟨nesting_le_of_value?_written hv, nestingMembers_le_of_memberValues? hvs⟩
    · cases h

end

mutual

/-- What a reader hands out nests no deeper than it was allowed to go. -/
theorem nesting_le_of_value? {depth : Nat} {w : Written} {v : Json}
    (h : Written.value? depth w = some v) : v.nesting ≤ depth := by
  cases w with
  | null => cases h; exact Nat.zero_le _
  | bool b => cases h; exact Nat.zero_le _
  | number l =>
    rw [Written.value?, Option.map_eq_some_iff] at h
    obtain ⟨n, -, rfl⟩ := h
    exact Nat.zero_le _
  | str pieces =>
    rw [Written.value?, Option.map_eq_some_iff] at h
    obtain ⟨s, -, rfl⟩ := h
    exact Nat.zero_le _
  | arr items =>
    cases depth with
    | zero => simp [Written.value?] at h
    | succ depth =>
      rw [Written.value?, Option.map_eq_some_iff] at h
      obtain ⟨vs, hvs, rfl⟩ := h
      exact Nat.succ_le_succ (nestingItems_le hvs)
  | obj members =>
    cases depth with
    | zero => simp [Written.value?] at h
    | succ depth =>
      rw [Written.value?, Option.map_eq_some_iff] at h
      obtain ⟨vs, hvs, rfl⟩ := h
      refine Nat.succ_le_succ (nestingMembers_le.2 fun e he => ?_)
      exact nesting_le_of_memberValues? hvs e (TextMap.mem_of_mem_ofList he)

theorem nestingItems_le {depth : Nat} {ws : List Written} {vs : List Json}
    (h : itemValues? depth ws = some vs) : nestingItems vs ≤ depth := by
  match ws with
  | [] =>
    rw [itemValues?] at h
    cases h
    exact Nat.zero_le _
  | w :: ws =>
    rw [itemValues?] at h
    split at h
    · rename_i v vs hv hvs
      cases h
      exact Nat.max_le.2 ⟨nesting_le_of_value? hv, nestingItems_le hvs⟩
    · cases h

theorem nesting_le_of_memberValues? {depth : Nat} {ws : List (List Piece × Written)}
    {vs : List (String × Json)} (h : memberValues? depth ws = some vs) :
    ∀ e ∈ vs, e.2.nesting ≤ depth := by
  match ws with
  | [] =>
    rw [memberValues?] at h
    cases h
    simp
  | (name, w) :: ws =>
    rw [memberValues?] at h
    split at h
    · rename_i k v vs hk hv hvs
      cases h
      exact List.forall_mem_cons.2 ⟨nesting_le_of_value? hv, nesting_le_of_memberValues? hvs⟩
    · cases h

end

/-- A value that is no deeper than a text may be is read back, if its numbers are integers. -/
theorem parse?_pretty_of_nesting {v : Json} (hi : v.integersOnly = true) (hc : v.Canonical)
    (hn : v.nesting ≤ nestingLimit) : parse? v.pretty = some v := by
  obtain ⟨v', hv'⟩ := exists_value?_written hc hn
  have hparse : parse? v.pretty = some v' := by
    rw [parse?, parse?_pretty, Option.bind_some, hv']
  rw [hparse, eq_of_parse?_pretty hi hc hparse]

end Rollout.Json
