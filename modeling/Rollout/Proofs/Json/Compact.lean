import Rollout.Proofs.Json.Nesting

/-!
Values printed on one line. What is printed is read back, as it is when it is spread over
lines, and a value whose numbers are integers is printed without a line break, whatever
characters its texts hold: every one of them below the blank is escaped.
-/

namespace Rollout.Json

/-! ## Reading back -/

theorem opens_compactChars (v : Json) : Opens (compactChars v) := by
  have hcons {c : Char} (hc : isSpace c = false ∧ c ≠ ']' ∧ c ≠ '}') (cs : List Char) :
      Opens (c :: cs) := hc
  match v with
  | .null | .bool true | .bool false | .str s => exact hcons (by decide) _
  | .number n => exact opens_prettyChars 0 (.number n)
  | .arr [] | .arr (x :: xs) => exact hcons (by decide) _
  | .obj [] | .obj ((name, x) :: xs) => exact hcons (by decide) _

theorem closes_compactItems (xs : List Json) (rest : List Char) :
    Closes (compactItems xs ++ rest) := by
  cases xs with
  | nil => exact .inr (.inr (.inl rfl))
  | cons x xs => exact closes_comma _

theorem closes_compactMembers (xs : List (String × Json)) (rest : List Char) :
    Closes (compactMembers xs ++ rest) := by
  cases xs with
  | nil => exact .inr (.inr (.inr rfl))
  | cons x xs => exact closes_comma _

theorem readValue_openBracket (fuel : Nat) {cs : List Char} (h : Opens cs) :
    readValue (fuel + 1) ('[' :: cs) =
      (readItems fuel cs).map fun (items, rest) => (.arr items, rest) := by
  rw [readValue, skipSpace_cons (by decide)]
  simp only [h.skipSpace]
  split
  · exact absurd rfl h.2.1
  · rfl

theorem readValue_openBrace (fuel : Nat) {cs : List Char} (h : Opens cs) :
    readValue (fuel + 1) ('{' :: cs) =
      (readMembers fuel cs).map fun (members, rest) => (.obj members, rest) := by
  rw [readValue, skipSpace_cons (by decide)]
  simp only [h.skipSpace]
  split
  · exact absurd rfl h.2.2
  · rfl

/-- A member, its value read, before whatever follows it. -/
theorem readMembers_colon {name : String} {fuel : Nat} {value more : List Char} {w : Written}
    (hvalue : readValue fuel (value ++ more) = some (w, more)) :
    readMembers (fuel + 1) (stringText name ++ ':' :: (value ++ more)) =
      match skipSpace more with
      | '}' :: rest => some ([(piecesOf name, w)], rest)
      | ',' :: rest =>
        (readMembers fuel rest).map fun (members, rest) => ((piecesOf name, w) :: members, rest)
      | _ => none := by
  obtain ⟨cs, hcs, hname⟩ := readString_stringText name (':' :: (value ++ more))
  rw [hcs, readMembers, skipSpace_cons (by decide)]
  simp only [hname, skipSpace_cons (show isSpace ':' = false by decide)]
  exact hvalue ▸ rfl

mutual

/-- A value on one line is read back, whatever closes it. -/
theorem readValue_compactChars (v : Json) (fuel : Nat) {rest : List Char}
    (hf : v.depth ≤ fuel) (hrest : Closes rest) :
    readValue fuel (compactChars v ++ rest) = some (v.written, rest) := by
  cases fuel with
  | zero => cases v <;> simp [depth] at hf
  | succ fuel =>
    match v with
    | .null | .bool true | .bool false | .arr [] | .obj [] => rfl
    | .number n => exact readValue_prettyChars (.number n) 0 (fuel + 1) hf hrest
    | .str s => exact readValue_prettyChars (.str s) 0 (fuel + 1) hf hrest
    | .arr (x :: xs) =>
      simp only [depth] at hf
      have hread := readItems_compactItems x xs fuel (by omega) rest
      rw [compactChars, List.cons_append, List.append_assoc,
        readValue_openBracket fuel ((opens_compactChars x).append _), hread]
      rfl
    | .obj ((name, x) :: xs) =>
      simp only [depth] at hf
      have hread := readMembers_compactMembers name x xs fuel (by omega) rest
      have hopens (cs : List Char) : Opens (stringText name ++ cs) :=
        Opens.append (by exact ⟨rfl, by decide, by decide⟩) cs
      rw [compactChars, List.cons_append, List.append_assoc, readValue_openBrace fuel (hopens _)]
      simp only [List.cons_append, List.append_assoc]
      rw [hread]
      rfl
termination_by fuel

theorem readItems_compactItems (x : Json) (xs : List Json) (fuel : Nat)
    (hf : depthItems (x :: xs) ≤ fuel) (rest : List Char) :
    readItems fuel (compactChars x ++ (compactItems xs ++ rest)) =
      some (writtenItems (x :: xs), rest) := by
  cases fuel with
  | zero => simp [depthItems] at hf
  | succ fuel =>
    rw [depthItems] at hf
    have hx := readValue_compactChars x fuel (by omega) (closes_compactItems xs rest)
    match xs with
    | [] =>
      rw [readItems, hx]
      rfl
    | y :: ys =>
      have hread := readItems_compactItems y ys fuel (by omega) rest
      rw [readItems, hx]
      simp only [compactItems, List.cons_append, List.append_assoc,
        skipSpace_cons (show isSpace ',' = false by decide), hread]
      rfl
termination_by fuel

theorem readMembers_compactMembers (name : String) (x : Json) (xs : List (String × Json))
    (fuel : Nat) (hf : depthMembers ((name, x) :: xs) ≤ fuel) (rest : List Char) :
    readMembers fuel
        (stringText name ++ ':' :: (compactChars x ++ (compactMembers xs ++ rest))) =
      some (writtenMembers ((name, x) :: xs), rest) := by
  cases fuel with
  | zero => simp [depthMembers] at hf
  | succ fuel =>
    rw [depthMembers] at hf
    have hx := readValue_compactChars x fuel (by omega) (closes_compactMembers xs rest)
    match xs with
    | [] =>
      rw [readMembers_colon hx]
      rfl
    | (name', y) :: ys =>
      have hread := readMembers_compactMembers name' y ys fuel (by omega) rest
      rw [readMembers_colon hx]
      simp only [compactMembers, List.cons_append, List.append_assoc,
        skipSpace_cons (show isSpace ',' = false by decide), hread]
      rfl
termination_by fuel

end

mutual

theorem depth_le_compactChars (v : Json) : v.depth ≤ 2 * (compactChars v).length := by
  have hpos := (opens_compactChars v).length_pos
  match v with
  | .null | .bool _ | .number _ | .str _ => rw [depth.eq_def]; dsimp only; omega
  | .arr [] | .obj [] => simp [depth, depthItems, depthMembers, compactChars]
  | .arr (x :: xs) =>
    have hx := depth_le_compactChars x
    have hxs := depthItems_le_compactItems xs
    simp only [depth, depthItems, compactChars, List.length_cons, List.length_append]
    omega
  | .obj ((name, x) :: xs) =>
    have hx := depth_le_compactChars x
    have hxs := depthMembers_le_compactMembers xs
    simp only [depth, depthMembers, compactChars, List.length_cons, List.length_append]
    omega

theorem depthItems_le_compactItems (xs : List Json) :
    depthItems xs ≤ 2 * (compactItems xs).length := by
  match xs with
  | [] => simp [depthItems]
  | x :: xs =>
    have hx := depth_le_compactChars x
    have hxs := depthItems_le_compactItems xs
    simp only [depthItems, compactItems, List.length_cons, List.length_append]
    omega

theorem depthMembers_le_compactMembers (xs : List (String × Json)) :
    depthMembers xs ≤ 2 * (compactMembers xs).length := by
  match xs with
  | [] => simp [depthMembers]
  | (name, x) :: xs =>
    have hx := depth_le_compactChars x
    have hxs := depthMembers_le_compactMembers xs
    simp only [depthMembers, compactMembers, List.length_cons, List.length_append]
    omega

end

/-- The line of a value is the text of its document. -/
theorem parse?_compact (v : Json) : Written.parse? v.compact = some v.written := by
  have hdepth := depth_le_compactChars v
  have hread := readValue_compactChars v (2 * (compactChars v).length + 2) (by omega)
    (show Closes [] from trivial)
  rw [List.append_nil] at hread
  simp [Written.parse?, compact, hread, skipSpace]

/-- A value that is no deeper than a text may be is read back from its line, if its numbers are
integers. -/
theorem parse?_compact_of_nesting {v : Json} (hi : v.integersOnly = true) (hc : v.Canonical)
    (hn : v.nesting ≤ nestingLimit) : parse? v.compact = some v := by
  obtain ⟨v', hv'⟩ := exists_value?_written hc hn
  rw [parse?, parse?_compact, Option.bind_some, hv', eq_of_value?_written hi hc hv']

/-! ## One line -/

theorem newLine_notMem_escapeChar (c : Char) : '\n' ∉ escapeChar c := by
  have hdigits : ∀ n < 0x20, '\n' ≠ Text.hexDigit (n / 16) ∧ '\n' ≠ Text.hexDigit (n % 16) := by
    decide
  unfold escapeChar
  split; · decide
  split; · decide
  split; · decide
  split; · decide
  split; · decide
  split; · decide
  split; · decide
  split
  · rename_i h
    simp [hdigits _ h]
  · rename_i hline _ _ _
    simpa using Ne.symm hline

theorem newLine_notMem_stringText (s : String) : '\n' ∉ stringText s := by
  simp [stringText, newLine_notMem_escapeChar]

theorem newLine_notMem_intText (n : Int) : '\n' ∉ intText n := by
  have hdigits : '\n' ∉ Nat.toDigits 10 n.natAbs := fun h =>
    absurd (Number.isDecimal_of_mem_toDigits h).1 (by decide)
  unfold intText
  split
  · simpa using hdigits
  · exact hdigits

mutual

/-- A value is printed without a line break. -/
theorem newLine_notMem_compactChars {v : Json} (h : v.integersOnly = true) :
    '\n' ∉ compactChars v := by
  match v with
  | .null | .bool true | .bool false | .arr [] | .obj [] => simp [compactChars]
  | .number (.int n) => exact newLine_notMem_intText n
  | .number (.float x) => cases h
  | .str s => exact newLine_notMem_stringText s
  | .arr (x :: xs) =>
    rw [integersOnly, integersOnlyItems, Bool.and_eq_true] at h
    simp [compactChars, newLine_notMem_compactChars h.1, newLine_notMem_compactItems h.2]
  | .obj ((name, x) :: xs) =>
    rw [integersOnly, integersOnlyMembers, Bool.and_eq_true] at h
    simp [compactChars, newLine_notMem_stringText, newLine_notMem_compactChars h.1,
      newLine_notMem_compactMembers h.2]

theorem newLine_notMem_compactItems {xs : List Json} (h : integersOnlyItems xs = true) :
    '\n' ∉ compactItems xs := by
  match xs with
  | [] => simp [compactItems]
  | x :: xs =>
    rw [integersOnlyItems, Bool.and_eq_true] at h
    simp [compactItems, newLine_notMem_compactChars h.1, newLine_notMem_compactItems h.2]

theorem newLine_notMem_compactMembers {xs : List (String × Json)}
    (h : integersOnlyMembers xs = true) : '\n' ∉ compactMembers xs := by
  match xs with
  | [] => simp [compactMembers]
  | (name, x) :: xs =>
    rw [integersOnlyMembers, Bool.and_eq_true] at h
    simp [compactMembers, newLine_notMem_stringText, newLine_notMem_compactChars h.1,
      newLine_notMem_compactMembers h.2]

end

theorem newLine_notMem_compact {v : Json} (h : v.integersOnly = true) :
    '\n' ∉ v.compact.toList := by
  rw [compact, String.toList_ofList]
  exact newLine_notMem_compactChars h

end Rollout.Json
