import Rollout.Proofs.Json.Numerals

/-!
Printed values are read back. The reader comes to the end of a printed value and not past it,
with the document that `Json.written` says; the fuel of the reader is never what stops it,
since a printed value is at least half as long as the calls that read it are deep.
-/

namespace Rollout.Json

open Number

/-! ## Tokens -/

theorem skipSpace_newLine (level : Nat) (cs : List Char) :
    skipSpace (newLine level ++ cs) = skipSpace cs := by
  have hblank (n : Nat) : skipSpace (List.replicate n ' ' ++ cs) = skipSpace cs := by
    induction n with
    | zero => rfl
    | succ n ih => simpa [List.replicate_succ, skipSpace, isSpace] using ih
  simpa [newLine, skipSpace, isSpace] using hblank (2 * level)

theorem codeUnit?_control :
    ∀ n < 0x20, codeUnit? '0' '0' (Text.hexDigit (n / 16)) (Text.hexDigit (n % 16)) = some n := by
  decide

theorem pieceOfUnit_control {c : Char} (h : c.toNat < 0x20) : pieceOfUnit c.toNat = .char c := by
  rw [pieceOfUnit, if_neg (by omega), if_neg (by omega), Char.ofNat_toNat]

theorem readString_short {e c : Char} (h : shortEscape? e = some c) (cs : List Char) :
    readString ('\\' :: e :: cs) =
      (readString cs).map fun (pieces, rest) => (.char c :: pieces, rest) := by
  have hu : e ≠ 'u' := by
    rintro rfl
    cases h
  rw [readString]
  · rw [h]
    cases readString cs <;> rfl
  · rintro a b c d cs' rfl -
    exact hu rfl

theorem readString_control {c : Char} (h : c.toNat < 0x20) (cs : List Char) :
    readString ('\\' :: 'u' :: '0' :: '0' ::
        Text.hexDigit (c.toNat / 16) :: Text.hexDigit (c.toNat % 16) :: cs) =
      (readString cs).map fun (pieces, rest) => (.char c :: pieces, rest) := by
  rw [readString, codeUnit?_control _ h, ← pieceOfUnit_control h]
  cases readString cs <;> rfl

theorem readString_plain {c : Char} (hquote : c ≠ '"') (hback : c ≠ '\\') (h : ¬c.toNat < 0x20)
    (cs : List Char) :
    readString (c :: cs) =
      (readString cs).map fun (pieces, rest) => (.char c :: pieces, rest) := by
  rw [readString]
  · rw [if_neg (by simp [hback, h])]
    cases readString cs <;> rfl
  · exact hquote
  · rintro a b c d cs' rfl
    exact absurd rfl hback
  · rintro e cs' rfl
    exact absurd rfl hback

/-- A character is read back from how it is written in a string. -/
theorem readString_escapeChar (c : Char) (cs : List Char) :
    readString (escapeChar c ++ cs) =
      (readString cs).map fun (pieces, rest) => (.char c :: pieces, rest) := by
  have hcode {d : Char} (h : c.toNat = d.toNat) : c = d := by
    rw [← Char.ofNat_toNat c, h, Char.ofNat_toNat]
  unfold escapeChar
  split
  · rename_i h
    subst h
    exact readString_short rfl cs
  split
  · rename_i h
    subst h
    exact readString_short rfl cs
  split
  · rename_i h
    obtain rfl := hcode (show c.toNat = (Char.ofNat 0x08).toNat from h)
    exact readString_short rfl cs
  split
  · rename_i h
    obtain rfl := hcode (show c.toNat = (Char.ofNat 0x0C).toNat from h)
    exact readString_short rfl cs
  split
  · rename_i h
    subst h
    exact readString_short rfl cs
  split
  · rename_i h
    subst h
    exact readString_short rfl cs
  split
  · rename_i h
    subst h
    exact readString_short rfl cs
  split
  · rename_i h
    exact readString_control h cs
  · exact readString_plain ‹_› ‹_› ‹_› cs

theorem readString_escaped (cs rest : List Char) :
    readString (cs.flatMap escapeChar ++ '"' :: rest) = some (cs.map .char, rest) := by
  induction cs with
  | nil => rfl
  | cons c cs ih =>
    rw [List.flatMap_cons, List.append_assoc, readString_escapeChar, ih]
    rfl

theorem readString_stringText (s : String) (rest : List Char) :
    ∃ cs, stringText s ++ rest = '"' :: cs ∧ readString cs = some (piecesOf s, rest) := by
  refine ⟨s.toList.flatMap escapeChar ++ '"' :: rest, ?_, readString_escaped _ _⟩
  simp [stringText]

/-! ## Values -/

mutual

/-- How much fuel the reader needs for a printed value. -/
def depth : Json → Nat
  | .arr items => 1 + depthItems items
  | .obj members => 1 + depthMembers members
  | _ => 1

/-- `depth` for the items of an array. -/
def depthItems : List Json → Nat
  | [] => 0
  | v :: vs => 1 + depth v + depthItems vs

/-- `depth` for the members of an object. -/
def depthMembers : List (String × Json) → Nat
  | [] => 0
  | (_, v) :: rest => 1 + depth v + depthMembers rest

end

/-- What a printed value does not begin with: a blank or a closing bracket. -/
def Opens : List Char → Prop
  | [] => False
  | c :: _ => isSpace c = false ∧ c ≠ ']' ∧ c ≠ '}'

theorem Opens.skipSpace {cs : List Char} (h : Opens cs) : skipSpace cs = cs := by
  cases cs with
  | nil => exact h.elim
  | cons c cs => simp [Json.skipSpace, h.1]

theorem Opens.append {cs : List Char} (h : Opens cs) (rest : List Char) : Opens (cs ++ rest) := by
  cases cs with
  | nil => exact h.elim
  | cons c cs => exact h

theorem opens_of_isDecimal {c : Char} (h : IsDecimal c) (cs : List Char) : Opens (c :: cs) := by
  have hne {d : Char} (hd : d.toNat < 48 ∨ 57 < d.toNat) : c ≠ d := by
    rintro rfl
    rcases h with ⟨h1, h2⟩
    omega
  refine ⟨?_, hne (by decide), hne (by decide)⟩
  simp [isSpace, hne (d := ' ') (by decide), hne (d := '\n') (by decide),
    hne (d := '\r') (by decide), hne (d := '\t') (by decide)]

theorem opens_prettyChars (level : Nat) (v : Json) : Opens (prettyChars level v) := by
  have hcons {c : Char} (hc : isSpace c = false ∧ c ≠ ']' ∧ c ≠ '}') (cs : List Char) :
      Opens (c :: cs) := hc
  match v with
  | .null => exact hcons (by decide) _
  | .bool true => exact hcons (by decide) _
  | .bool false => exact hcons (by decide) _
  | .number (.int n) =>
    rw [prettyChars, numeralText, intText]
    split
    · exact hcons (by decide) _
    · obtain ⟨c, cs, hcs, hc⟩ := exists_cons_toDigits n.natAbs
      exact hcs ▸ opens_of_isDecimal hc cs
  | .number (.float x) =>
    obtain ⟨c, cs, hcs, hc⟩ := opens_floatText x
    rw [prettyChars, numeralText, hcs]
    rcases hc with rfl | hc
    · exact hcons (by decide) _
    · exact opens_of_isDecimal hc cs
  | .str s => exact hcons (by decide) _
  | .arr [] => exact hcons (by decide) _
  | .arr (x :: xs) => exact hcons (by decide) _
  | .obj [] => exact hcons (by decide) _
  | .obj ((name, x) :: xs) => exact hcons (by decide) _

theorem readValue_newLine (fuel level : Nat) (cs : List Char) :
    readValue fuel (newLine level ++ cs) = readValue fuel cs := by
  cases fuel with
  | zero => rfl
  | succ fuel => rw [readValue, readValue, skipSpace_newLine]

theorem readItems_newLine (fuel level : Nat) (cs : List Char) :
    readItems fuel (newLine level ++ cs) = readItems fuel cs := by
  cases fuel with
  | zero => rfl
  | succ fuel => rw [readItems, readItems, readValue_newLine]

theorem readMembers_newLine (fuel level : Nat) (cs : List Char) :
    readMembers fuel (newLine level ++ cs) = readMembers fuel cs := by
  cases fuel with
  | zero => rfl
  | succ fuel => rw [readMembers, readMembers, skipSpace_newLine]

theorem closes_newLine (level : Nat) (cs : List Char) : Closes (newLine level ++ cs) :=
  .inr (.inl rfl)

theorem closes_comma (cs : List Char) : Closes (',' :: cs) := .inl rfl

theorem skipSpace_cons {c : Char} (h : isSpace c = false) (cs : List Char) :
    skipSpace (c :: cs) = c :: cs := by
  rw [skipSpace, if_neg (by simp [h])]

theorem readValue_bracket (fuel level : Nat) {cs : List Char} (h : Opens cs) :
    readValue (fuel + 1) ('[' :: (newLine level ++ cs)) =
      (readItems fuel cs).map fun (items, rest) => (.arr items, rest) := by
  rw [readValue, skipSpace_cons (by decide)]
  simp only [skipSpace_newLine, h.skipSpace]
  split
  · exact absurd rfl h.2.1
  · rfl

theorem readValue_brace (fuel level : Nat) {cs : List Char} (h : Opens cs) :
    readValue (fuel + 1) ('{' :: (newLine level ++ cs)) =
      (readMembers fuel cs).map fun (members, rest) => (.obj members, rest) := by
  rw [readValue, skipSpace_cons (by decide)]
  simp only [skipSpace_newLine, h.skipSpace]
  split
  · exact absurd rfl h.2.2
  · rfl

theorem readValue_number {cs rest : List Char} {l : Literal} (fuel : Nat)
    (hstart : ∃ c cs', cs = c :: cs' ∧ (c = '-' ∨ IsDecimal c))
    (hread : readNumber (cs ++ rest) = some (l, rest)) :
    readValue (fuel + 1) (cs ++ rest) = some (.number l, rest) := by
  obtain ⟨c, cs', rfl, hc⟩ := hstart
  have hne {d : Char} (hd : d ≠ '-') (hd' : d.toNat < 48 ∨ 57 < d.toNat) : c ≠ d := by
    rintro rfl
    rcases hc with rfl | ⟨h1, h2⟩
    · exact hd rfl
    · omega
  have hspace : isSpace c = false := by
    simp [isSpace, hne (d := ' ') (by decide) (by decide), hne (d := '\n') (by decide) (by decide),
      hne (d := '\r') (by decide) (by decide), hne (d := '\t') (by decide) (by decide)]
  rw [List.cons_append] at hread ⊢
  rw [readValue, skipSpace_cons hspace]
  split
  case h_7 => rw [hread]; rfl
  all_goals
    rename_i hstart
    injection hstart with hstart
    exact absurd hstart (hne (by decide) (by decide))

theorem opens_intText (n : Int) : ∃ c cs, intText n = c :: cs ∧ (c = '-' ∨ IsDecimal c) := by
  unfold intText
  split
  · exact ⟨_, _, rfl, .inl rfl⟩
  · obtain ⟨c, cs, hcs, hc⟩ := exists_cons_toDigits n.natAbs
    exact ⟨c, cs, hcs, .inr hc⟩

/-- A member before a comma, and the members after it. -/
theorem readMembers_cons {name : String} {fuel : Nat} {value more : List Char} {w : Written}
    (hvalue : readValue fuel (value ++ ',' :: more) = some (w, ',' :: more)) :
    readMembers (fuel + 1) (stringText name ++ ':' :: ' ' :: (value ++ ',' :: more)) =
      (readMembers fuel more).map fun (members, rest) => ((piecesOf name, w) :: members, rest) := by
  obtain ⟨cs, hcs, hname⟩ := readString_stringText name (':' :: ' ' :: (value ++ ',' :: more))
  have hblank (cs : List Char) : readValue fuel (' ' :: cs) = readValue fuel cs := by
    cases fuel <;> rfl
  rw [hcs, readMembers, skipSpace_cons (by decide)]
  simp only [hname, skipSpace_cons (show isSpace ':' = false by decide), hblank, hvalue,
    skipSpace_cons (show isSpace ',' = false by decide)]

/-- The last member, before the end of its object. -/
theorem readMembers_last {name : String} {fuel level : Nat} {value rest : List Char} {w : Written}
    (hvalue : readValue fuel (value ++ (newLine level ++ '}' :: rest)) =
      some (w, newLine level ++ '}' :: rest)) :
    readMembers (fuel + 1)
        (stringText name ++ ':' :: ' ' :: (value ++ (newLine level ++ '}' :: rest))) =
      some ([(piecesOf name, w)], rest) := by
  obtain ⟨cs, hcs, hname⟩ := readString_stringText name
    (':' :: ' ' :: (value ++ (newLine level ++ '}' :: rest)))
  have hblank (cs : List Char) : readValue fuel (' ' :: cs) = readValue fuel cs := by
    cases fuel <;> rfl
  rw [hcs, readMembers, skipSpace_cons (by decide)]
  simp only [hname, skipSpace_cons (show isSpace ':' = false by decide), hblank, hvalue,
    skipSpace_newLine, skipSpace_cons (show isSpace '}' = false by decide)]

mutual

/-- A printed value is read back, whatever closes it. -/
theorem readValue_prettyChars (v : Json) (level fuel : Nat) {rest : List Char}
    (hf : v.depth ≤ fuel) (hrest : Closes rest) :
    readValue fuel (prettyChars level v ++ rest) = some (v.written, rest) := by
  cases fuel with
  | zero => cases v <;> simp [depth] at hf
  | succ fuel =>
    match v with
    | .null => rfl
    | .bool true => rfl
    | .bool false => rfl
    | .number (.int n) =>
      exact readValue_number fuel (opens_intText n) (readNumber_intText n hrest)
    | .number (.float x) =>
      exact readValue_number fuel (opens_floatText x) (readNumber_floatText x hrest)
    | .str s =>
      obtain ⟨cs, hcs, hread⟩ := readString_stringText s rest
      rw [prettyChars, hcs, readValue, skipSpace_cons (by decide)]
      simp [hread, written]
    | .arr [] => rfl
    | .arr (x :: xs) =>
      simp only [depth] at hf
      have hread := readItems_prettyItems x xs level fuel (by omega) hrest
      rw [prettyChars, List.cons_append, List.append_assoc, List.append_assoc]
      rw [readValue_bracket fuel (level + 1) ((opens_prettyChars _ x).append _), hread]
      rfl
    | .obj [] => rfl
    | .obj ((name, x) :: xs) =>
      simp only [depth] at hf
      have hread := readMembers_prettyMembers name x xs level fuel (by omega) hrest
      have hopens (cs : List Char) : Opens (stringText name ++ cs) :=
        Opens.append (by exact ⟨rfl, by decide, by decide⟩) cs
      rw [prettyChars, List.cons_append, List.append_assoc, List.append_assoc]
      rw [readValue_brace fuel (level + 1) (hopens _)]
      simp only [List.cons_append, List.append_assoc]
      rw [hread]
      rfl
termination_by fuel

theorem readItems_prettyItems (x : Json) (xs : List Json) (level fuel : Nat) {rest : List Char}
    (hf : depthItems (x :: xs) ≤ fuel) (hrest : Closes rest) :
    readItems fuel (prettyChars (level + 1) x ++ (prettyItems level xs ++ rest)) =
      some (writtenItems (x :: xs), rest) := by
  cases fuel with
  | zero => simp [depthItems] at hf
  | succ fuel =>
    rw [depthItems] at hf
    match xs with
    | [] =>
      rw [prettyItems, List.append_assoc, readItems,
        readValue_prettyChars x (level + 1) fuel (by omega) (closes_newLine _ _)]
      simp only [skipSpace_newLine]
      rfl
    | y :: ys =>
      have hread := readItems_prettyItems y ys level fuel (by omega) hrest
      rw [prettyItems, List.cons_append, readItems,
        readValue_prettyChars x (level + 1) fuel (by omega) (closes_comma _)]
      simp only [skipSpace_cons (show isSpace ',' = false by decide), List.append_assoc,
        readItems_newLine, hread]
      rfl
termination_by fuel

theorem readMembers_prettyMembers (name : String) (x : Json) (xs : List (String × Json))
    (level fuel : Nat) {rest : List Char}
    (hf : depthMembers ((name, x) :: xs) ≤ fuel) (hrest : Closes rest) :
    readMembers fuel (stringText name ++
        ':' :: ' ' :: (prettyChars (level + 1) x ++ (prettyMembers level xs ++ rest))) =
      some (writtenMembers ((name, x) :: xs), rest) := by
  cases fuel with
  | zero => simp [depthMembers] at hf
  | succ fuel =>
    rw [depthMembers] at hf
    match xs with
    | [] =>
      rw [prettyMembers, List.append_assoc]
      exact readMembers_last
        (readValue_prettyChars x (level + 1) fuel (by omega) (closes_newLine _ _))
    | (name', y) :: ys =>
      have hread := readMembers_prettyMembers name' y ys level fuel (by omega) hrest
      rw [prettyMembers, List.cons_append, readMembers_cons
        (readValue_prettyChars x (level + 1) fuel (by omega) (closes_comma _))]
      simp only [List.append_assoc, List.cons_append, readMembers_newLine, hread]
      rfl
termination_by fuel

end

/-! ## Documents -/

theorem Opens.length_pos {cs : List Char} (h : Opens cs) : 0 < cs.length := by
  cases cs with
  | nil => exact h.elim
  | cons c cs => simp

mutual

theorem depth_le (v : Json) (level : Nat) :
    v.depth ≤ 2 * (prettyChars level v).length := by
  have hpos := (opens_prettyChars level v).length_pos
  match v with
  | .null | .bool _ | .number _ | .str _ => rw [depth.eq_def]; dsimp only; omega
  | .arr [] | .obj [] => simp [depth, depthItems, depthMembers, prettyChars]
  | .arr (x :: xs) =>
    have hx := depth_le x (level + 1)
    have hxs := depthItems_le xs level
    simp only [depth, depthItems, prettyChars, List.length_cons, List.length_append]
    omega
  | .obj ((name, x) :: xs) =>
    have hx := depth_le x (level + 1)
    have hxs := depthMembers_le xs level
    simp only [depth, depthMembers, prettyChars, List.length_cons, List.length_append]
    omega

theorem depthItems_le (xs : List Json) (level : Nat) :
    depthItems xs ≤ 2 * (prettyItems level xs).length := by
  match xs with
  | [] => simp [depthItems]
  | x :: xs =>
    have hx := depth_le x (level + 1)
    have hxs := depthItems_le xs level
    simp only [depthItems, prettyItems, List.length_cons, List.length_append]
    omega

theorem depthMembers_le (xs : List (String × Json)) (level : Nat) :
    depthMembers xs ≤ 2 * (prettyMembers level xs).length := by
  match xs with
  | [] => simp [depthMembers]
  | (name, x) :: xs =>
    have hx := depth_le x (level + 1)
    have hxs := depthMembers_le xs level
    simp only [depthMembers, prettyMembers, List.length_cons, List.length_append]
    omega

end

/-- The text of a value is the text of its document. -/
theorem parse?_pretty (v : Json) : Written.parse? v.pretty = some v.written := by
  have hdepth := depth_le v 0
  have hread := readValue_prettyChars v 0 (2 * (prettyChars 0 v).length + 2) (by omega)
    (show Closes [] from trivial)
  rw [List.append_nil] at hread
  simp [Written.parse?, pretty, hread, skipSpace]

/-- The text of a value in the form of a reader's, read no deeper than it can be, is that value
or nothing. -/
theorem eq_of_parse?_pretty {v v' : Json} (hi : v.integersOnly = true) (hc : v.Canonical)
    (h : parse? v.pretty = some v') : v' = v := by
  rw [parse?, parse?_pretty, Option.bind_some] at h
  exact eq_of_value?_written hi hc h

end Rollout.Json
