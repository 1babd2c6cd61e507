import Rollout.Toml.Document
import Rollout.Proofs.Toml.Quoting

/-!
Lines of a TOML document: a line with a string and a line that opens a table do what they say,
and reading goes on behind them.
-/

namespace Rollout.Toml

variable {c : Char} {cs rest : List Char} {key name : String} {members inner : Members}
  {r r' : Reading} {node : Node}

/-! ## Members -/

theorem find?_append_of_none (h : find? key members = none) (rest : Members) :
    find? key (members ++ rest) = find? key rest := by
  induction members with
  | nil => rfl
  | cons m members ih =>
    simp only [find?] at h
    split at h
    · cases h
    · rename_i hne
      rw [List.cons_append, find?, if_neg hne, ih h]

theorem assign_append_of_none (h : find? key members = none) (n : Node) (rest : Members) :
    assign key n (members ++ rest) = members ++ assign key n rest := by
  induction members with
  | nil => rfl
  | cons m members ih =>
    simp only [find?] at h
    split at h
    · cases h
    · rename_i hne
      rw [List.cons_append, assign, if_neg hne, ih h, List.cons_append]

theorem assign_of_none (h : find? key members = none) (n : Node) :
    assign key n members = members ++ [(key, n)] := by
  simpa [assign] using assign_append_of_none h n []

theorem without_of_none (h : find? key members = none) : without key members = members := by
  induction members with
  | nil => rfl
  | cons m members ih =>
    simp only [find?] at h
    split at h
    · cases h
    · rename_i hne
      simp only [without] at ih ⊢
      rw [List.filter_cons, if_pos (by simpa using hne), ih h]

/-! ## Lines -/

theorem skipBlanks_cons (h : isBlankChar c = false) (cs : List Char) :
    skipBlanks (c :: cs) = c :: cs := by
  simp [skipBlanks, h]

theorem head?_keyText (s : String) :
    ∃ c more, keyText s = c :: more ∧ isBlankChar c = false := by
  simp only [keyText]
  split
  · rename_i hbare
    simp only [Bool.and_eq_true, Bool.not_eq_true', List.isEmpty_eq_false_iff,
      List.all_eq_true] at hbare
    obtain ⟨c, more, hs⟩ := List.exists_cons_of_ne_nil hbare.1
    have hc := hbare.2 c (by rw [hs]; exact List.mem_cons_self)
    refine ⟨c, more, hs, ?_⟩
    by_cases hblank : isBlankChar c = true
    · simp only [isBlankChar, Bool.or_eq_true, decide_eq_true_eq] at hblank
      rcases hblank with rfl | rfl <;> cases hc
    · simpa using hblank
  · obtain ⟨c, more, hquoted, hc⟩ := head?_quoted (quotingOfKey s.toList) s.toList
    refine ⟨c, more, hquoted, ?_⟩
    rcases hc with rfl | rfl <;> rfl

/-- A key that is the last part of a name. -/
theorem readKeyParts_keyText (s : String) (fuel : Nat)
    (hbare : ∀ c, rest.head? = some c → isBareKeyChar c = false)
    (hdot : (skipBlanks rest).head? ≠ some '.') :
    readKeyParts (fuel + 1) (keyText s ++ rest) = some ([s], skipBlanks rest) := by
  obtain ⟨c, more, hs, hc⟩ := head?_keyText s
  have hskip : skipBlanks (keyText s ++ rest) = keyText s ++ rest := by
    rw [hs, List.cons_append, skipBlanks_cons hc]
  rw [readKeyParts, hskip, readKeyPart_keyText s hbare]
  simp only [Option.bind_some]
  split
  · rename_i h
    exact absurd (by rw [h]; rfl) hdot
  · rfl

/-- A key that is followed by more of a name. -/
theorem readKeyParts_dot (s : String) {fuel : Nat} {parts : List String} {rest' : List Char}
    (h : readKeyParts fuel rest = some (parts, rest')) :
    readKeyParts (fuel + 1) (keyText s ++ '.' :: rest) = some (s :: parts, rest') := by
  obtain ⟨c, more, hs, hc⟩ := head?_keyText s
  have hskip : skipBlanks (keyText s ++ '.' :: rest) = keyText s ++ '.' :: rest := by
    rw [hs, List.cons_append, skipBlanks_cons hc]
  have hpart : readKeyPart (keyText s ++ '.' :: rest) = some (s, '.' :: rest) :=
    readKeyPart_keyText s fun c hc => by cases hc; rfl
  rw [readKeyParts, hskip, hpart]
  simp [skipBlanks_cons, isBlankChar, h]

theorem readKey_keyText (s : String)
    (hbare : ∀ c, rest.head? = some c → isBareKeyChar c = false)
    (hdot : (skipBlanks rest).head? ≠ some '.') :
    readKey (keyText s ++ rest) = some ([], s, skipBlanks rest) := by
  rw [readKey, readKeyParts_keyText s _ hbare hdot]
  rfl

theorem readKey_two (s s' : String)
    (hbare : ∀ c, rest.head? = some c → isBareKeyChar c = false)
    (hdot : (skipBlanks rest).head? ≠ some '.') :
    readKey (keyText s ++ '.' :: (keyText s' ++ rest)) = some ([s], s', skipBlanks rest) := by
  have hlength : ∃ n, (keyText s ++ '.' :: (keyText s' ++ rest)).length = n + 1 :=
    ⟨(keyText s).length + (keyText s' ++ rest).length, by simp; omega⟩
  obtain ⟨n, hn⟩ := hlength
  rw [readKey, hn, readKeyParts_dot s (readKeyParts_keyText s' n hbare hdot)]
  rfl

theorem addValue_top (h : find? key members = none) (v : Toml) :
    addValue [] key v members = some (assign key (.value v) members) := by
  simp [addValue, descend, h]

/-- A line with a value adds it to the open table. -/
theorem readPair_eq {v : Toml} {value : List Char}
    (hvalue : ∀ fuel, readValue (fuel + 1) depthLimit (value ++ '\n' :: rest) =
      some (v, '\n' :: rest))
    (hhead : skipBlanks (value ++ '\n' :: rest) = value ++ '\n' :: rest)
    (hnew : find? key r.current = none) :
    readPair (keyText key ++ ' ' :: '=' :: ' ' :: (value ++ '\n' :: rest)) r =
      some ({ r with current := assign key (.value v) r.current }, rest) := by
  have hkey : readKey (keyText key ++ ' ' :: '=' :: ' ' :: (value ++ '\n' :: rest)) =
      some ([], key, '=' :: ' ' :: (value ++ '\n' :: rest)) :=
    readKey_keyText key (fun c hc => by cases hc; rfl) (by simp [skipBlanks, isBlankChar])
  have hskip : skipBlanks (' ' :: (value ++ '\n' :: rest)) = value ++ '\n' :: rest := by
    rw [skipBlanks, List.dropWhile_cons_of_pos rfl]
    exact hhead
  have hend : endLine? ('\n' :: rest) = some rest := rfl
  rw [readPair, hkey]
  simp [hskip, hvalue, hend, addValue_top hnew]

/-- A line with a name in brackets opens its table. -/
theorem readHeader_eq {path : List String} (hkey : readKey cs = some (path, key, ']' :: '\n' :: rest))
    (hne : cs.head? ≠ some '[') (hopen : r.openTable path key = some r') :
    readHeader ('[' :: cs) r = some (r', rest) := by
  have hend : endLine? ('\n' :: rest) = some rest := rfl
  rw [readHeader]
  · simp [hkey, hend, hopen]
  · rintro more rfl
    exact hne rfl

/-! ## Reading on -/

/-- The lines of a text are read, as long as there is fuel for its characters. -/
def Reads (r : Reading) (cs : List Char) (out : Option Members) : Prop :=
  ∀ fuel, cs.length < fuel → readLines fuel r cs = out

namespace Reads

variable {out : Option Members}

theorem nil : Reads r [] r.close := by
  intro fuel h
  obtain ⟨fuel, rfl⟩ : ∃ m, fuel = m + 1 := ⟨fuel - 1, by omega⟩
  rfl

theorem emptyLine (h : Reads r rest out) : Reads r ('\n' :: rest) out := by
  intro fuel hfuel
  obtain ⟨fuel, rfl⟩ : ∃ m, fuel = m + 1 := ⟨fuel - 1, by omega⟩
  rw [List.length_cons] at hfuel
  exact h fuel (by omega)

theorem pair (hc : isBareKeyChar c = true) (hpair : readPair (c :: cs) r = some (r', rest))
    (hlength : rest.length ≤ cs.length) (h : Reads r' rest out) : Reads r (c :: cs) out := by
  intro fuel hfuel
  obtain ⟨fuel, rfl⟩ : ∃ m, fuel = m + 1 := ⟨fuel - 1, by omega⟩
  rw [List.length_cons] at hfuel
  have hne {d : Char} (hd : isBareKeyChar d = false) : c ≠ d := by
    rintro rfl
    rw [hc] at hd
    cases hd
  have hblank : isBlankChar c = false := by
    simp [isBlankChar, hne (d := ' ') rfl, hne (d := '\t') rfl]
  have hbreak : afterBreak? (c :: cs) = none :=
    afterBreak?_eq_none (by simpa using hne (d := '\n') rfl) (by simpa using hne (d := '\r') rfl)
  rw [readLines, skipBlanks_cons hblank]
  split
  · cases ‹c :: cs = []›
  · exact absurd (List.cons.inj ‹c :: cs = _›).1 (hne rfl)
  · exact absurd (List.cons.inj ‹c :: cs = _›).1 (hne rfl)
  · rename_i heq
    cases heq
    rw [hbreak, hpair]
    exact h fuel (by omega)

theorem header (hheader : readHeader ('[' :: cs) r = some (r', rest))
    (hlength : rest.length ≤ cs.length) (h : Reads r' rest out) : Reads r ('[' :: cs) out := by
  intro fuel hfuel
  obtain ⟨fuel, rfl⟩ : ∃ m, fuel = m + 1 := ⟨fuel - 1, by omega⟩
  rw [List.length_cons] at hfuel
  rw [readLines, skipBlanks_cons rfl]
  simp only [hheader, Option.bind_some]
  exact h fuel (by omega)

end Reads

end Rollout.Toml
