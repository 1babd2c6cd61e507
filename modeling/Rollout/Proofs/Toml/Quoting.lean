import Rollout.Toml.Printer

/-!
Strings of a TOML document. Whichever way a string is written, it is read back: the characters
that a way cannot write are the ones it is not chosen for, or escapes.
-/

namespace Rollout.Toml

variable {c : Char} {cs rest : List Char}

/-! ## Characters -/

theorem isPlain_of_not_isControl (h : isControl c = false) (hbreak : c ≠ '\n') :
    isPlain c = true := by
  by_cases htab : c = '\t'
  · simp [isPlain, htab]
  · simp only [isControl, htab, hbreak, decide_true, Bool.and_true, ne_eq, not_false_eq_true,
      Bool.or_eq_false_iff, decide_eq_false_iff_not] at h
    simp only [isPlain, Bool.or_eq_true, Bool.and_eq_true, decide_eq_true_eq, ne_eq]
    omega

theorem eq_of_toNat {c d : Char} (h : c.toNat = d.toNat) : c = d := by
  rw [← Char.ofNat_toNat c, h, Char.ofNat_toNat]

theorem readCodePoint_hexPair :
    ∀ n < 0x80, ∀ rest, readCodePoint 4 ('0' :: '0' :: (hexPair n ++ rest)) =
      some (Char.ofNat n, rest) := by
  intro n hn rest
  have hdigits : ∀ n < 0x80, (['0', '0'] ++ hexPair n).map (digitIn? 16) =
      [some 0, some 0, some (n / 16), some (n % 16)] := by decide
  have htake : ('0' :: '0' :: (hexPair n ++ rest)).take 4 = ['0', '0'] ++ hexPair n := rfl
  have hdrop : ('0' :: '0' :: (hexPair n ++ rest)).drop 4 = rest := rfl
  have hvalue : ofDigits 16 [0, 0, n / 16, n % 16] = n := by
    simp only [ofDigits, List.foldl]
    omega
  simp only [readCodePoint, htake, hdrop, hdigits n hn]
  simp [hvalue]
  omega

/-- What may follow the backslash of an escape. -/
def isEscapeMark (d : Char) : Bool := ['"', '\\', 'n', 't', 'r', 'b', 'f', 'u'].contains d

/-- A character is written as an escape, or stands for itself. -/
theorem escape_cases (c : Char) :
    (∃ d code, escape c = '\\' :: d :: code ∧ isEscapeMark d = true ∧
      ∀ rest, readEscape (d :: (code ++ rest)) = some (c, rest)) ∨
    (escape c = [c] ∧ isPlain c = true ∧ c ≠ '"' ∧ c ≠ '\\' ∧ c ≠ '\n' ∧ c ≠ '\r') := by
  have hcode {n : Nat} (h : c.toNat = n) : Char.ofNat n = c := by
    rw [← h, Char.ofNat_toNat]
  unfold escape
  split
  · rename_i h
    exact .inl ⟨_, [], rfl, rfl, by simp [readEscape, h]⟩
  split
  · rename_i h
    exact .inl ⟨_, [], rfl, rfl, by simp [readEscape, h]⟩
  split
  · rename_i h
    exact .inl ⟨_, [], rfl, rfl, by simp [readEscape, h]⟩
  split
  · rename_i h
    exact .inl ⟨_, [], rfl, rfl, by simp [readEscape, h]⟩
  split
  · rename_i h
    exact .inl ⟨_, [], rfl, rfl, by simp [readEscape, h]⟩
  split
  · rename_i h
    refine .inl ⟨_, [], rfl, rfl, fun rest => ?_⟩
    rw [← hcode h]
    rfl
  split
  · rename_i h
    refine .inl ⟨_, [], rfl, rfl, fun rest => ?_⟩
    rw [← hcode h]
    rfl
  split
  · rename_i hcontrol
    have hlt : c.toNat < 0x80 := by
      simp only [isControl, Bool.and_eq_true, Bool.or_eq_true, decide_eq_true_eq] at hcontrol
      omega
    refine .inl ⟨_, _, rfl, rfl, fun rest => ?_⟩
    have hread := readCodePoint_hexPair c.toNat hlt rest
    rw [Char.ofNat_toNat] at hread
    exact hread
  · rename_i hquote hback hbreak _ hreturn _ _ hcontrol
    exact .inr ⟨rfl, isPlain_of_not_isControl (by simpa using hcontrol) hbreak, hquote, hback,
      hbreak, hreturn⟩

/-! ## On one line -/

theorem readBasic_escaped {fuel : Nat} (h : cs.length < fuel) (rest : List Char) :
    readBasic fuel (cs.flatMap escape ++ '"' :: rest) = some (cs, rest) := by
  induction cs generalizing fuel with
  | nil =>
    cases fuel with
    | zero => cases h
    | succ fuel => rfl
  | cons c cs ih =>
    cases fuel with
    | zero => cases h
    | succ fuel =>
      have ih := ih (Nat.lt_of_succ_lt_succ h)
      rw [List.flatMap_cons, List.append_assoc]
      rcases escape_cases c with ⟨d, code, hcode, -, hread⟩ | ⟨hself, hplain, hquote, hback, -⟩
      · rw [hcode]
        simp [readBasic, hread, ih]
      · rw [hself, List.singleton_append, readBasic]
        · simp [hplain, ih]
        · exact hquote
        · exact hback

theorem readLiteral_append (h : ∀ c ∈ cs, isPlain c = true ∧ c ≠ singleQuote)
    (rest : List Char) : readLiteral (cs ++ singleQuote :: rest) = some (cs, rest) := by
  induction cs with
  | nil => rfl
  | cons c cs ih =>
    obtain ⟨hplain, hquote⟩ := h c List.mem_cons_self
    have hne : c.toNat ≠ 39 := fun hc => hquote (eq_of_toNat (hc.trans (by decide)))
    have ih := ih fun d hd => h d (List.mem_cons_of_mem _ hd)
    rw [List.cons_append, readLiteral]
    simp [hne, hplain, ih]

/-! ## Over several lines -/

theorem replicate_append_cons (n : Nat) (q : Char) (rest : List Char) :
    List.replicate n q ++ q :: rest = List.replicate (n + 1) q ++ rest := by
  rw [List.replicate_succ', List.append_assoc]
  rfl

theorem countLeading_replicate (n : Nat) {q : Char} (h : rest.head? ≠ some q) :
    countLeading q (List.replicate n q ++ rest) = (n, rest) := by
  have hends : rest.takeWhile (· = q) = [] ∧ rest.dropWhile (· = q) = rest := by
    cases rest with
    | nil => exact ⟨rfl, rfl⟩
    | cons c rest =>
      have hc : c ≠ q := by simpa using h
      simp [hc]
  simp [countLeading, hends.1, hends.2]

/-- Up to two quotes before the closing ones belong to the text. -/
theorem closeRun_of_le {n : Nat} (h : n ≤ 2) (q : Char) (rest : List Char) :
    closeRun q (n + 3) rest = (List.replicate n q, rest) := by
  have hmin : min (n + 3 - 3) 2 = n := by omega
  simp only [closeRun, hmin]
  simp

theorem replicate_append_three (n : Nat) (q : Char) (rest : List Char) :
    List.replicate n q ++ (three q ++ rest) = List.replicate (n + 3) q ++ rest := by
  rw [← List.append_assoc, show three q = List.replicate 3 q from rfl,
    List.replicate_append_replicate]

/-- Fewer than three quotes are part of the text. -/
theorem readLongBasic_quotes {n k : Nat} (hn : n ≤ 2) (h : rest.head? ≠ some '"')
    {text rest' : List Char}
    (hread : ∀ fuel, k < fuel → readLongBasic fuel rest = some (text, rest'))
    {fuel : Nat} (hfuel : n + k < fuel) :
    readLongBasic fuel (List.replicate n '"' ++ rest) =
      some (List.replicate n '"' ++ text, rest') := by
  cases n with
  | zero => exact hread fuel (by omega)
  | succ n =>
    obtain ⟨fuel, rfl⟩ : ∃ m, fuel = m + 1 := ⟨fuel - 1, by omega⟩
    have hcount := countLeading_replicate (n + 1) h
    rw [List.replicate_succ, List.cons_append] at hcount ⊢
    rw [readLongBasic]
    simp only [hcount]
    rw [if_neg (by omega), hread fuel (by omega)]
    rfl

theorem readLongBasic_escape {k : Nat} {text rest' : List Char}
    (hread : ∀ fuel, k < fuel → readLongBasic fuel rest = some (text, rest'))
    {fuel : Nat} (hfuel : k + 1 < fuel) :
    readLongBasic fuel (escape c ++ rest) = some (c :: text, rest') := by
  obtain ⟨fuel, rfl⟩ : ∃ m, fuel = m + 1 := ⟨fuel - 1, by omega⟩
  have hread := hread fuel (by omega)
  rcases escape_cases c with ⟨d, code, hcode, hmark, hescape⟩ |
    ⟨hself, hplain, hquote, hback, hbreak, hreturn⟩
  · have hnone : afterEscapedBreak? (d :: (code ++ rest)) = none := by
      simp only [isEscapeMark, List.contains_eq_mem, decide_eq_true_eq, List.mem_cons,
        List.not_mem_nil, or_false] at hmark
      rcases hmark with rfl | rfl | rfl | rfl | rfl | rfl | rfl | rfl <;> rfl
    rw [hcode, List.cons_append, List.cons_append, readLongBasic, hnone]
    simp [hescape, hread]
  · have hnone : afterBreak? (c :: rest) = none := by
      unfold afterBreak?
      split
      · exact absurd ‹c :: rest = _› (by simp [hbreak])
      · exact absurd ‹c :: rest = _› (by simp [hreturn])
      · rfl
    rw [hself, List.singleton_append, readLongBasic]
    · simp [hnone, hplain, hread]
    · exact hquote
    · exact hback

theorem readLongBasic_break {k : Nat} {text rest' : List Char}
    (hread : ∀ fuel, k < fuel → readLongBasic fuel rest = some (text, rest'))
    {fuel : Nat} (hfuel : k + 1 < fuel) :
    readLongBasic fuel ('\n' :: rest) = some ('\n' :: text, rest') := by
  obtain ⟨fuel, rfl⟩ : ∃ m, fuel = m + 1 := ⟨fuel - 1, by omega⟩
  simp [readLongBasic, afterBreak?, hread fuel (by omega)]

theorem head?_escape (c : Char) (rest : List Char) : (escape c ++ rest).head? ≠ some '"' := by
  rcases escape_cases c with ⟨d, code, hcode, -⟩ | ⟨hself, -, hquote, -⟩
  · simp [hcode]
  · simpa [hself] using hquote

/-- A text between three double quotes is read back, after `n` double quotes before it. -/
theorem readLongBasic_longBasicText {n fuel : Nat} (hn : n ≤ 2) (hfuel : n + cs.length < fuel)
    (hrest : rest.head? ≠ some '"') :
    readLongBasic fuel (List.replicate n '"' ++ (longBasicText n cs ++ (three '"' ++ rest))) =
      some (List.replicate n '"' ++ cs, rest) := by
  induction cs generalizing n fuel with
  | nil =>
    obtain ⟨fuel, rfl⟩ : ∃ m, fuel = m + 1 := ⟨fuel - 1, by omega⟩
    have hcount := countLeading_replicate (n + 3) hrest
    rw [List.replicate_succ, List.cons_append] at hcount
    rw [longBasicText, List.nil_append, replicate_append_three, List.append_nil,
      List.replicate_succ, List.cons_append, readLongBasic]
    simp only [hcount]
    rw [if_pos (by omega), closeRun_of_le hn]
  | cons c cs ih =>
    rw [List.length_cons] at hfuel
    have hnext (fuel : Nat) (h : cs.length < fuel) :
        readLongBasic fuel (longBasicText 0 cs ++ (three '"' ++ rest)) = some (cs, rest) :=
      ih (n := 0) (Nat.zero_le _) (by omega)
    by_cases hquote : c = '"'
    · subst hquote
      by_cases hlt : n < 2
      · rw [longBasicText, if_pos rfl, if_pos hlt, List.cons_append, replicate_append_cons,
          replicate_append_cons]
        exact ih hlt (by omega)
      · rw [longBasicText, if_pos rfl, if_neg hlt]
        refine readLongBasic_quotes (k := cs.length + 1) hn (by simp) (fun fuel h => ?_) (by omega)
        exact readLongBasic_escape (c := '"') hnext h
    · by_cases hbreak : c = '\n'
      · subst hbreak
        rw [longBasicText, if_neg hquote, if_pos rfl]
        refine readLongBasic_quotes (k := cs.length + 1) hn (by simp) (fun fuel h => ?_) (by omega)
        exact readLongBasic_break hnext h
      · rw [longBasicText, if_neg hquote, if_neg hbreak, List.append_assoc]
        refine readLongBasic_quotes (k := cs.length + 1) hn (head?_escape c _)
          (fun fuel h => ?_) (by omega)
        exact readLongBasic_escape hnext h

theorem readLongLiteral_quotes {n k : Nat} (hn : n ≤ 2) (h : rest.head? ≠ some singleQuote)
    {text rest' : List Char}
    (hread : ∀ fuel, k < fuel → readLongLiteral fuel rest = some (text, rest'))
    {fuel : Nat} (hfuel : n + k < fuel) :
    readLongLiteral fuel (List.replicate n singleQuote ++ rest) =
      some (List.replicate n singleQuote ++ text, rest') := by
  cases n with
  | zero => exact hread fuel (by omega)
  | succ n =>
    obtain ⟨fuel, rfl⟩ : ∃ m, fuel = m + 1 := ⟨fuel - 1, by omega⟩
    have hcount := countLeading_replicate (n + 1) h
    rw [List.replicate_succ, List.cons_append] at hcount ⊢
    rw [readLongLiteral, if_pos rfl]
    simp only [hcount]
    rw [if_neg (by omega), hread fuel (by omega)]
    rfl

theorem readLongLiteral_cons {k : Nat} {text rest' : List Char}
    (hquote : c ≠ singleQuote) (hcontrol : isControl c = false)
    (hread : ∀ fuel, k < fuel → readLongLiteral fuel rest = some (text, rest'))
    {fuel : Nat} (hfuel : k + 1 < fuel) :
    readLongLiteral fuel (c :: rest) = some (c :: text, rest') := by
  obtain ⟨fuel, rfl⟩ : ∃ m, fuel = m + 1 := ⟨fuel - 1, by omega⟩
  have hread := hread fuel (by omega)
  by_cases hbreak : c = '\n'
  · subst hbreak
    rw [readLongLiteral, if_neg hquote]
    simp [afterBreak?, hread]
  · have hnone : afterBreak? (c :: rest) = none := by
      unfold afterBreak?
      split
      · exact absurd ‹c :: rest = _› (by simp [hbreak])
      · rename_i h
        obtain ⟨rfl, -⟩ := List.cons.inj h
        cases hcontrol
      · rfl
    rw [readLongLiteral, if_neg hquote]
    simp [hnone, isPlain_of_not_isControl hcontrol hbreak, hread]

/-- A text between three single quotes is read back, after `n` single quotes before it. -/
theorem readLongLiteral_append {n fuel : Nat} (hrun : longestRun singleQuote n cs ≤ 2)
    (hfuel : n + cs.length < fuel) (hcs : ∀ c ∈ cs, isControl c = false)
    (hrest : rest.head? ≠ some singleQuote) :
    readLongLiteral fuel (List.replicate n singleQuote ++ (cs ++ (three singleQuote ++ rest))) =
      some (List.replicate n singleQuote ++ cs, rest) := by
  induction cs generalizing n fuel with
  | nil =>
    obtain ⟨fuel, rfl⟩ : ∃ m, fuel = m + 1 := ⟨fuel - 1, by omega⟩
    have hcount := countLeading_replicate (n + 3) hrest
    rw [List.replicate_succ, List.cons_append] at hcount
    rw [List.nil_append, replicate_append_three, List.append_nil, List.replicate_succ,
      List.cons_append, readLongLiteral, if_pos rfl]
    simp only [hcount]
    rw [if_pos (by omega), closeRun_of_le (show n ≤ 2 from hrun)]
  | cons c cs ih =>
    rw [List.length_cons] at hfuel
    have hcs' : ∀ d ∈ cs, isControl d = false := fun d hd => hcs d (List.mem_cons_of_mem _ hd)
    by_cases hquote : c = singleQuote
    · subst hquote
      rw [longestRun, if_pos rfl] at hrun
      rw [List.cons_append, replicate_append_cons, replicate_append_cons]
      exact ih hrun (by omega) hcs'
    · rw [longestRun, if_neg hquote, Nat.max_le] at hrun
      refine readLongLiteral_quotes (k := cs.length + 1) hrun.1 (by simpa using hquote)
        (fun fuel h => ?_) (by omega)
      refine readLongLiteral_cons hquote (hcs c List.mem_cons_self) (fun fuel h => ?_) h
      exact ih (n := 0) hrun.2 (by omega) hcs'

/-! ## Strings -/

theorem length_escape_pos (c : Char) : 0 < (escape c).length := by
  rcases escape_cases c with ⟨d, code, hcode, -⟩ | ⟨hself, -⟩
  · simp [hcode]
  · simp [hself]

theorem length_le_flatMap_escape (cs : List Char) : cs.length ≤ (cs.flatMap escape).length := by
  induction cs with
  | nil => exact Nat.le_refl _
  | cons c cs ih =>
    have := length_escape_pos c
    simp only [List.flatMap_cons, List.length_append, List.length_cons]
    omega

theorem length_le_longBasicText (n : Nat) (cs : List Char) :
    cs.length ≤ (longBasicText n cs).length := by
  induction cs generalizing n with
  | nil => exact Nat.zero_le _
  | cons c cs ih =>
    have hzero := ih 0
    have hnext := ih (n + 1)
    have hpos := length_escape_pos c
    unfold longBasicText
    split
    · split <;> simp only [List.length_cons] <;> omega
    · split <;> simp only [List.length_cons, List.length_append] <;> omega

/-- What follows an opening is read from its first character on, line break or not. -/
theorem dropFirstBreak_openingBreak (hrest : '\n' ∉ cs → afterBreak? rest = none) :
    dropFirstBreak (openingBreak cs ++ rest) = rest := by
  unfold openingBreak
  by_cases hbreak : '\n' ∈ cs
  · simp [hbreak, dropFirstBreak, afterBreak?]
  · simp [hbreak, dropFirstBreak, hrest hbreak]

theorem afterBreak?_eq_none (hbreak : rest.head? ≠ some '\n') (hreturn : rest.head? ≠ some '\r') :
    afterBreak? rest = none := by
  unfold afterBreak?
  split
  · exact absurd rfl hbreak
  · exact absurd rfl hreturn
  · rfl

theorem head?_longBasicText (h : '\n' ∉ cs) (rest : List Char) :
    afterBreak? (longBasicText 0 cs ++ (three '"' ++ rest)) = none := by
  cases cs with
  | nil => exact afterBreak?_eq_none (by simp [longBasicText, three]) (by simp [longBasicText, three])
  | cons c cs =>
    rw [List.mem_cons, not_or] at h
    unfold longBasicText
    by_cases hquote : c = '"'
    · exact afterBreak?_eq_none (by simp [hquote]) (by simp [hquote])
    · rw [if_neg hquote, if_neg (Ne.symm h.1), List.append_assoc]
      rcases escape_cases c with ⟨d, code, hcode, -⟩ | ⟨hself, -, -, -, hbreak, hreturn⟩
      · exact afterBreak?_eq_none (by simp [hcode]) (by simp [hcode])
      · exact afterBreak?_eq_none (by simp [hself, hbreak]) (by simp [hself, hreturn])

theorem readString_basic (cs : List Char) (hrest : rest.head? ≠ some '"') :
    readString (quoted .basic cs ++ rest) = some (cs, rest) := by
  have hlength := length_le_flatMap_escape cs
  have hbody : quoted .basic cs ++ rest = '"' :: (cs.flatMap escape ++ '"' :: rest) := by
    simp [quoted]
  rw [hbody, readString]
  · refine readBasic_escaped ?_ rest
    rw [List.length_append]
    omega
  · rintro more hmore
    cases cs with
    | nil =>
      rw [List.flatMap_nil, List.nil_append, List.cons.injEq] at hmore
      exact hrest (by rw [hmore.2]; rfl)
    | cons c cs =>
      refine head?_escape c (cs.flatMap escape ++ '"' :: rest) ?_
      rw [List.flatMap_cons, List.append_assoc] at hmore
      rw [hmore]
      rfl

theorem readString_single (h : ∀ more, rest ≠ singleQuote :: singleQuote :: more) :
    readString (singleQuote :: rest) = readLiteral rest := by
  match rest with
  | [] => rfl
  | [b] => rfl
  | b :: c :: more =>
    have hne : ¬(b = singleQuote ∧ c = singleQuote) := by
      rintro ⟨rfl, rfl⟩
      exact h more rfl
    simp [readString, hne, show singleQuote ≠ '"' by decide]

theorem readString_literal (hcs : ∀ c ∈ cs, isPlain c = true ∧ c ≠ singleQuote)
    (hrest : rest.head? ≠ some singleQuote) :
    readString (quoted .literal cs ++ rest) = some (cs, rest) := by
  have hbody : quoted .literal cs ++ rest = singleQuote :: (cs ++ singleQuote :: rest) := by
    simp [quoted]
  rw [hbody, readString_single]
  · exact readLiteral_append hcs rest
  · rintro more hmore
    cases cs with
    | nil =>
      rw [List.nil_append, List.cons.injEq] at hmore
      exact hrest (by rw [hmore.2]; rfl)
    | cons c cs => exact (hcs c List.mem_cons_self).2 (List.cons.inj hmore).1

theorem readString_longBasic (cs : List Char) (hrest : rest.head? ≠ some '"') :
    readString (quoted .longBasic cs ++ rest) = some (cs, rest) := by
  have hlength := length_le_longBasicText 0 cs
  have hbody : quoted .longBasic cs ++ rest = '"' :: '"' :: '"' ::
      (openingBreak cs ++ (longBasicText 0 cs ++ (three '"' ++ rest))) := by
    simp [quoted, three]
  rw [hbody, readString, dropFirstBreak_openingBreak fun h => head?_longBasicText h rest]
  refine readLongBasic_longBasicText (n := 0) (Nat.zero_le _) ?_ hrest
  simp only [List.length_append]
  omega

theorem readString_longLiteral (hrun : longestRun singleQuote 0 cs ≤ 2)
    (hcs : ∀ c ∈ cs, isControl c = false) (hrest : rest.head? ≠ some singleQuote) :
    readString (quoted .longLiteral cs ++ rest) = some (cs, rest) := by
  have hbody : quoted .longLiteral cs ++ rest = singleQuote :: singleQuote :: singleQuote ::
      (openingBreak cs ++ (cs ++ (three singleQuote ++ rest))) := by
    simp [quoted, three]
  have hopen : dropFirstBreak (openingBreak cs ++ (cs ++ (three singleQuote ++ rest))) =
      cs ++ (three singleQuote ++ rest) := by
    refine dropFirstBreak_openingBreak fun h => ?_
    cases cs with
    | nil => rfl
    | cons c cs =>
      have hcontrol := hcs c List.mem_cons_self
      refine afterBreak?_eq_none ?_ ?_
      · rintro hc
        cases hc
        exact h List.mem_cons_self
      · rintro hc
        cases hc
        cases hcontrol
  rw [hbody, readString]
  · rw [if_pos ⟨rfl, rfl, rfl⟩, hopen]
    refine readLongLiteral_append (n := 0) hrun ?_ hcs hrest
    simp only [List.length_append]
    omega
  · decide
  · decide

/-! ## Choosing -/

/-- A literal string is chosen for what can stand in one. -/
theorem of_quotingOfValue_literal (h : quotingOfValue cs = .literal) :
    ∀ c ∈ cs, isPlain c = true ∧ c ≠ singleQuote := by
  simp only [quotingOfValue] at h
  split at h
  · cases h
  split at h
  · rename_i hcond
    simp only [Bool.and_eq_true, Bool.not_eq_true', List.any_eq_false, List.contains_eq_mem,
      decide_eq_false_iff_not] at hcond
    obtain ⟨⟨hcontrol, hbreak⟩, hquote⟩ := hcond
    refine fun c hc => ⟨isPlain_of_not_isControl (by simpa using hcontrol c hc) ?_, ?_⟩
    · rintro rfl
      exact hbreak hc
    · rintro rfl
      exact hquote hc
  split at h
  · cases h
  split at h
  · cases h
  split at h <;> cases h

theorem of_quotingOfValue_longLiteral (h : quotingOfValue cs = .longLiteral) :
    longestRun singleQuote 0 cs ≤ 2 ∧ ∀ c ∈ cs, isControl c = false := by
  simp only [quotingOfValue] at h
  split at h
  · cases h
  split at h
  · cases h
  split at h
  · cases h
  split at h
  · rename_i hcond
    simp only [Bool.and_eq_true, Bool.not_eq_true', List.any_eq_false, decide_eq_true_eq] at hcond
    exact ⟨hcond.2, fun c hc => by simpa using hcond.1 c hc⟩
  split at h <;> cases h

theorem of_quotingOfKey (cs : List Char) : quotingOfKey cs = .basic ∨
    quotingOfKey cs = .literal ∧ ∀ c ∈ cs, isPlain c = true ∧ c ≠ singleQuote := by
  simp only [quotingOfKey]
  split
  · exact .inl rfl
  split
  · rename_i hcond
    simp only [Bool.and_eq_true, Bool.not_eq_true', Bool.or_eq_false_iff, List.any_eq_false,
      List.contains_eq_mem, decide_eq_false_iff_not] at hcond
    obtain ⟨⟨hcontrol, hbreak⟩, hquote⟩ := hcond
    refine .inr ⟨rfl, fun c hc => ⟨isPlain_of_not_isControl (by simpa using hcontrol c hc) ?_, ?_⟩⟩
    · rintro rfl
      exact hbreak hc
    · rintro rfl
      exact hquote hc
  · exact .inl rfl

/-! ## Values and keys -/

/-- Any string is read back from how it is written as a value. -/
theorem readString_valueText (s : String) (hdouble : rest.head? ≠ some '"')
    (hsingle : rest.head? ≠ some singleQuote) :
    readString (valueText s ++ rest) = some (s.toList, rest) := by
  rw [valueText]
  generalize hquoting : quotingOfValue s.toList = quoting
  cases quoting with
  | basic => exact readString_basic _ hdouble
  | longBasic => exact readString_longBasic _ hdouble
  | literal => exact readString_literal (of_quotingOfValue_literal hquoting) hsingle
  | longLiteral =>
    obtain ⟨hrun, hcs⟩ := of_quotingOfValue_longLiteral hquoting
    exact readString_longLiteral hrun hcs hsingle

theorem head?_quoted (q : Quoting) (cs : List Char) :
    ∃ c more, quoted q cs = c :: more ∧ (c = '"' ∨ c = singleQuote) := by
  cases q with
  | basic => exact ⟨_, _, rfl, .inl rfl⟩
  | literal => exact ⟨_, _, rfl, .inr rfl⟩
  | longBasic => exact ⟨_, _, rfl, .inl rfl⟩
  | longLiteral => exact ⟨_, _, rfl, .inr rfl⟩

theorem readValue_valueText (s : String) (fuel depth : Nat) (hdouble : rest.head? ≠ some '"')
    (hsingle : rest.head? ≠ some singleQuote) :
    readValue (fuel + 1) depth (valueText s ++ rest) = some (.str s, rest) := by
  have hread := readString_valueText s hdouble hsingle
  obtain ⟨c, more, hquoted, hc⟩ := head?_quoted (quotingOfValue s.toList) s.toList
  rw [valueText, hquoted, List.cons_append] at hread ⊢
  rw [readValue]
  · rw [if_pos hc, hread]
    simp
  · rintro rfl
    rcases hc with hc | hc <;> cases hc
  · rintro rfl
    rcases hc with hc | hc <;> cases hc

theorem takeWhile_append_of_head? {p : Char → Bool} (hcs : ∀ c ∈ cs, p c = true)
    (hrest : ∀ c, rest.head? = some c → p c = false) :
    (cs ++ rest).takeWhile p = cs ∧ (cs ++ rest).dropWhile p = rest := by
  rw [List.takeWhile_append_of_pos hcs, List.dropWhile_append_of_pos hcs]
  cases rest with
  | nil => simp
  | cons c rest => simp [hrest c rfl]

/-- Any key is read back. -/
theorem readKeyPart_keyText (s : String)
    (hrest : ∀ c, rest.head? = some c → isBareKeyChar c = false) :
    readKeyPart (keyText s ++ rest) = some (s, rest) := by
  simp only [keyText]
  by_cases hbare : (!s.toList.isEmpty && s.toList.all isBareKeyChar) = true
  · rw [if_pos hbare]
    simp only [Bool.and_eq_true, Bool.not_eq_true', List.isEmpty_eq_false_iff, ne_eq,
      List.all_eq_true] at hbare
    obtain ⟨hne, hall⟩ := hbare
    obtain ⟨c, more, hs⟩ := List.exists_cons_of_ne_nil hne
    have hc := hall c (by rw [hs]; exact List.mem_cons_self)
    obtain ⟨htake, hdrop⟩ := takeWhile_append_of_head? hall hrest
    rw [← String.ofList_toList (s := s), String.toList_ofList, hs] at *
    rw [List.cons_append] at htake hdrop ⊢
    rw [readKeyPart, if_neg, htake, hdrop]
    · rintro rfl
      cases hc
    · rintro rfl
      cases hc
  · rw [if_neg hbare]
    rcases of_quotingOfKey s.toList with hquoting | ⟨hquoting, hcs⟩
    · have hlength := length_le_flatMap_escape s.toList
      have hbody : quoted .basic s.toList ++ rest =
          '"' :: (s.toList.flatMap escape ++ '"' :: rest) := by
        simp [quoted]
      rw [hquoting, hbody, readKeyPart, readBasic_escaped]
      · simp
      · rw [List.length_append]
        omega
    · have hbody : quoted .literal s.toList ++ rest =
          singleQuote :: (s.toList ++ singleQuote :: rest) := by
        simp [quoted]
      rw [hquoting, hbody, readKeyPart]
      · rw [if_pos rfl, readLiteral_append hcs]
        simp
      · decide

end Rollout.Toml
