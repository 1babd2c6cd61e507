import Rollout.Toml.Document

/-!
What the readers leave. Each of them leaves an end of the text it was given, so that whatever is
read has a place in the document: the text that is left there.
-/

namespace Rollout.Toml

variable {cs rest : List Char}

theorem suffix_of_cons_suffix {c : Char} (h : c :: rest <:+ cs) : rest <:+ cs :=
  (List.suffix_cons c rest).trans h

/-- A reader whose result is changed leaves what it left. -/
theorem exists_of_map {α β : Type} {read : Option (α × List Char)}
    {f : α × List Char → β × List Char} {b : β} (h : read.map f = some (b, rest))
    (hf : ∀ x, (f x).2 = x.2 := by intro x; rfl) : ∃ a, read = some (a, rest) := by
  obtain ⟨⟨a, rest'⟩, hread, heq⟩ := Option.map_eq_some_iff.1 h
  have hrest : (f (a, rest')).2 = rest' := hf (a, rest')
  rw [heq] at hrest
  subst hrest
  exact ⟨a, hread⟩

theorem skipBlanks_suffix (cs : List Char) : skipBlanks cs <:+ cs := List.dropWhile_suffix _

/-! ## Line ends -/

theorem afterBreak?_suffix (h : afterBreak? cs = some rest) : rest <:+ cs := by
  unfold afterBreak? at h
  split at h
  · cases h
    exact List.suffix_cons _ _
  · cases h
    exact suffix_of_cons_suffix (List.suffix_cons _ _)
  · cases h

theorem skipComment_suffix (cs : List Char) : skipComment cs <:+ cs := by
  unfold skipComment
  split
  · exact (List.dropWhile_suffix _).trans (List.suffix_cons _ _)
  · exact List.suffix_rfl

theorem endLine?_suffix (h : endLine? cs = some rest) : rest <:+ cs := by
  unfold endLine? at h
  split at h
  · cases h
    exact List.nil_suffix
  · exact (afterBreak?_suffix h).trans ((skipComment_suffix _).trans (skipBlanks_suffix cs))

theorem skipLines_suffix (fuel : Nat) (cs : List Char) : skipLines fuel cs <:+ cs := by
  induction fuel generalizing cs with
  | zero => exact List.suffix_rfl
  | succ fuel ih =>
    have hblanks := skipBlanks_suffix cs
    rw [skipLines]
    split
    · rename_i rest hrest
      rw [hrest] at hblanks
      split
      · rename_i hbreak
        refine (ih _).trans ((afterBreak?_suffix hbreak).trans ?_)
        exact (List.dropWhile_suffix _).trans (suffix_of_cons_suffix hblanks)
      · exact hblanks
    · split
      · rename_i hbreak
        exact (ih _).trans ((afterBreak?_suffix hbreak).trans hblanks)
      · exact hblanks

/-! ## Strings on one line -/

theorem not_break_of_isPlain {c : Char} (h : isPlain c = true) : '\n' ≠ c ∧ '\r' ≠ c := by
  constructor <;>
  · rintro rfl
    revert h
    decide

theorem exists_text_of_readCodePoint {count : Nat} {c : Char}
    (h : readCodePoint count cs = some (c, rest)) :
    ∃ w, cs = w ++ rest ∧ '\n' ∉ w ∧ '\r' ∉ w := by
  unfold readCodePoint at h
  dsimp only at h
  split at h
  · rename_i hdigits
    split at h
    · cases h
      have hdigit {d : Char} (hd : d ∈ cs.take count) : (digitIn? 16 d).isSome = true :=
        List.all_eq_true.1 hdigits.2 _ (List.mem_map_of_mem hd)
      refine ⟨cs.take count, (List.take_append_drop _ _).symm, ?_, ?_⟩
      · intro hd
        exact absurd (hdigit hd) (by decide)
      · intro hd
        exact absurd (hdigit hd) (by decide)
    · cases h
  · cases h

theorem exists_text_of_readEscape {c : Char} (h : readEscape cs = some (c, rest)) :
    ∃ w, cs = w ++ rest ∧ '\n' ∉ w ∧ '\r' ∉ w := by
  cases cs with
  | nil => cases h
  | cons d cs =>
    have hshort {e : Char} (hd : '\n' ≠ d ∧ '\r' ≠ d) (h : some (e, cs) = some (c, rest)) :
        ∃ w, d :: cs = w ++ rest ∧ '\n' ∉ w ∧ '\r' ∉ w := by
      cases h
      exact ⟨[d], rfl, by simpa using hd.1, by simpa using hd.2⟩
    have hcode {count : Nat} (hd : '\n' ≠ d ∧ '\r' ≠ d)
        (h : readCodePoint count cs = some (c, rest)) :
        ∃ w, d :: cs = w ++ rest ∧ '\n' ∉ w ∧ '\r' ∉ w := by
      obtain ⟨w, rfl, hn, hr⟩ := exists_text_of_readCodePoint h
      exact ⟨d :: w, rfl, by simp [hd.1, hn], by simp [hd.2, hr]⟩
    rw [readEscape] at h
    split at h
    · exact hshort (by subst d; decide) h
    split at h
    · exact hshort (by subst d; decide) h
    split at h
    · exact hshort (by subst d; decide) h
    split at h
    · exact hshort (by subst d; decide) h
    split at h
    · exact hshort (by subst d; decide) h
    split at h
    · exact hshort (by subst d; decide) h
    split at h
    · exact hshort (by subst d; decide) h
    split at h
    · exact hcode (by subst d; decide) h
    split at h
    · exact hcode (by subst d; decide) h
    · cases h

/-- A basic string on one line, as it is written. -/
theorem exists_text_of_readBasic {fuel : Nat} {text : List Char}
    (h : readBasic fuel cs = some (text, rest)) :
    ∃ w, cs = w ++ rest ∧ ('\n' ∉ w ∧ '\r' ∉ w) ∧ ('\\' ∉ w → text <+: w) := by
  induction fuel generalizing cs text with
  | zero => cases h
  | succ fuel ih =>
    unfold readBasic at h
    split at h
    · cases h
    · cases h
      exact ⟨['"'], rfl, by decide, fun _ => List.nil_prefix⟩
    · obtain ⟨⟨c, more⟩, hescape, h⟩ := Option.bind_eq_some_iff.1 h
      obtain ⟨text', hread⟩ := exists_of_map h
      obtain ⟨v, rfl, hv⟩ := exists_text_of_readEscape hescape
      obtain ⟨w, rfl, hw, -⟩ := ih hread
      refine ⟨'\\' :: (v ++ w), by simp, ?_, fun hback => absurd List.mem_cons_self hback⟩
      simp [hv, hw]
    · split at h
      · rename_i c more _ _ hplain
        obtain ⟨⟨text', rest'⟩, hread, heq⟩ := Option.map_eq_some_iff.1 h
        cases heq
        obtain ⟨w, rfl, hw, htext⟩ := ih hread
        obtain ⟨hcn, hcr⟩ := not_break_of_isPlain hplain
        refine ⟨c :: w, rfl, by simp [hcn, hcr, hw], fun hback => ?_⟩
        exact List.cons_prefix_cons.2 ⟨rfl, htext fun h => hback (.tail _ h)⟩
      · cases h

theorem exists_text_of_readLiteral {text : List Char} (h : readLiteral cs = some (text, rest)) :
    ∃ w, cs = w ++ rest ∧ ('\n' ∉ w ∧ '\r' ∉ w) ∧ text <+: w := by
  induction cs generalizing text with
  | nil => cases h
  | cons c cs ih =>
    rw [readLiteral] at h
    split at h
    · rename_i hquote
      cases h
      have hc : c = singleQuote := by
        rw [← Char.ofNat_toNat c, hquote, singleQuote]
      exact ⟨[c], rfl, by rw [hc]; decide, List.nil_prefix⟩
    · split at h
      · rename_i hplain
        obtain ⟨⟨text', rest'⟩, hread, heq⟩ := Option.map_eq_some_iff.1 h
        cases heq
        obtain ⟨w, rfl, ⟨hn, hr⟩, hw⟩ := ih hread
        obtain ⟨hcn, hcr⟩ := not_break_of_isPlain hplain
        exact ⟨c :: w, rfl, by simp [hcn, hcr, hn, hr], List.cons_prefix_cons.2 ⟨rfl, hw⟩⟩
      · cases h

theorem readEscape_suffix {c : Char} (h : readEscape cs = some (c, rest)) : rest <:+ cs := by
  obtain ⟨w, rfl, -⟩ := exists_text_of_readEscape h
  exact List.suffix_append _ _

theorem readBasic_suffix {fuel : Nat} {text : List Char}
    (h : readBasic fuel cs = some (text, rest)) : rest <:+ cs := by
  obtain ⟨w, rfl, -⟩ := exists_text_of_readBasic h
  exact List.suffix_append _ _

theorem readLiteral_suffix {text : List Char} (h : readLiteral cs = some (text, rest)) :
    rest <:+ cs := by
  obtain ⟨w, rfl, -⟩ := exists_text_of_readLiteral h
  exact List.suffix_append _ _

/-! ## Strings over several lines -/

/-- The quotes behind a string over several lines that do not belong to its end are left. -/
theorem closeRun_suffix (q : Char) (cs : List Char) :
    (closeRun q (countLeading q cs).1 (countLeading q cs).2).2 <:+ cs := by
  have hrun : cs.takeWhile (· = q) = List.replicate (cs.takeWhile (· = q)).length q :=
    List.eq_replicate_of_mem fun c hc => by
      simpa using List.all_eq_true.1 (List.all_takeWhile (p := (· = q)) (l := cs)) c hc
  have hcs : cs = List.replicate (cs.takeWhile (· = q)).length q ++ cs.dropWhile (· = q) := by
    rw [← hrun, List.takeWhile_append_dropWhile]
  simp only [closeRun, countLeading]
  generalize (cs.takeWhile (· = q)).length = n at hcs
  conv => rhs; rw [hcs]
  have hle : n - 3 - min (n - 3) 2 ≤ n := by omega
  refine ⟨List.replicate (n - (n - 3 - min (n - 3) 2)) q, ?_⟩
  rw [← List.append_assoc, List.replicate_append_replicate, Nat.sub_add_cancel hle]

theorem skipBreaks_suffix (fuel : Nat) (cs : List Char) :
    afterEscapedBreak?.skipBreaks fuel cs <:+ cs := by
  induction fuel generalizing cs with
  | zero => exact List.suffix_rfl
  | succ fuel ih =>
    rw [afterEscapedBreak?.skipBreaks]
    split
    · rename_i hbreak
      exact (ih _).trans ((afterBreak?_suffix hbreak).trans (skipBlanks_suffix cs))
    · exact skipBlanks_suffix cs

theorem afterEscapedBreak?_suffix (h : afterEscapedBreak? cs = some rest) : rest <:+ cs := by
  obtain ⟨rest', hbreak, rfl⟩ := Option.map_eq_some_iff.1 h
  exact (skipBreaks_suffix _ _).trans ((afterBreak?_suffix hbreak).trans (skipBlanks_suffix cs))

theorem readLongBasic_suffix {fuel : Nat} {text : List Char}
    (h : readLongBasic fuel cs = some (text, rest)) : rest <:+ cs := by
  induction fuel generalizing cs text with
  | zero => cases h
  | succ fuel ih =>
    unfold readLongBasic at h
    split at h
    · cases h
    · rename_i more
      dsimp only at h
      split at h
      · have hclose := closeRun_suffix '"' ('"' :: more)
        rw [Option.some.inj h] at hclose
        exact hclose
      · obtain ⟨text', hread⟩ := exists_of_map h
        exact (ih hread).trans (List.dropWhile_suffix _)
    · split at h
      · rename_i hbreak
        exact (ih h).trans ((afterEscapedBreak?_suffix hbreak).trans (List.suffix_cons _ _))
      · obtain ⟨⟨c, more⟩, hescape, h⟩ := Option.bind_eq_some_iff.1 h
        obtain ⟨text', hread⟩ := exists_of_map h
        exact (ih hread).trans ((readEscape_suffix hescape).trans (List.suffix_cons _ _))
    · split at h
      · rename_i hbreak
        obtain ⟨text', hread⟩ := exists_of_map h
        exact (ih hread).trans (afterBreak?_suffix hbreak)
      · split at h
        · obtain ⟨text', hread⟩ := exists_of_map h
          exact (ih hread).trans (List.suffix_cons _ _)
        · cases h

theorem readLongLiteral_suffix {fuel : Nat} {text : List Char}
    (h : readLongLiteral fuel cs = some (text, rest)) : rest <:+ cs := by
  induction fuel generalizing cs text with
  | zero => cases h
  | succ fuel ih =>
    unfold readLongLiteral at h
    split at h
    · cases h
    · rename_i c more
      split at h
      · dsimp only at h
        split at h
        · have hclose := closeRun_suffix singleQuote (c :: more)
          rw [Option.some.inj h] at hclose
          exact hclose
        · obtain ⟨text', hread⟩ := exists_of_map h
          exact (ih hread).trans (List.dropWhile_suffix _)
      · split at h
        · rename_i hbreak
          obtain ⟨text', hread⟩ := exists_of_map h
          exact (ih hread).trans (afterBreak?_suffix hbreak)
        · split at h
          · obtain ⟨text', hread⟩ := exists_of_map h
            exact (ih hread).trans (List.suffix_cons _ _)
          · cases h

theorem dropFirstBreak_suffix (cs : List Char) : dropFirstBreak cs <:+ cs := by
  unfold dropFirstBreak
  cases hbreak : afterBreak? cs with
  | none => exact List.suffix_rfl
  | some rest => exact afterBreak?_suffix hbreak

theorem readString_suffix {text : List Char} (h : readString cs = some (text, rest)) :
    rest <:+ cs := by
  have hthree (a b c : Char) (more : List Char) : more <:+ a :: b :: c :: more :=
    suffix_of_cons_suffix (suffix_of_cons_suffix (List.suffix_cons _ _))
  unfold readString at h
  split at h
  · exact (readLongBasic_suffix h).trans ((dropFirstBreak_suffix _).trans (hthree _ _ _ _))
  · exact (readBasic_suffix h).trans (List.suffix_cons _ _)
  · split at h
    · exact (readLongLiteral_suffix h).trans ((dropFirstBreak_suffix _).trans (hthree _ _ _ _))
    · split at h
      · exact (readLiteral_suffix h).trans (List.suffix_cons _ _)
      · cases h
  · split at h
    · exact (readLiteral_suffix h).trans (List.suffix_cons _ _)
    · cases h
  · cases h

/-! ## Keys -/

/-- A text on one line that the names of a dotted key may be read from: where it has no escapes,
it holds each of them as it is. -/
structure KeyText (names : List String) (text : List Char) : Prop where
  oneLine : '\n' ∉ text ∧ '\r' ∉ text
  nonempty : text ≠ []
  verbatim : '\\' ∉ text → ∀ name ∈ names, name.toList <:+: text

theorem exists_text_of_readKeyPart {part : String} (h : readKeyPart cs = some (part, rest)) :
    ∃ w, cs = w ++ rest ∧ KeyText [part] w := by
  unfold readKeyPart at h
  split at h
  · cases h
  · obtain ⟨⟨text, rest'⟩, hread, heq⟩ := Option.map_eq_some_iff.1 h
    cases heq
    obtain ⟨w, rfl, hw, htext⟩ := exists_text_of_readBasic hread
    refine ⟨'"' :: w, rfl, by simpa using hw, List.cons_ne_nil _ _, fun hback name hname => ?_⟩
    rw [List.mem_singleton.1 hname, String.toList_ofList]
    exact (htext fun h => hback (.tail _ h)).isInfix.trans (List.suffix_cons _ _).isInfix
  · rename_i c more _
    split at h
    · rename_i hquote
      obtain ⟨⟨text, rest'⟩, hread, heq⟩ := Option.map_eq_some_iff.1 h
      cases heq
      obtain ⟨w, rfl, hw, htext⟩ := exists_text_of_readLiteral hread
      refine ⟨c :: w, rfl, ?_, List.cons_ne_nil _ _, fun _ name hname => ?_⟩
      · have hc : '\n' ≠ c ∧ '\r' ≠ c := by rw [hquote]; decide
        simp [hc, hw]
      · rw [List.mem_singleton.1 hname, String.toList_ofList]
        exact htext.isInfix.trans (List.suffix_cons _ _).isInfix
    · have hbare {d : Char} (hd : d ∈ (c :: more).takeWhile isBareKeyChar) :
          isBareKeyChar d = true :=
        List.all_eq_true.1 List.all_takeWhile d hd
      split at h
      · cases h
      · rename_i hne
        cases h
        refine ⟨_, (List.takeWhile_append_dropWhile (p := isBareKeyChar)).symm, ⟨?_, ?_⟩, hne, ?_⟩
        · exact fun hd => absurd (hbare hd) (by decide)
        · exact fun hd => absurd (hbare hd) (by decide)
        · intro _ name hname
          simp [List.mem_singleton.1 hname]

theorem exists_blanks (cs : List Char) :
    ∃ w, cs = w ++ skipBlanks cs ∧ '\n' ∉ w ∧ '\r' ∉ w := by
  have hblank {c : Char} (hc : c ∈ cs.takeWhile isBlankChar) : isBlankChar c = true :=
    List.all_eq_true.1 List.all_takeWhile c hc
  refine ⟨_, (List.takeWhile_append_dropWhile (p := isBlankChar)).symm, ?_, ?_⟩
  · exact fun hc => absurd (hblank hc) (by decide)
  · exact fun hc => absurd (hblank hc) (by decide)

theorem KeyText.between {names : List String} {before text after : List Char}
    (h : KeyText names text) (hbefore : '\n' ∉ before ∧ '\r' ∉ before)
    (hafter : '\n' ∉ after ∧ '\r' ∉ after) : KeyText names (before ++ (text ++ after)) where
  oneLine := by simp [hbefore, hafter, h.oneLine]
  nonempty := by simp [h.nonempty]
  verbatim hback name hname := by
    simp only [List.mem_append, not_or] at hback
    exact (h.verbatim hback.2.1 name hname).trans ⟨before, after, by simp⟩

theorem KeyText.dot {names : List String} {name : String} {text more : List Char}
    (h : KeyText [name] text) (hmore : KeyText names more) :
    KeyText (name :: names) (text ++ '.' :: more) where
  oneLine := by simp [h.oneLine, hmore.oneLine]
  nonempty := by simp
  verbatim hback part hpart := by
    simp only [List.mem_append, List.mem_cons, not_or] at hback
    rcases List.mem_cons.1 hpart with rfl | hpart
    · exact (h.verbatim hback.1 _ List.mem_cons_self).trans (List.prefix_append _ _).isInfix
    · exact (hmore.verbatim hback.2.2 part hpart).trans ⟨text ++ ['.'], [], by simp⟩

theorem exists_text_of_readKeyParts {fuel : Nat} {parts : List String}
    (h : readKeyParts fuel cs = some (parts, rest)) : ∃ w, cs = w ++ rest ∧ KeyText parts w := by
  induction fuel generalizing cs parts with
  | zero => cases h
  | succ fuel ih =>
    rw [readKeyParts] at h
    obtain ⟨⟨part, more⟩, hpart, h⟩ := Option.bind_eq_some_iff.1 h
    obtain ⟨before, hbefore, hbreaks⟩ := exists_blanks cs
    obtain ⟨w, hw, hkey⟩ := exists_text_of_readKeyPart hpart
    obtain ⟨after, hafter, hbreaks'⟩ := exists_blanks more
    have hkey := hkey.between hbreaks hbreaks'
    dsimp only at h
    split at h
    · rename_i rest' hdot
      obtain ⟨⟨parts', rest''⟩, hread, heq⟩ := Option.map_eq_some_iff.1 h
      cases heq
      obtain ⟨w', rfl, hkey'⟩ := ih hread
      rw [hdot] at hafter
      refine ⟨_, ?_, hkey.dot hkey'⟩
      simp only [List.append_assoc, List.cons_append]
      rw [← hafter, ← hw, ← hbefore]
    · cases h
      refine ⟨_, ?_, hkey⟩
      rw [List.append_assoc, List.append_assoc, ← hafter, ← hw, ← hbefore]

/-- A dotted key stands on one line, and is not empty. -/
theorem exists_text_of_readKey {path : List String} {key : String}
    (h : readKey cs = some (path, key, rest)) :
    ∃ w, cs = w ++ rest ∧ KeyText (path ++ [key]) w := by
  obtain ⟨⟨parts, rest'⟩, hparts, hlast⟩ := Option.bind_eq_some_iff.1 h
  obtain ⟨w, rfl, hkey⟩ := exists_text_of_readKeyParts hparts
  clear h
  dsimp only at hlast
  split at hlast
  · cases hlast
  · split at hlast
    · rename_i last before hrev
      cases hlast
      have hsame : before.reverse ++ [key] = parts := by
        rw [← List.reverse_reverse parts, hrev, List.reverse_cons]
      exact ⟨w, rfl, hsame ▸ hkey⟩
    · cases hlast

theorem readKey_suffix {path : List String} {key : String}
    (h : readKey cs = some (path, key, rest)) : rest <:+ cs := by
  obtain ⟨w, rfl, -⟩ := exists_text_of_readKey h
  exact List.suffix_append _ _

/-! ## Values -/

theorem readWord_suffix (cs : List Char) : (readWord cs).2 <:+ cs := by
  unfold readWord
  dsimp only
  split
  · rename_i a b more _ hrest
    have hword : ' ' :: a :: b :: ':' :: more <:+ cs := hrest ▸ List.dropWhile_suffix _
    split
    · exact (List.dropWhile_suffix _).trans (suffix_of_cons_suffix (suffix_of_cons_suffix
        (suffix_of_cons_suffix (suffix_of_cons_suffix hword))))
    · exact List.dropWhile_suffix _
  · exact List.dropWhile_suffix _

mutual

theorem readValue_suffix {fuel depth : Nat} {cs rest : List Char} {v : Toml}
    (h : readValue fuel depth cs = some (v, rest)) : rest <:+ cs := by
  cases fuel with
  | zero => cases h
  | succ fuel =>
    rw [readValue.eq_def] at h
    dsimp only at h
    split at h
    · cases h
    · rename_i more
      split at h
      · cases h
      · obtain ⟨items, hread⟩ := exists_of_map h
        exact (readItems_suffix hread).trans
          ((skipLines_suffix _ _).trans (List.suffix_cons _ _))
    · rename_i more
      have hblanks := (skipBlanks_suffix more).trans (List.suffix_cons '{' more)
      split at h
      · cases h
      · split at h
        · rename_i hclose
          cases h
          exact suffix_of_cons_suffix (hclose ▸ hblanks)
        · obtain ⟨members, hread⟩ := exists_of_map h
          exact (readPairs_suffix hread).trans hblanks
    · split at h
      · obtain ⟨text, hread⟩ := exists_of_map h
        exact readString_suffix hread
      · obtain ⟨v, -, heq⟩ := Option.map_eq_some_iff.1 h
        cases heq
        exact readWord_suffix _

theorem readItems_suffix {fuel depth : Nat} {cs rest : List Char} {items : List Toml}
    (h : readItems fuel depth cs = some (items, rest)) : rest <:+ cs := by
  cases fuel with
  | zero => cases h
  | succ fuel =>
    rw [readItems.eq_def] at h
    dsimp only at h
    split at h
    · cases h
      exact List.suffix_cons _ _
    · obtain ⟨⟨item, more⟩, hvalue, h⟩ := Option.bind_eq_some_iff.1 h
      have hmore := (skipLines_suffix more.length more).trans (readValue_suffix hvalue)
      dsimp only at h
      split at h
      · rename_i hclose
        cases h
        exact suffix_of_cons_suffix (hclose ▸ hmore)
      · rename_i hcomma
        obtain ⟨items', hread⟩ := exists_of_map h
        exact (readItems_suffix hread).trans
          ((skipLines_suffix _ _).trans (suffix_of_cons_suffix (hcomma ▸ hmore)))
      · cases h

theorem readPairs_suffix {fuel depth : Nat} {cs rest : List Char} {members members' : Members}
    (h : readPairs fuel depth members cs = some (members', rest)) : rest <:+ cs := by
  cases fuel with
  | zero => cases h
  | succ fuel =>
    rw [readPairs] at h
    obtain ⟨⟨path, key, more⟩, hkey, h⟩ := Option.bind_eq_some_iff.1 h
    dsimp only at h
    split at h
    · obtain ⟨⟨v, more'⟩, hvalue, h⟩ := Option.bind_eq_some_iff.1 h
      obtain ⟨members'', -, h⟩ := Option.bind_eq_some_iff.1 h
      have hmore := (skipBlanks_suffix more').trans ((readValue_suffix hvalue).trans
        ((skipBlanks_suffix _).trans (suffix_of_cons_suffix (readKey_suffix hkey))))
      dsimp only at h
      split at h
      · rename_i hclose
        cases h
        exact suffix_of_cons_suffix (hclose ▸ hmore)
      · rename_i hcomma
        exact (readPairs_suffix h).trans (suffix_of_cons_suffix (hcomma ▸ hmore))
      · cases h
    · cases h

end

/-! ## Lines -/

variable {r r' : Reading}

theorem readHeader_suffix (h : readHeader cs r = some (r', rest)) : rest <:+ cs := by
  unfold readHeader at h
  split at h
  · rename_i more
    obtain ⟨⟨path, key, more'⟩, hkey, h⟩ := Option.bind_eq_some_iff.1 h
    dsimp only at h
    split at h
    · obtain ⟨more'', hend, h⟩ := Option.bind_eq_some_iff.1 h
      obtain ⟨r'', -, heq⟩ := Option.map_eq_some_iff.1 h
      cases heq
      exact (endLine?_suffix hend).trans (suffix_of_cons_suffix (suffix_of_cons_suffix
        ((readKey_suffix hkey).trans (suffix_of_cons_suffix (List.suffix_cons _ _)))))
    · cases h
  · rename_i more _
    obtain ⟨⟨path, key, more'⟩, hkey, h⟩ := Option.bind_eq_some_iff.1 h
    dsimp only at h
    split at h
    · obtain ⟨more'', hend, h⟩ := Option.bind_eq_some_iff.1 h
      obtain ⟨r'', -, heq⟩ := Option.map_eq_some_iff.1 h
      cases heq
      exact (endLine?_suffix hend).trans (suffix_of_cons_suffix
        ((readKey_suffix hkey).trans (List.suffix_cons _ _)))
    · cases h
  · cases h

theorem readPair_suffix (h : readPair cs r = some (r', rest)) : rest <:+ cs := by
  obtain ⟨⟨path, key, more⟩, hkey, h⟩ := Option.bind_eq_some_iff.1 h
  dsimp only at h
  split at h
  · rename_i more'
    obtain ⟨⟨v, more''⟩, hvalue, h⟩ := Option.bind_eq_some_iff.1 h
    obtain ⟨rest', hend, h⟩ := Option.bind_eq_some_iff.1 h
    obtain ⟨current, -, heq⟩ := Option.map_eq_some_iff.1 h
    cases heq
    exact (endLine?_suffix hend).trans ((readValue_suffix hvalue).trans
      ((skipBlanks_suffix _).trans (suffix_of_cons_suffix (readKey_suffix hkey))))
  · cases h

end Rollout.Toml
