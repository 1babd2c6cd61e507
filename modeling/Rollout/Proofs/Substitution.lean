import Mathlib.Data.List.Induction
import Mathlib.Data.String.Basic
import Rollout.Proofs.Text.Joined
import Rollout.Proofs.TextMap

/-!
Rendering specified. A text has exactly one cut into pieces in which every piece is the longest token
that starts there, or one character at which no token starts; rendering puts the values of the tokens
in place of the pieces. So it is known from the values of the tokens alone, whatever order they were
bound in, and two texts can be rendered apart unless a token lies across the seam.
-/

namespace Rollout

namespace Substitutions

variable {s : Substitutions} {token value : String}

/-! ## The longest token -/

/-- What is found of the tokens that start a text: none if none does, else a longest one. -/
def IsLongest (bindings : List (String × String)) (text : List Char) :
    Option (List Char × String) → Prop
  | none => ∀ e ∈ bindings, ¬e.1.toList <+: text
  | some (token, value) => (String.ofList token, value) ∈ bindings ∧ token <+: text ∧
    ∀ e ∈ bindings, e.1.toList <+: text → e.1.toList.length ≤ token.length

theorem longestAt_concat (bindings : List (String × String)) (e : String × String)
    (text : List Char) : longestAt (bindings ++ [e]) text =
      if e.1.toList <+: text then
        match longestAt bindings text with
        | some (found, value) =>
          if found.length < e.1.toList.length then some (e.1.toList, e.2) else some (found, value)
        | none => some (e.1.toList, e.2)
      else longestAt bindings text := by
  rw [longestAt, List.foldl_append, ← longestAt, List.foldl_cons, List.foldl_nil]
  exact if_congr (Text.after?_isSome ..) rfl rfl

/-- The tokens are looked through one after the other. -/
theorem isLongest_longestAt (bindings : List (String × String)) (text : List Char) :
    IsLongest bindings text (longestAt bindings text) := by
  induction bindings using List.reverseRecOn with
  | nil => exact fun e he => by cases he
  | append_singleton bindings e ih =>
    rw [longestAt_concat]
    have hlast : (String.ofList e.1.toList, e.2) ∈ bindings ++ [e] := by simp
    have hsplit {x : String × String} (hx : x ∈ bindings ++ [e]) : x ∈ bindings ∨ x = e := by
      simpa using hx
    split
    · rename_i hstarts
      cases hfound : longestAt bindings text with
      | none =>
        rw [hfound] at ih
        refine ⟨hlast, hstarts, fun x hx hprefix => ?_⟩
        rcases hsplit hx with hx | rfl
        · exact absurd hprefix (ih x hx)
        · exact Nat.le_refl _
      | some found =>
        obtain ⟨token, value⟩ := found
        rw [hfound] at ih
        obtain ⟨hmem, hprefix, hmost⟩ := ih
        dsimp only
        split
        · rename_i hlonger
          refine ⟨hlast, hstarts, fun x hx hx' => ?_⟩
          rcases hsplit hx with hx | rfl
          · have := hmost x hx hx'
            omega
          · exact Nat.le_refl _
        · rename_i hshorter
          refine ⟨List.mem_append_left _ hmem, hprefix, fun x hx hx' => ?_⟩
          rcases hsplit hx with hx | rfl
          · exact hmost x hx hx'
          · omega
    · rename_i hstarts
      cases hfound : longestAt bindings text with
      | none =>
        rw [hfound] at ih
        intro x hx
        rcases hsplit hx with hx | rfl
        · exact ih x hx
        · exact hstarts
      | some found =>
        obtain ⟨token, value⟩ := found
        rw [hfound] at ih
        obtain ⟨hmem, hprefix, hmost⟩ := ih
        refine ⟨List.mem_append_left _ hmem, hprefix, fun x hx hx' => ?_⟩
        rcases hsplit hx with hx | rfl
        · exact hmost x hx hx'
        · exact absurd hx' hstarts

/-- The rest of a token is passed over. -/
theorem renderFrom_eq_drop (bindings : List (String × String)) (skip : Nat) (text : List Char) :
    renderFrom bindings skip text = renderFrom bindings 0 (text.drop skip) := by
  induction skip generalizing text with
  | zero => rfl
  | succ skip ih =>
    cases text with
    | nil => rfl
    | cons c cs => rw [renderFrom, ih, List.drop_succ_cons]

/-! ## Bindings -/

theorem ordered_insert (hs : s.bindings.Ordered) (token value : String) :
    (s.insert token value).bindings.Ordered := by
  rw [insert]
  split
  · exact hs
  · exact hs.insert token value

theorem ofList_concat (l : List (String × String)) (e : String × String) :
    ofList (l ++ [e]) = (ofList l).insert e.1 e.2 := by
  rw [ofList, List.foldl_append]
  rfl

theorem bindings_ofList (l : List (String × String)) : (ofList l).bindings.Ordered := by
  induction l using List.reverseRecOn with
  | nil => exact TextMap.Ordered.nil
  | append_singleton l e ih =>
    rw [ofList_concat]
    exact ordered_insert ih e.1 e.2

/-- A token has the value that it was bound to last. -/
theorem get?_ofList (l : List (String × String)) (token : String) :
    (ofList l).get? token = if token = "" then none else l.reverse.lookup token := by
  induction l using List.reverseRecOn with
  | nil => simp [ofList, get?, empty]
  | append_singleton l e ih =>
    rw [ofList_concat, List.reverse_append, List.reverse_singleton, List.singleton_append,
      List.lookup_cons, insert]
    split
    · rename_i hempty
      rw [ih]
      by_cases htoken : token = ""
      · simp [htoken]
      · have hbeq : (token == "") = false := by simpa using htoken
        simp [htoken, hempty, hbeq]
    · rename_i hne
      by_cases heq : token = e.1
      · subst heq
        simp [get?, hne]
      · have hget : get? ⟨TextMap.insert e.1 e.2 (ofList l).bindings, fun x hx => by
            rcases TextMap.mem_insert hx with rfl | hx
            · exact hne
            · exact (ofList l).tokens_ne x hx⟩ token = (ofList l).get? token :=
          TextMap.get?_insert_of_ne (Ne.symm heq) _ _
        have hbeq : (token == e.1) = false := by simpa using heq
        rw [hget, ih, hbeq]

theorem ne_empty_of_get? (h : s.get? token = some value) : token ≠ "" :=
  s.tokens_ne _ (TextMap.mem_of_get? h)

end Substitutions

/-! ## Cutting a text -/

section Cutting

variable {values : String → Option String} {pieces pieces' : List String}
  {a b text token piece piece' rest rest' : String}

/-- A token with a value that a text starts with. -/
def Starts (values : String → Option String) (token text : String) : Prop :=
  values token ≠ none ∧ token.toList <+: text.toList

/-- The first piece of a text and what comes after it. -/
inductive IsPiece (values : String → Option String) : String → String → Prop
  | token (piece rest : String) (hstarts : Starts values piece (piece ++ rest))
      (hlongest : ∀ token, Starts values token (piece ++ rest) → token.length ≤ piece.length) :
      IsPiece values piece rest
  | char (c : Char) (rest : String)
      (hnone : ∀ token, ¬Starts values token (String.singleton c ++ rest)) :
      IsPiece values (String.singleton c) rest

/-- A text cut into pieces. -/
inductive Segments (values : String → Option String) : List String → String → Prop
  | nil : Segments values [] ""
  | cons (piece rest : String) (pieces : List String) (hpiece : IsPiece values piece rest)
      (hrest : Segments values pieces rest) : Segments values (piece :: pieces) (piece ++ rest)

/-- What is put in place of a piece. -/
def valueOf (values : String → Option String) (piece : String) : String :=
  (values piece).getD piece

/-- A token with a value lies across the seam of two texts. -/
def Crosses (values : String → Option String) (a b : String) : Prop :=
  ∃ before token after, values token ≠ none ∧ a ++ b = before ++ token ++ after ∧
    before.length < a.length ∧ a.length < before.length + token.length

theorem eq_of_prefix {text : List Char} (ha : a.toList <+: text) (hb : b.toList <+: text)
    (hlength : a.length = b.length) : a = b := by
  have hfits := List.prefix_of_prefix_length_le ha hb
    (by rw [String.length_toList, String.length_toList, hlength])
  exact String.toList_inj.1 (hfits.eq_of_length
    (by rw [String.length_toList, String.length_toList, hlength]))

theorem prefix_append (a b : String) : a.toList <+: (a ++ b).toList := by
  rw [String.toList_append]
  exact List.prefix_append _ _

/-- There is one first piece. -/
theorem IsPiece.unique (h : IsPiece values piece rest) (h' : IsPiece values piece' rest')
    (heq : piece ++ rest = piece' ++ rest') : piece = piece' ∧ rest = rest' := by
  have hpiece : piece = piece' := by
    cases h with
    | token _ _ hstarts hlongest =>
      cases h' with
      | token _ _ hstarts' hlongest' =>
        refine eq_of_prefix hstarts.2 (heq ▸ hstarts'.2) (Nat.le_antisymm ?_ ?_)
        · exact hlongest' piece (heq ▸ hstarts)
        · exact hlongest piece' (heq ▸ hstarts')
      | char c _ hnone => exact absurd (heq ▸ hstarts) (hnone piece)
    | char c _ hnone =>
      cases h' with
      | token _ _ hstarts' _ => exact absurd (heq ▸ hstarts') (hnone piece')
      | char c' _ _ =>
        exact eq_of_prefix (prefix_append _ rest) (heq ▸ prefix_append _ rest') (by simp)
  subst hpiece
  exact ⟨rfl, String.append_right_inj _ |>.1 heq⟩

theorem Segments.join (h : Segments values pieces text) : String.join pieces = text := by
  induction h with
  | nil => rfl
  | cons piece rest pieces _ _ ih => rw [String.join_cons, ih]

variable (hempty : values "" = none)

include hempty in
theorem IsPiece.ne_empty (h : IsPiece values piece rest) : piece ≠ "" := by
  cases h with
  | token _ _ hstarts _ =>
    rintro rfl
    exact hstarts.1 hempty
  | char c _ _ => simp [← String.toList_inj]

include hempty in
theorem Segments.unique (h : Segments values pieces text) (h' : Segments values pieces' text) :
    pieces = pieces' := by
  induction h generalizing pieces' with
  | nil =>
    generalize htext : "" = text at h'
    cases h' with
    | nil => rfl
    | cons piece' rest' _ hpiece' _ =>
      exact absurd (String.append_eq_empty_iff.1 htext.symm).1 (hpiece'.ne_empty hempty)
  | cons piece rest pieces hpiece _ ih =>
    generalize htext : piece ++ rest = text at h'
    cases h' with
    | nil => exact absurd (String.append_eq_empty_iff.1 htext).1 (hpiece.ne_empty hempty)
    | cons piece' rest' pieces' hpiece' hrest' =>
      obtain ⟨rfl, rfl⟩ := hpiece.unique hpiece' htext
      rw [ih hrest']

/-! A text that no token leaves is cut as if it stood alone. -/

theorem Starts.within (h : Starts values token (a ++ b)) (hcross : ¬Crosses values a b)
    (ha : a ≠ "") : Starts values token a := by
  obtain ⟨hvalue, after, hafter⟩ := h
  have hlength : token.length ≤ a.length := by
    by_contra hlonger
    refine hcross ⟨"", token, String.ofList after, hvalue, ?_, ?_, by simp; omega⟩
    · rw [← String.toList_inj, ← hafter]
      simp
    · rw [String.length_empty, Nat.pos_iff_ne_zero, ← String.length_toList]
      exact fun h => ha (String.toList_eq_nil_iff.1 (List.length_eq_zero_iff.1 h))
  refine ⟨hvalue, List.prefix_of_prefix_length_le ⟨after, hafter⟩ (prefix_append a b) ?_⟩
  rwa [String.length_toList, String.length_toList]

theorem Crosses.after (h : Crosses values rest b) (piece : String) :
    Crosses values (piece ++ rest) b := by
  obtain ⟨before, token, after, hvalue, heq, hbefore, hafter⟩ := h
  refine ⟨piece ++ before, token, after, hvalue, ?_, ?_, ?_⟩
  · simp only [String.append_assoc, heq]
  · simp only [String.length_append]
    omega
  · simp only [String.length_append]
    omega

include hempty in
theorem IsPiece.extend (h : IsPiece values piece rest) (hcross : ¬Crosses values (piece ++ rest) b) :
    IsPiece values piece (rest ++ b) := by
  have hne : piece ++ rest ≠ "" := fun heq =>
    h.ne_empty hempty (String.append_eq_empty_iff.1 heq).1
  cases h with
  | token _ _ hstarts hlongest =>
    refine .token _ _ ⟨hstarts.1, prefix_append _ _⟩ fun token htoken => ?_
    rw [← String.append_assoc] at htoken
    exact hlongest token (htoken.within hcross hne)
  | char c _ hnone =>
    refine .char _ _ fun token htoken => ?_
    rw [← String.append_assoc] at htoken
    exact hnone token (htoken.within hcross hne)

end Cutting

namespace Substitutions

variable {s : Substitutions} {pieces : List String} {text token value piece rest : String}

/-! ## Rendering piece by piece -/

theorem mem_bindings (hs : s.bindings.Ordered) (token value : String) :
    (token, value) ∈ s.bindings ↔ s.get? token = some value :=
  ⟨TextMap.get?_of_mem hs, TextMap.mem_of_get?⟩

theorem get?_empty (s : Substitutions) : s.get? "" = none := by
  cases h : s.get? "" with
  | none => rfl
  | some value => exact absurd rfl (ne_empty_of_get? h)

/-- The step of the scan: either a longest token is found, or none starts here. -/
theorem longestAt_eq (hs : s.bindings.Ordered) (h : IsPiece s.get? piece rest) :
    longestAt s.bindings (piece ++ rest).toList = (s.get? piece).map (piece.toList, ·) := by
  have hfound := isLongest_longestAt s.bindings (piece ++ rest).toList
  cases hlongest : longestAt s.bindings (piece ++ rest).toList with
  | none =>
    rw [hlongest] at hfound
    have hnone : s.get? piece = none := by
      cases hvalue : s.get? piece with
      | none => rfl
      | some value =>
        exact absurd (prefix_append piece rest) (hfound _ ((mem_bindings hs piece value).2 hvalue))
    rw [hnone]
    rfl
  | some found =>
    obtain ⟨token, value⟩ := found
    rw [hlongest] at hfound
    obtain ⟨hmem, hprefix, hmost⟩ := hfound
    have hvalue := (mem_bindings hs _ _).1 hmem
    have hstarts : Starts s.get? (String.ofList token) (piece ++ rest) :=
      ⟨by rw [hvalue]; exact Option.some_ne_none _, by rwa [String.toList_ofList]⟩
    cases h with
    | token _ _ hpiece hall =>
      obtain ⟨value', hvalue'⟩ := Option.ne_none_iff_exists'.1 hpiece.1
      have hle := hmost _ ((mem_bindings hs piece value').2 hvalue') hpiece.2
      have hge := hall _ hstarts
      have heq : String.ofList token = piece := by
        refine eq_of_prefix hstarts.2 hpiece.2 ?_
        change piece.toList.length ≤ token.length at hle
        rw [String.length_toList] at hle
        rw [String.length_ofList] at hge ⊢
        omega
      rw [← heq, hvalue, String.toList_ofList]
      rfl
    | char c _ hnone => exact absurd hstarts (hnone _)

theorem render_piece (hs : s.bindings.Ordered) (h : IsPiece s.get? piece rest) :
    s.render (piece ++ rest) = valueOf s.get? piece ++ s.render rest := by
  obtain ⟨c, cs, hcs⟩ := List.exists_cons_of_ne_nil
    (fun hnil => h.ne_empty s.get?_empty (String.toList_eq_nil_iff.1 hnil))
  have htext : (piece ++ rest).toList = c :: (cs ++ rest.toList) := by
    rw [String.toList_append, hcs, List.cons_append]
  have hstep := longestAt_eq hs h
  rw [htext] at hstep
  rw [render, htext, renderFrom, hstep, valueOf]
  cases hvalue : s.get? piece with
  | none =>
    have hsingle : piece = String.singleton c := by
      cases h with
      | token _ _ hstarts _ => exact absurd hvalue hstarts.1
      | char c' _ _ =>
        rw [String.toList_singleton] at hcs
        cases hcs
        rfl
    subst hsingle
    rw [String.toList_singleton] at hcs
    cases hcs
    rw [← String.toList_inj]
    simp [render]
  | some value =>
    rw [← String.toList_inj]
    simp [render, renderFrom_eq_drop, hcs]

@[simp]
theorem render_empty (s : Substitutions) : s.render "" = "" := rfl

theorem exists_piece (hs : s.bindings.Ordered) (htext : text ≠ "") :
    ∃ piece rest, text = piece ++ rest ∧ IsPiece s.get? piece rest := by
  have hfound := isLongest_longestAt s.bindings text.toList
  cases hlongest : longestAt s.bindings text.toList with
  | none =>
    rw [hlongest] at hfound
    obtain ⟨c, cs, hcs⟩ := List.exists_cons_of_ne_nil
      (fun hnil => htext (String.toList_eq_nil_iff.1 hnil))
    have heq : text = String.singleton c ++ String.ofList cs := by
      rw [← String.toList_inj, hcs]
      simp
    refine ⟨_, _, heq, .char c _ fun token htoken => ?_⟩
    obtain ⟨value, hvalue⟩ := Option.ne_none_iff_exists'.1 htoken.1
    exact hfound _ ((mem_bindings hs token value).2 hvalue) (heq ▸ htoken.2)
  | some found =>
    obtain ⟨token, value⟩ := found
    rw [hlongest] at hfound
    obtain ⟨hmem, ⟨after, hafter⟩, hmost⟩ := hfound
    have heq : text = String.ofList token ++ String.ofList after := by
      rw [← String.toList_inj, ← hafter]
      simp
    refine ⟨_, _, heq, .token _ _ ⟨?_, prefix_append _ _⟩ fun other hother => ?_⟩
    · rw [(mem_bindings hs _ _).1 hmem]
      exact Option.some_ne_none _
    · obtain ⟨value', hvalue'⟩ := Option.ne_none_iff_exists'.1 hother.1
      have hle := hmost _ ((mem_bindings hs other value').2 hvalue') (heq ▸ hother.2)
      rwa [String.length_toList, ← String.length_ofList] at hle

/-- Every text can be cut; the induction is on its length, as no piece is empty. -/
theorem exists_segments (hs : s.bindings.Ordered) (text : String) :
    ∃ pieces, Segments s.get? pieces text := by
  induction hn : text.length using Nat.strong_induction_on generalizing text with
  | _ n ih =>
    by_cases htext : text = ""
    · exact ⟨[], htext ▸ .nil⟩
    · obtain ⟨piece, rest, rfl, hpiece⟩ := exists_piece hs htext
      have hpos : piece.length ≠ 0 := by
        rw [← String.length_toList]
        exact fun h => hpiece.ne_empty s.get?_empty
          (String.toList_eq_nil_iff.1 (List.length_eq_zero_iff.1 h))
      rw [String.length_append] at hn
      obtain ⟨pieces, hrest⟩ := ih rest.length (by omega) rest rfl
      exact ⟨piece :: pieces, .cons _ _ _ hpiece hrest⟩

/-- What a text becomes in front of another, if no token lies across the seam. -/
theorem render_append_of_segments (hs : s.bindings.Ordered) (h : Segments s.get? pieces text)
    {after : String} (hcross : ¬Crosses s.get? text after) :
    s.render (text ++ after) =
      String.join (pieces.map (valueOf s.get?)) ++ s.render after := by
  induction h with
  | nil => simp
  | cons piece rest pieces hpiece _ ih =>
    have hpiece' := hpiece.extend s.get?_empty hcross
    rw [String.append_assoc, render_piece hs hpiece', ih fun h => hcross (h.after piece),
      List.map_cons, String.join_cons, String.append_assoc]

theorem not_crosses_empty (values : String → Option String) (a : String) :
    ¬Crosses values a "" := by
  rintro ⟨before, token, after, _, heq, _, hlonger⟩
  have := congrArg String.length heq
  simp only [String.length_append, String.length_empty] at this
  omega

theorem render_of_segments (hs : s.bindings.Ordered) (h : Segments s.get? pieces text) :
    s.render text = String.join (pieces.map (valueOf s.get?)) := by
  have := render_append_of_segments hs h (not_crosses_empty _ _)
  simpa using this

end Substitutions

/-! ## What rendering is -/

/-- Putting values for tokens in one pass from left to right, the longest token first. -/
structure LeftmostLongest (values : String → Option String) (render : String → String) : Prop where
  empty : render "" = ""
  token : ∀ token value, values token = some value → render token = value
  char : ∀ c, values (String.singleton c) = none →
    render (String.singleton c) = String.singleton c
  append : ∀ a b, ¬Crosses values a b → render (a ++ b) = render a ++ render b
  segments : ∀ text, ∃ pieces, Segments values pieces text ∧ String.join pieces = text ∧
    (∀ pieces', Segments values pieces' text → pieces' = pieces) ∧
    render text = String.join (pieces.map (valueOf values))

namespace Substitutions

variable {s : Substitutions} {token value : String}

theorem render_token (hs : s.bindings.Ordered) (h : s.get? token = some value) :
    s.render token = value := by
  have hpiece : IsPiece s.get? token "" := by
    refine .token _ _ ⟨by rw [h]; exact Option.some_ne_none _, prefix_append _ _⟩ ?_
    intro other hother
    have := hother.2.length_le
    rwa [String.append_empty, String.length_toList, String.length_toList] at this
  rw [← String.append_empty (s := token), render_piece hs hpiece, valueOf, h]
  simp

theorem render_char (hs : s.bindings.Ordered) {c : Char} (h : s.get? (String.singleton c) = none) :
    s.render (String.singleton c) = String.singleton c := by
  have hpiece : IsPiece s.get? (String.singleton c) "" := by
    refine .char c "" fun token htoken => ?_
    obtain ⟨hvalue, hprefix⟩ := htoken
    rw [String.append_empty, String.toList_singleton, List.prefix_cons_iff] at hprefix
    rcases hprefix with hnil | ⟨cs, hsingle, hcs⟩
    · exact hvalue (String.toList_eq_nil_iff.1 hnil ▸ s.get?_empty)
    · rw [List.prefix_nil.1 hcs, ← String.toList_singleton, String.toList_inj] at hsingle
      exact hvalue (hsingle ▸ h)
  rw [← String.append_empty (s := String.singleton c), render_piece hs hpiece, valueOf, h]
  simp

theorem render_append (hs : s.bindings.Ordered) {a b : String} (h : ¬Crosses s.get? a b) :
    s.render (a ++ b) = s.render a ++ s.render b := by
  obtain ⟨pieces, hpieces⟩ := exists_segments hs a
  rw [render_append_of_segments hs hpieces h, render_of_segments hs hpieces]

/-- The value a token was bound to last, in a list of bindings. -/
def lastBound (l : List (String × String)) (token : String) : Option String :=
  if token = "" then none else l.reverse.lookup token

/-- Substitutions replace the tokens bound by a list in one pass, the longest first; of the list they
know nothing but the last value of each token. -/
theorem leftmostLongest_ofList (l : List (String × String)) :
    LeftmostLongest (lastBound l) (ofList l).render ∧
      ∀ l', (∀ token, token ≠ "" → l'.reverse.lookup token = l.reverse.lookup token) →
        ∀ text, (ofList l').render text = (ofList l).render text := by
  have hget (l : List (String × String)) : (ofList l).get? = lastBound l :=
    funext (get?_ofList l)
  have hs := bindings_ofList l
  constructor
  · rw [← hget]
    refine ⟨render_empty _, fun _ _ => render_token hs, fun _ => render_char hs,
      fun _ _ => render_append hs, fun text => ?_⟩
    obtain ⟨pieces, hpieces⟩ := exists_segments hs text
    exact ⟨pieces, hpieces, hpieces.join,
      fun _ h => h.unique (get?_empty _) hpieces, render_of_segments hs hpieces⟩
  · intro l' hl' text
    have heq : (ofList l').get? = (ofList l).get? := by
      rw [hget, hget]
      funext token
      rw [lastBound, lastBound]
      split
      · rfl
      · rename_i hne
        exact hl' token hne
    obtain ⟨pieces, hpieces⟩ := exists_segments hs text
    rw [render_of_segments hs hpieces,
      render_of_segments (bindings_ofList l') (heq ▸ hpieces), heq]

example : (ofList [("ab", "1"), ("", "2"), ("a", "ab"), ("ab", "a")]).render "aab" = "aba" := by
  decide +kernel

end Substitutions

end Rollout
