import Mathlib.Data.List.Basic

/-!
Listings that come in pages. A listing is asked for a page by a token, and the page says by which
token it goes on, if it does. If every token stands for what is left of one list, then going from
page to page ends, and the pages are the list, cut into pieces.
-/

namespace Rollout

variable {α τ ε : Type} {fetch : Option τ → Except ε (List α × Option τ)} {token : Option τ}
  {size : Nat} {whole rest : List α} {pages pages' : List (List α)}

/-- The pages of a listing from a token on: each but the last says where the next one is, and the
last that there is none. -/
inductive Pages (fetch : Option τ → Except ε (List α × Option τ)) :
    Option τ → List (List α) → Prop where
  | last {token : Option τ} {items : List α} :
    fetch token = .ok (items, none) → Pages fetch token [items]
  | more {token : Option τ} {items : List α} {next : τ} {pages : List (List α)} :
    fetch token = .ok (items, some next) → Pages fetch (some next) pages →
      Pages fetch token (items :: pages)

/-- A listing goes one way. -/
theorem Pages.unique (h : Pages fetch token pages) (h' : Pages fetch token pages') :
    pages = pages' := by
  induction h generalizing pages' with
  | last hlast =>
    cases h' with
    | last hlast' =>
      rw [hlast] at hlast'
      cases hlast'
      rfl
    | more hmore' _ =>
      rw [hlast] at hmore'
      cases hmore'
  | more hmore _ ih =>
    cases h' with
    | last hlast' =>
      rw [hmore] at hlast'
      cases hlast'
    | more hmore' hrest' =>
      rw [hmore] at hmore'
      cases hmore'
      rw [ih hrest']

/-- The pages of a listing are a list cut into pieces: they come to an end, none is longer than a
page, and all but the last are as long as one. -/
structure InPages (size : Nat) (whole : List α) (pages : List (List α)) : Prop where
  flatten : pages.flatten = whole
  short : ∀ page ∈ pages, page.length ≤ size
  full : ∀ page ∈ pages.dropLast, page.length = size

/-- Each token stands for what is left of a list: by it the listing gives the first of that, and, if
there is more, a token for the rest. -/
def TokensStand (size : Nat) (fetch : Option τ → Except ε (List α × Option τ))
    (stands : Option τ → List α → Prop) : Prop :=
  ∀ token rest, stands token rest →
    (rest.length ≤ size ∧ fetch token = .ok (rest, none)) ∨
    (size < rest.length ∧ ∃ next, fetch token = .ok (rest.take size, some next) ∧
      stands (some next) (rest.drop size))

theorem TokensStand.exists_pages {stands : Option τ → List α → Prop} (hsize : 0 < size)
    (h : TokensStand size fetch stands) {token : Option τ} {rest : List α}
    (hstands : stands token rest) :
    ∃ pages, Pages fetch token pages ∧ InPages size rest pages := by
  induction hn : rest.length using Nat.strongRecOn generalizing token rest with
  | ind n ih =>
    rcases h token rest hstands with ⟨hlast, hfetch⟩ | ⟨hmore, next, hfetch, hnext⟩
    · exact ⟨[rest], .last hfetch, by simp, by simpa using hlast, by simp⟩
    · obtain ⟨pages, hpages, hin⟩ := ih (rest.drop size).length
        (by rw [List.length_drop]; omega) hnext rfl
      have hne : pages ≠ [] := by
        rintro rfl
        cases hpages
      have hfull : (rest.take size).length = size := by
        rw [List.length_take]
        omega
      refine ⟨rest.take size :: pages, .more hfetch hpages, ?_, ?_, ?_⟩
      · rw [List.flatten_cons, hin.flatten, List.take_append_drop]
      · exact List.forall_mem_cons.2 ⟨Nat.le_of_eq hfull, hin.short⟩
      · rw [List.dropLast_cons_of_ne_nil hne]
        exact List.forall_mem_cons.2 ⟨hfull, hin.full⟩

/-- There are no more pages than entries, except for the one page without any. -/
theorem InPages.length_le (hsize : 0 < size) (h : InPages size whole pages) :
    pages.length ≤ whole.length + 1 := by
  rw [← h.flatten]
  have hfull := h.full
  clear h
  induction pages with
  | nil => exact Nat.zero_le _
  | cons page pages ih =>
    cases pages with
    | nil => simp
    | cons page' pages =>
      rw [List.dropLast_cons_of_ne_nil (List.cons_ne_nil _ _), List.forall_mem_cons] at hfull
      have hrest := ih hfull.2
      rw [List.flatten_cons, List.length_append, hfull.1, List.length_cons]
      omega

/-! ## Tokens by value -/

section Sorted

variable {position : α → τ} {after : τ → α → Bool}

/-- What comes after an entry of a list in order is what is left behind it. -/
theorem filter_after (hsym : ∀ a b, after (position a) b = true → after (position b) a = false)
    {start : List α} {a : α}
    (hordered : (start ++ a :: rest).Pairwise fun a b => after (position a) b = true) :
    (start ++ a :: rest).filter (after (position a)) = rest := by
  rw [List.pairwise_append, List.pairwise_cons] at hordered
  obtain ⟨-, ⟨hrest, -⟩, hstart⟩ := hordered
  have hself : after (position a) a = false := by
    by_contra h
    rw [Bool.not_eq_false] at h
    exact absurd h (by rw [hsym a a h]; simp)
  have hbefore : start.filter (after (position a)) = [] :=
    List.filter_eq_nil_iff.2 fun b hb => by
      rw [hsym b a (hstart b hb a List.mem_cons_self)]
      exact Bool.false_ne_true
  rw [List.filter_append, hbefore, List.filter_cons_of_neg (by simp [hself]),
    List.filter_eq_self.2 hrest, List.nil_append]

/-- The entries of a list after a position, as many as fit on a page. -/
def pageAfter (size : Nat) (position : α → τ) (after : τ → α → Bool) (whole : List α)
    (token : Option τ) : List α × Option τ :=
  let rest := whole.filter fun a => token.all fun p => after p a
  (rest.take size, if size < rest.length then (rest.take size).getLast?.map position else none)

/-- They are the pages of the list if that is in the order of its positions. -/
theorem exists_pages_of_after (hsize : 0 < size)
    (hfetch : ∀ token, fetch token = .ok (pageAfter size position after whole token))
    (hsym : ∀ a b, after (position a) b = true → after (position b) a = false)
    (hordered : whole.Pairwise fun a b => after (position a) b = true) :
    ∃ pages, Pages fetch none pages ∧ InPages size whole pages := by
  let left (token : Option τ) : List α := whole.filter fun a => token.all fun p => after p a
  have hnone : left none = whole := List.filter_eq_self.2 fun _ _ => rfl
  suffices h : TokensStand size fetch fun token rest => left token = rest ∧ rest <:+ whole from
    h.exists_pages hsize ⟨hnone, List.suffix_rfl⟩
  rintro token rest ⟨hleft, start, hstart⟩
  have hfetch := hfetch token
  change fetch token = .ok ((left token).take size,
    if size < (left token).length then ((left token).take size).getLast?.map position
    else none) at hfetch
  by_cases hmore : size < rest.length
  · refine .inr ⟨hmore, ?_⟩
    obtain ⟨init, a, ha⟩ : ∃ init a, rest.take size = init ++ [a] := by
      refine ((List.eq_nil_or_concat (rest.take size)).resolve_left fun hnil => ?_).imp
        fun _ h => h.imp fun _ h => h.trans List.concat_eq_append
      have := congrArg List.length hnil
      simp only [List.length_take, List.length_nil] at this
      omega
    have hwhole : whole = (start ++ init) ++ a :: rest.drop size := by
      calc whole = start ++ (rest.take size ++ rest.drop size) := by
            rw [List.take_append_drop, hstart]
        _ = (start ++ init) ++ a :: rest.drop size := by rw [ha]; simp
    refine ⟨position a, ?_, ?_, start ++ init ++ [a], ?_⟩
    · rw [hfetch, hleft, if_pos hmore, ha, List.getLast?_append_of_ne_nil _ (by simp)]
      rfl
    · show whole.filter (after (position a)) = rest.drop size
      rw [hwhole] at hordered ⊢
      exact filter_after hsym hordered
    · rw [hwhole]
      simp
  · refine .inl ⟨Nat.not_lt.1 hmore, ?_⟩
    rw [hfetch, hleft, if_neg hmore, List.take_of_length_le (Nat.not_lt.1 hmore)]

end Sorted

end Rollout
