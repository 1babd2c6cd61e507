import Rollout.TextMap
import Rollout.Text.Split

/-!
Substituting values for tokens in a text. The text is read once from left to right; where a
token starts, the longest one there is replaced, and the value is not read again.
-/

namespace Rollout

/-- Values for tokens. No token is empty. -/
structure Substitutions where
  bindings : TextMap String
  tokens_ne : ∀ e ∈ bindings, e.1 ≠ ""

theorem TextMap.mem_insert {α : Type} {k : String} {v : α} {m : TextMap α} {e : String × α}
    (h : e ∈ TextMap.insert k v m) : e = (k, v) ∨ e ∈ m := by
  induction m with
  | nil => simpa [TextMap.insert] using h
  | cons a m ih =>
    simp only [TextMap.insert] at h
    split at h
    · rcases List.mem_cons.1 h with h | h
      · exact .inl h
      · exact .inr (List.mem_cons_of_mem _ h)
    · split at h
      · rcases List.mem_cons.1 h with h | h
        · exact .inl h
        · exact .inr h
      · rcases List.mem_cons.1 h with h | h
        · exact .inr (List.mem_cons.2 (.inl h))
        · rcases ih h with h | h
          · exact .inl h
          · exact .inr (List.mem_cons_of_mem _ h)

namespace Substitutions

/-- No bindings. -/
def empty : Substitutions := ⟨[], by simp⟩

instance : Inhabited Substitutions := ⟨empty⟩

/-- Binds a token, in place of its old value; an empty token is passed over. -/
def insert (s : Substitutions) (token value : String) : Substitutions :=
  if h : token = "" then s
  else
    ⟨TextMap.insert token value s.bindings, fun e he => by
      rcases TextMap.mem_insert he with rfl | he
      · exact h
      · exact s.tokens_ne e he⟩

/-- The bindings of a list, made in order. -/
def ofList (l : List (String × String)) : Substitutions :=
  l.foldl (fun s e => s.insert e.1 e.2) empty

/-- The value of a token. -/
def get? (s : Substitutions) (token : String) : Option String :=
  TextMap.get? token s.bindings

/-- The longest bound token that a text starts with, and its value. -/
def longestAt (bindings : List (String × String)) (text : List Char) : Option (List Char × String) :=
  bindings.foldl (fun best e =>
    let token := e.1.toList
    if (Text.after? token text).isSome then
      match best with
      | some (found, value) => if found.length < token.length then some (token, e.2) else some (found, value)
      | none => some (token, e.2)
    else best) none

/-- A text with its tokens replaced, after the rest of a token that was replaced just now. -/
def renderFrom (bindings : List (String × String)) : Nat → List Char → List Char
  | _, [] => []
  | skip + 1, _ :: cs => renderFrom bindings skip cs
  | 0, c :: cs =>
    match longestAt bindings (c :: cs) with
    | some (token, value) => value.toList ++ renderFrom bindings (token.length - 1) cs
    | none => c :: renderFrom bindings 0 cs

/-- A text with its tokens replaced. -/
def render (s : Substitutions) (text : String) : String :=
  String.ofList (renderFrom s.bindings 0 text.toList)

end Substitutions

end Rollout
