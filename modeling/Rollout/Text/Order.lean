/-!
The order of texts by the code points of their characters, which is also the order of their
UTF-8 bytes.
-/

namespace Rollout.Text

/-- Whether `a` comes strictly before `b`, character by character. -/
def precedesList : List Char → List Char → Bool
  | [], [] => false
  | [], _ :: _ => true
  | _ :: _, [] => false
  | a :: as, b :: bs =>
    if a.toNat < b.toNat then true
    else if b.toNat < a.toNat then false
    else precedesList as bs

/-- Whether one text comes strictly before another. -/
def precedes (a b : String) : Bool :=
  precedesList a.toList b.toList

theorem precedesList_irrefl (a : List Char) : precedesList a a = false := by
  induction a with
  | nil => rfl
  | cons c cs ih => simp [precedesList, ih]

theorem precedesList_trans {a b c : List Char} (hab : precedesList a b = true)
    (hbc : precedesList b c = true) : precedesList a c = true := by
  induction a generalizing b c with
  | nil => cases b <;> cases c <;> simp_all [precedesList]
  | cons x a ih =>
    cases b with
    | nil => simp [precedesList] at hab
    | cons y b =>
      cases c with
      | nil => simp [precedesList] at hbc
      | cons z c =>
        simp only [precedesList] at hab hbc ⊢
        grind

theorem eq_of_not_precedesList {a b : List Char} (hab : precedesList a b = false)
    (hba : precedesList b a = false) : a = b := by
  induction a generalizing b with
  | nil => cases b <;> simp_all [precedesList]
  | cons x a ih =>
    cases b with
    | nil => simp [precedesList] at hba
    | cons y b =>
      simp only [precedesList] at hab hba
      have hxy : x.toNat = y.toNat := by grind
      have hx : x = y := by
        have := congrArg Char.ofNat hxy
        rwa [Char.ofNat_toNat, Char.ofNat_toNat] at this
      subst hx
      simp only [Nat.lt_irrefl, if_false] at hab hba
      rw [ih hab hba]

theorem precedes_irrefl (a : String) : precedes a a = false := precedesList_irrefl _

theorem precedes_trans {a b c : String} (hab : precedes a b = true) (hbc : precedes b c = true) :
    precedes a c = true := precedesList_trans hab hbc

theorem eq_of_not_precedes {a b : String} (hab : precedes a b = false)
    (hba : precedes b a = false) : a = b :=
  String.toList_inj.1 (eq_of_not_precedesList hab hba)

/-- Whether one list of texts comes strictly before another, text by text. -/
def precedesTexts : List String → List String → Bool
  | [], [] => false
  | [], _ :: _ => true
  | _ :: _, [] => false
  | a :: as, b :: bs => if a = b then precedesTexts as bs else precedes a b

/-- Inserts a value into an ordered list, after the values that do not come after it. -/
def insertWith {α : Type} (before : α → α → Bool) (a : α) : List α → List α
  | [] => [a]
  | b :: bs => if before a b then a :: b :: bs else b :: insertWith before a bs

/-- The values of a list in order; values of equal rank keep their order. -/
def sortWith {α : Type} (before : α → α → Bool) (l : List α) : List α :=
  l.foldl (fun sorted a => insertWith before a sorted) []

/-- The texts of a list in order, each once. -/
def sortDistinct (texts : List String) : List String :=
  texts.foldl (fun sorted a => if sorted.contains a then sorted else insertWith precedes a sorted) []

end Rollout.Text
