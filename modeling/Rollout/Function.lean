import Rollout.Digest.Sha256
import Rollout.Text.Split

/-!
What identifies the code of a function: the version it was uploaded as, which is also the key
of its artifact in the deployment bucket, and the fingerprint of its compiled files.
-/

namespace Rollout

/-- A version of a function, and the key of its artifact. -/
structure FunctionVersion where
  key : String
deriving DecidableEq, Repr

/-- The version that a compilation gives to the functions in an artifact. -/
def FunctionVersion.mint (timestamp artifact : String) : FunctionVersion :=
  ⟨timestamp ++ "/" ++ artifact⟩

/-- What every fingerprint starts with. -/
def hashScheme : String := "sha256:"

/-- The fingerprint of compiled files. -/
structure ContentHash where
  text : String
  schemed : Text.startsWith hashScheme text = true
deriving DecidableEq

theorem Text.startsWith_append (start rest : String) : Text.startsWith start (start ++ rest) = true := by
  have h (a b : List Char) : Text.after? a (a ++ b) = some b := by
    induction a with
    | nil => rfl
    | cons c a ih => simp [Text.after?, ih]
  simp [Text.startsWith, h]

namespace ContentHash

/-- The fingerprint written as a text, with or without its scheme. -/
def ofText (raw : String) : ContentHash :=
  if h : Text.startsWith hashScheme raw = true then ⟨raw, h⟩
  else ⟨hashScheme ++ raw, Text.startsWith_append _ _⟩

/-- The fingerprint of bytes. -/
def ofBytes (bytes : List UInt8) : ContentHash :=
  ⟨hashScheme ++ Digest.sha256 bytes, Text.startsWith_append _ _⟩

/-- The part of a fingerprint after its scheme. -/
def hex (h : ContentHash) : String :=
  match Text.after? hashScheme.toList h.text.toList with
  | some rest => String.ofList rest
  | none => h.text

theorem ofText_text (h : ContentHash) : ofText h.text = h := by
  simp [ofText, h.schemed]

end ContentHash

end Rollout
