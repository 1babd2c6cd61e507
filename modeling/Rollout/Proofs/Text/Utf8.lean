import Rollout.Text.Utf8

/-!
Bytes and texts: a text is read back from its bytes, also by a reader that takes any bytes.
-/

namespace Rollout.Text

theorem fromUTF8?_toUTF8 (s : String) : String.fromUTF8? s.toUTF8 = some s := by
  unfold String.fromUTF8?
  split
  · rfl
  · rename_i h
    exact absurd s.isValidUTF8 h

/-! ## The reader of any bytes -/

/-- A byte that goes on a sequence. -/
theorem decodeFrom_inside {missing bits low high x : Nat} (hx : x < 64) (hlow : low ≤ x + 0x80)
    (hhigh : x + 0x80 ≤ high) (bs : List UInt8) :
    decodeFrom (.inside missing bits low high) (UInt8.ofNat (x + 0x80) :: bs) =
      if missing ≤ 1 then Char.ofNat (bits * 64 + x) :: decodeFrom .start bs
      else decodeFrom (.inside (missing - 1) (bits * 64 + x) 0x80 0xBF) bs := by
  have hbyte : (UInt8.ofNat (x + 0x80)).toNat = x + 0x80 :=
    UInt8.toNat_ofNat_of_lt' (show _ < 256 by omega)
  rw [decodeFrom, hbyte, if_pos ⟨hlow, hhigh⟩, Nat.add_sub_cancel]

/-- A byte that begins a sequence of more than one. -/
theorem decodeFrom_lead {b : UInt8} {missing bits low high : Nat}
    (h : leadByte b = some (missing + 1, bits, low, high)) (bs : List UInt8) :
    decodeFrom .start (b :: bs) = decodeFrom (.inside (missing + 1) bits low high) bs := by
  rw [decodeFrom, readLead, h]
  rfl

/-- Two bytes. -/
theorem decodeFrom_two {v : Nat} (hlow : 0x80 ≤ v) (hhigh : v ≤ 0x7FF) (bs : List UInt8) :
    decodeFrom .start (UInt8.ofNat (v / 64 % 0x20 + 0xC0) :: UInt8.ofNat (v % 0x40 + 0x80) :: bs) =
      Char.ofNat v :: decodeFrom .start bs := by
  have hlead : leadByte (UInt8.ofNat (v / 64 % 0x20 + 0xC0)) =
      some (0 + 1, v / 64, 0x80, 0xBF) := by
    simp only [leadByte, UInt8.toNat_ofNat_of_lt' (show v / 64 % 0x20 + 0xC0 < 256 by omega)]
    rw [if_neg (by omega), if_pos (by omega)]
    simp only [Option.some.injEq, Prod.mk.injEq, and_true, true_and]
    omega
  rw [decodeFrom_lead hlead, decodeFrom_inside (by omega) (by omega) (by omega)]
  rw [if_pos (by omega), show v / 64 * 64 + v % 0x40 = v by omega]

/-- Three bytes; the byte after the first keeps overlong forms and surrogates out. -/
theorem decodeFrom_three {v : Nat} (hlow : 0x800 ≤ v) (hhigh : v ≤ 0xFFFF)
    (hsurrogate : v < 0xD800 ∨ 0xDFFF < v) (bs : List UInt8) :
    decodeFrom .start (UInt8.ofNat (v / 4096 % 0x10 + 0xE0) ::
        UInt8.ofNat (v / 64 % 0x40 + 0x80) :: UInt8.ofNat (v % 0x40 + 0x80) :: bs) =
      Char.ofNat v :: decodeFrom .start bs := by
  have hlead : ∃ low high, low ≤ v / 64 % 0x40 + 0x80 ∧ v / 64 % 0x40 + 0x80 ≤ high ∧
      leadByte (UInt8.ofNat (v / 4096 % 0x10 + 0xE0)) = some (1 + 1, v / 4096, low, high) := by
    simp only [leadByte, UInt8.toNat_ofNat_of_lt' (show v / 4096 % 0x10 + 0xE0 < 256 by omega)]
    rw [if_neg (by omega), if_neg (by omega)]
    by_cases hfirst : v / 4096 % 0x10 + 0xE0 = 0xE0
    · rw [if_pos hfirst]
      exact ⟨0xA0, 0xBF, by omega, by omega, by simp; omega⟩
    rw [if_neg hfirst]
    by_cases hed : v / 4096 % 0x10 + 0xE0 = 0xED
    · rw [if_pos hed]
      exact ⟨0x80, 0x9F, by omega, by omega, by simp; omega⟩
    · rw [if_neg hed, if_pos (by omega)]
      exact ⟨0x80, 0xBF, by omega, by omega, by simp; omega⟩
  obtain ⟨low, high, hl, hh, hlead⟩ := hlead
  rw [decodeFrom_lead hlead, decodeFrom_inside (by omega) hl hh, if_neg (by omega)]
  rw [decodeFrom_inside (by omega) (by omega) (by omega), if_pos (by omega)]
  rw [show (v / 4096 * 64 + v / 64 % 0x40) * 64 + v % 0x40 = v by omega]

/-- Four bytes. -/
theorem decodeFrom_four {v : Nat} (hlow : 0xFFFF < v) (hhigh : v < 0x110000) (bs : List UInt8) :
    decodeFrom .start (UInt8.ofNat (v / 262144 % 0x08 + 0xF0) ::
        UInt8.ofNat (v / 4096 % 0x40 + 0x80) :: UInt8.ofNat (v / 64 % 0x40 + 0x80) ::
        UInt8.ofNat (v % 0x40 + 0x80) :: bs) =
      Char.ofNat v :: decodeFrom .start bs := by
  have hlead : ∃ low high, low ≤ v / 4096 % 0x40 + 0x80 ∧ v / 4096 % 0x40 + 0x80 ≤ high ∧
      leadByte (UInt8.ofNat (v / 262144 % 0x08 + 0xF0)) = some (2 + 1, v / 262144, low, high) := by
    simp only [leadByte, UInt8.toNat_ofNat_of_lt' (show v / 262144 % 0x08 + 0xF0 < 256 by omega)]
    rw [if_neg (by omega), if_neg (by omega), if_neg (by omega), if_neg (by omega),
      if_neg (by omega)]
    by_cases hfirst : v / 262144 % 0x08 + 0xF0 = 0xF0
    · rw [if_pos hfirst]
      exact ⟨0x90, 0xBF, by omega, by omega, by simp; omega⟩
    rw [if_neg hfirst]
    by_cases hmiddle : v / 262144 % 0x08 + 0xF0 ≤ 0xF3
    · rw [if_pos (by omega)]
      exact ⟨0x80, 0xBF, by omega, by omega, by simp; omega⟩
    · rw [if_neg (by omega), if_pos (by omega)]
      exact ⟨0x80, 0x8F, by omega, by omega, by simp; omega⟩
  obtain ⟨low, high, hl, hh, hlead⟩ := hlead
  rw [decodeFrom_lead hlead, decodeFrom_inside (by omega) hl hh, if_neg (by omega)]
  rw [decodeFrom_inside (by omega) (by omega) (by omega), if_neg (by omega)]
  rw [decodeFrom_inside (by omega) (by omega) (by omega), if_pos (by omega)]
  rw [show ((v / 262144 * 64 + v / 4096 % 0x40) * 64 + v / 64 % 0x40) * 64 + v % 0x40 = v by omega]

/-- A character is read back from its bytes. -/
theorem decodeFrom_encodeChar (c : Char) (bs : List UInt8) :
    decodeFrom .start (String.utf8EncodeChar c ++ bs) = c :: decodeFrom .start bs := by
  obtain ⟨v, hv⟩ : ∃ v, c.val.toNat = v := ⟨_, rfl⟩
  have hvalid : v < 0xD800 ∨ 0xDFFF < v ∧ v < 0x110000 := hv ▸ c.valid
  have hchar : Char.ofNat v = c := hv ▸ Char.ofNat_toNat c
  simp only [String.utf8EncodeChar, hv]
  by_cases hone : v ≤ 0x7F
  · have hbyte : (UInt8.ofNat v).toNat = v := UInt8.toNat_ofNat_of_lt' (show _ < 256 by omega)
    rw [if_pos hone, List.cons_append, List.nil_append, decodeFrom, readLead, leadByte, hbyte,
      if_pos (by omega), ← hchar]
    rfl
  rw [if_neg hone]
  by_cases htwo : v ≤ 0x7FF
  · rw [if_pos htwo]
    exact (decodeFrom_two (by omega) htwo bs).trans (by rw [hchar])
  rw [if_neg htwo]
  by_cases hthree : v ≤ 0xFFFF
  · rw [if_pos hthree]
    exact (decodeFrom_three (by omega) hthree (by omega) bs).trans (by rw [hchar])
  · rw [if_neg hthree]
    exact (decodeFrom_four (by omega) (by omega) bs).trans (by rw [hchar])

theorem decodeFrom_utf8Encode (cs : List Char) :
    decodeFrom .start cs.utf8Encode.data.toList = cs := by
  induction cs with
  | nil => rfl
  | cons c cs ih =>
    have hbytes : (c :: cs).utf8Encode.data.toList =
        String.utf8EncodeChar c ++ cs.utf8Encode.data.toList := by
      rw [List.utf8Encode_cons, List.utf8Encode_singleton]
      simp
    rw [hbytes, decodeFrom_encodeChar, ih]

/-- A text is read back from its bytes. -/
theorem decodeLossy_toUTF8 (s : String) : decodeLossy s.toUTF8 = s := by
  have hbytes : s.toUTF8 = s.toList.utf8Encode := String.utf8Encode_toList.symm
  rw [decodeLossy, hbytes, decodeFrom_utf8Encode, String.ofList_toList]

end Rollout.Text
