import Mathlib.Data.Nat.ModEq
import Rollout.Build
import Rollout.Proofs.Text.Split

/-!
What a fingerprint is computed from determines the files: a name ends at the first zero byte, eight
bytes tell how long the content is that follows, and after it the next name begins.
-/

namespace Rollout.BuildOutput

variable {name name' : String} {n m : Nat} {contents contents' : TextMap ByteArray}

/-- No character of a text is the zero character. -/
def NulFree (text : String) : Prop := ∀ c ∈ text.toList, c.toNat ≠ 0

instance (text : String) : Decidable (NulFree text) :=
  inferInstanceAs (Decidable (∀ c ∈ text.toList, c.toNat ≠ 0))

theorem ofNat_ne_zero {n : Nat} (hn : n ≠ 0) (hbyte : n < 256) : (0 : UInt8) ≠ UInt8.ofNat n := by
  intro h
  have := congrArg UInt8.toNat h
  rw [UInt8.toNat_ofNat_of_lt' (show n < UInt8.size from hbyte)] at this
  exact hn this.symm

/-- Only the zero character has a zero byte. -/
theorem zero_not_mem_encodeChar {c : Char} (h : c.toNat ≠ 0) : 0 ∉ String.utf8EncodeChar c := by
  obtain ⟨v, hv⟩ : ∃ v, c.val.toNat = v := ⟨_, rfl⟩
  have hzero : v ≠ 0 := hv ▸ h
  have hlow : v % 0x40 + 0x80 ≠ 0 ∧ v % 0x40 + 0x80 < 256 := by omega
  simp only [String.utf8EncodeChar, hv]
  split
  · rw [List.mem_singleton]
    exact ofNat_ne_zero hzero (by omega)
  split
  · simp only [List.mem_cons, List.not_mem_nil, or_false, not_or]
    exact ⟨ofNat_ne_zero (by omega) (by omega), ofNat_ne_zero hlow.1 hlow.2⟩
  split
  · simp only [List.mem_cons, List.not_mem_nil, or_false, not_or]
    exact ⟨ofNat_ne_zero (by omega) (by omega), ofNat_ne_zero (by omega) (by omega),
      ofNat_ne_zero hlow.1 hlow.2⟩
  · simp only [List.mem_cons, List.not_mem_nil, or_false, not_or]
    exact ⟨ofNat_ne_zero (by omega) (by omega), ofNat_ne_zero (by omega) (by omega),
      ofNat_ne_zero (by omega) (by omega), ofNat_ne_zero hlow.1 hlow.2⟩

theorem zero_not_mem_bytes (h : NulFree name) : (0 : UInt8) ∉ name.toByteArray.data.toList := by
  have hbytes (cs : List Char) (hcs : ∀ c ∈ cs, c.toNat ≠ 0) :
      (0 : UInt8) ∉ cs.utf8Encode.data.toList := by
    induction cs with
    | nil => simp
    | cons c cs ih =>
      have hsplit : (c :: cs).utf8Encode.data.toList =
          String.utf8EncodeChar c ++ cs.utf8Encode.data.toList := by
        rw [List.utf8Encode_cons, List.utf8Encode_singleton]
        simp
      rw [hsplit, List.mem_append, not_or]
      exact ⟨zero_not_mem_encodeChar (hcs c List.mem_cons_self),
        ih fun d hd => hcs d (List.mem_cons_of_mem _ hd)⟩
  rw [← String.utf8Encode_toList]
  exact hbytes name.toList h

theorem ofBytes_inj (h : name.toByteArray.data.toList = name'.toByteArray.data.toList) :
    name = name' :=
  String.toByteArray_inj.1 (ByteArray.ext (Array.toList_inj.1 h))

/-- Numbers whose low bytes agree agree as far as those bytes go. -/
theorem mod_eq_of_bytes (k : Nat) (h : ∀ i < k, n / 256 ^ i % 256 = m / 256 ^ i % 256) :
    n % 256 ^ k = m % 256 ^ k := by
  induction k with
  | zero => simp [Nat.mod_one]
  | succ k ih =>
    rw [Nat.mod_pow_succ, Nat.mod_pow_succ, ih fun i hi => h i (by omega), h k (by omega)]

theorem lengthBytes_inj (hn : n < 2 ^ 64) (hm : m < 2 ^ 64) (h : lengthBytes n = lengthBytes m) :
    n = m := by
  have hbytes (i : Nat) (hi : i < 8) : n / 256 ^ i % 256 = m / 256 ^ i % 256 := by
    have hbyte := List.map_inj_left.1 h i (List.mem_range.2 hi)
    simpa using congrArg UInt8.toNat hbyte
  have hmod := mod_eq_of_bytes 8 hbytes
  rwa [Nat.mod_eq_of_lt (by omega), Nat.mod_eq_of_lt (by omega)] at hmod

theorem length_lengthBytes (n : Nat) : (lengthBytes n).length = 8 := by
  simp [lengthBytes]

theorem digestInput_cons (name : String) (content : ByteArray) (contents : TextMap ByteArray) :
    digestInput ((name, content) :: contents) =
      name.toByteArray.data.toList ++
        0 :: (lengthBytes content.size ++ (content.data.toList ++ digestInput contents)) := by
  simp [digestInput]

/-- Up to a byte that occurs in neither, two beginnings are the same. -/
theorem append_cons_inj {x : UInt8} {a b c d : List UInt8} (ha : x ∉ a) (hb : x ∉ b)
    (h : a ++ x :: c = b ++ x :: d) : a = b ∧ c = d := by
  induction a generalizing b with
  | nil =>
    cases b with
    | nil => simpa using h
    | cons y b =>
      rw [List.mem_cons, not_or] at hb
      exact absurd (List.cons.inj h).1 hb.1
  | cons y a ih =>
    cases b with
    | nil =>
      rw [List.mem_cons, not_or] at ha
      exact absurd (List.cons.inj h).1.symm ha.1
    | cons z b =>
      rw [List.mem_cons, not_or] at ha hb
      obtain ⟨hyz, hrest⟩ := List.cons.inj h
      obtain ⟨hab, hcd⟩ := ih ha.2 hb.2 hrest
      exact ⟨by rw [hyz, hab], hcd⟩

/-- Files that a fingerprint can tell apart. -/
def Tellable (contents : TextMap ByteArray) : Prop :=
  ∀ e ∈ contents, NulFree e.1 ∧ e.2.size < 2 ^ 64

theorem digestInput_inj (hc : Tellable contents) (hc' : Tellable contents')
    (h : digestInput contents = digestInput contents') : contents = contents' := by
  induction contents generalizing contents' with
  | nil =>
    cases contents' with
    | nil => rfl
    | cons e contents' =>
      rw [digestInput_cons] at h
      exact absurd h (by simp [digestInput])
  | cons e contents ih =>
    obtain ⟨name, content⟩ := e
    cases contents' with
    | nil =>
      rw [digestInput_cons] at h
      exact absurd h (by simp [digestInput])
    | cons e' contents' =>
      obtain ⟨name', content'⟩ := e'
      obtain ⟨hnul, hsize⟩ := hc _ List.mem_cons_self
      obtain ⟨hnul', hsize'⟩ := hc' _ List.mem_cons_self
      rw [digestInput_cons, digestInput_cons] at h
      obtain ⟨hname, hrest⟩ :=
        append_cons_inj (zero_not_mem_bytes hnul) (zero_not_mem_bytes hnul') h
      obtain ⟨hlength, hrest⟩ := List.append_inj hrest (by simp [length_lengthBytes])
      have heq : content.size = content'.size := lengthBytes_inj hsize hsize' hlength
      obtain ⟨hcontent, hrest⟩ := List.append_inj hrest heq
      have htail := ih (fun e he => hc e (List.mem_cons_of_mem _ he))
        (fun e he => hc' e (List.mem_cons_of_mem _ he)) hrest
      have hcontents : content = content' := ByteArray.ext (Array.toList_inj.1 hcontent)
      rw [show name = name' from ofBytes_inj hname, hcontents, htail]

end Rollout.BuildOutput
