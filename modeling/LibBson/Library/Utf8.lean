import LibBson.Library.Memory
import Mathlib.Tactic.IntervalCases

/-!
# UTF-8

`utf8Encode` is the shortest form of a code point. `Utf8Text` is text in that
form; with `allowNull` the NUL character may occur, in its one octet or as the
overlong pair `C0 80`.
-/

set_option autoImplicit false

namespace LibBson.Library

/-- A Unicode scalar value: no surrogate, at most `U+10FFFF`. -/
def Scalar (c : Nat) : Prop := c ≤ 0x10FFFF ∧ ¬ (0xD800 ≤ c ∧ c < 0xE000)

instance (c : Nat) : Decidable (Scalar c) := inferInstanceAs (Decidable (_ ∧ _))

def utf8Encode (c : Nat) : Bytes :=
  if c < 0x80 then [UInt8.ofNat c]
  else if c < 0x800 then [UInt8.ofNat (0xC0 + c / 64), UInt8.ofNat (0x80 + c % 64)]
  else if c < 0x10000 then
    [UInt8.ofNat (0xE0 + c / 4096), UInt8.ofNat (0x80 + c / 64 % 64), UInt8.ofNat (0x80 + c % 64)]
  else
    [UInt8.ofNat (0xF0 + c / 262144), UInt8.ofNat (0x80 + c / 4096 % 64),
      UInt8.ofNat (0x80 + c / 64 % 64), UInt8.ofNat (0x80 + c % 64)]

inductive Utf8Text (allowNull : Bool) : Bytes → Prop
  | nil : Utf8Text allowNull []
  | char (c : Nat) (s : Bytes) (hc : Scalar c) (hn : c = 0 → allowNull = true)
    (hs : Utf8Text allowNull s) : Utf8Text allowNull (utf8Encode c ++ s)
  | nul (s : Bytes) (hn : allowNull = true) (hs : Utf8Text allowNull s) :
    Utf8Text allowNull (0xC0 :: 0x80 :: s)

/-! ## Octets as numbers -/

theorem ofNat_toNat_eq {n : Nat} {b : UInt8} (h : n = b.toNat) : UInt8.ofNat n = b := by
  subst h
  exact UInt8.ofNat_toNat

theorem toNat_ofNat_of_lt {n : Nat} (h : n < 256) : (UInt8.ofNat n).toNat = n := by
  simp [Nat.mod_eq_of_lt h]

/-- An octet `10xxxxxx`. -/
def IsTail (b : UInt8) : Prop := 0x80 ≤ b.toNat ∧ b.toNat < 0xC0

theorem utf8Encode_two {b0 b1 : UInt8} {c : Nat} (h0 : 0xC0 ≤ b0.toNat) (h0' : b0.toNat < 0xE0)
    (h1 : IsTail b1) (hc : c = (b0.toNat - 0xC0) * 64 + (b1.toNat - 0x80)) (hmin : 0x80 ≤ c) :
    utf8Encode c = [b0, b1] := by
  obtain ⟨l1, u1⟩ := h1
  rw [utf8Encode, if_neg (by omega), if_pos (by omega)]
  congr 1
  · exact ofNat_toNat_eq (by omega)
  · congr 1
    exact ofNat_toNat_eq (by omega)

theorem utf8Encode_three {b0 b1 b2 : UInt8} {c : Nat} (h0 : 0xE0 ≤ b0.toNat)
    (h0' : b0.toNat < 0xF0) (h1 : IsTail b1) (h2 : IsTail b2)
    (hc : c = ((b0.toNat - 0xE0) * 64 + (b1.toNat - 0x80)) * 64 + (b2.toNat - 0x80))
    (hmin : 0x800 ≤ c) : utf8Encode c = [b0, b1, b2] := by
  obtain ⟨l1, u1⟩ := h1
  obtain ⟨l2, u2⟩ := h2
  rw [utf8Encode, if_neg (by omega), if_neg (by omega), if_pos (by omega)]
  congr 1
  · exact ofNat_toNat_eq (by omega)
  · congr 1
    · exact ofNat_toNat_eq (by omega)
    · congr 1
      exact ofNat_toNat_eq (by omega)

theorem utf8Encode_four {b0 b1 b2 b3 : UInt8} {c : Nat} (h0 : 0xF0 ≤ b0.toNat)
    (h0' : b0.toNat < 0xF8) (h1 : IsTail b1) (h2 : IsTail b2) (h3 : IsTail b3)
    (hc : c = (((b0.toNat - 0xF0) * 64 + (b1.toNat - 0x80)) * 64 + (b2.toNat - 0x80)) * 64 +
      (b3.toNat - 0x80)) (hmin : 0x10000 ≤ c) : utf8Encode c = [b0, b1, b2, b3] := by
  obtain ⟨l1, u1⟩ := h1
  obtain ⟨l2, u2⟩ := h2
  obtain ⟨l3, u3⟩ := h3
  rw [utf8Encode, if_neg (by omega), if_neg (by omega), if_neg (by omega)]
  congr 1
  · exact ofNat_toNat_eq (by omega)
  · congr 1
    · exact ofNat_toNat_eq (by omega)
    · congr 1
      · exact ofNat_toNat_eq (by omega)
      · congr 1
        exact ofNat_toNat_eq (by omega)

end LibBson.Library
