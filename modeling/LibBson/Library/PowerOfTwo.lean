import LibBson.Library.Word
import Mathlib.Data.Nat.Bitwise
import Mathlib.Data.Nat.Size

/-!
# Rounding up to a power of two by smearing bits

`smear s v` is one step `v |= v >> s`. The steps 1, 2, 4, 8, 16, 32 fill every
bit below the leading one of a 64-bit word, which is what the usual
`next_power_of_two` relies on.
-/

set_option autoImplicit false

namespace LibBson.Library

def smear (s v : Nat) : Nat := v ||| v >>> s

/-- `v--; v |= v >> 1; …; v |= v >> 32; v++` on a 64-bit word. -/
def nextPowerOfTwo (v : Nat) : Nat :=
  u64 (smear 32 (smear 16 (smear 8 (smear 4 (smear 2 (smear 1 (u64sub v 1)))))) + 1)

/-- Bit `i` of a smeared word: some bit of `v` among `i, …, i + w - 1`. -/
def Window (v w i : Nat) : Prop := ∃ j, j < w ∧ v.testBit (i + j) = true

theorem window_one (v i : Nat) : Window v 1 i ↔ v.testBit i = true := by
  constructor
  · rintro ⟨j, hj, h⟩
    have : j = 0 := by omega
    subst this
    exact h
  · intro h
    exact ⟨0, by omega, h⟩

/-- A step by the window's width doubles the window. -/
theorem smear_window {v x w : Nat} (h : ∀ i, x.testBit i = true ↔ Window v w i) (i : Nat) :
    (smear w x).testBit i = true ↔ Window v (w + w) i := by
  rw [smear, Nat.testBit_or, Nat.testBit_shiftRight, Bool.or_eq_true, h i, h (w + i)]
  constructor
  · rintro (⟨j, hj, hb⟩ | ⟨j, hj, hb⟩)
    · exact ⟨j, by omega, hb⟩
    · exact ⟨w + j, by omega, by rwa [show i + (w + j) = w + i + j by omega]⟩
  · rintro ⟨j, hj, hb⟩
    rcases Nat.lt_or_ge j w with hlt | hge
    · exact Or.inl ⟨j, hlt, hb⟩
    · exact Or.inr ⟨j - w, by omega, by rwa [show w + i + (j - w) = i + j by omega]⟩

theorem smear_all_window (v i : Nat) :
    (smear 32 (smear 16 (smear 8 (smear 4 (smear 2 (smear 1 v)))))).testBit i = true ↔
      Window v 64 i := by
  have h0 : ∀ i, v.testBit i = true ↔ Window v 1 i := fun i => (window_one v i).symm
  exact smear_window (smear_window (smear_window (smear_window (smear_window (smear_window h0)))))
    i

/-- Below `2 ^ 64` the smeared word is all ones up to the leading bit of `v`. -/
theorem smear_all (v : Nat) (h : v < 18446744073709551616) :
    smear 32 (smear 16 (smear 8 (smear 4 (smear 2 (smear 1 v))))) = 2 ^ v.size - 1 := by
  apply Nat.eq_of_testBit_eq
  intro i
  rw [Bool.eq_iff_iff, smear_all_window, Nat.testBit_two_pow_sub_one, decide_eq_true_iff]
  have hsize : v.size ≤ 64 := Nat.size_le.mpr h
  constructor
  · rintro ⟨j, -, hb⟩
    have hlt := Nat.lt_size.mpr (Nat.ge_two_pow_of_testBit hb)
    omega
  · intro hi
    have hpos : v ≠ 0 := by
      rintro rfl
      simp at hi
    have hlead : v.testBit v.log2 = true := Nat.testBit_log2 hpos
    have hlow : v.log2 < v.size := Nat.lt_size.mpr (Nat.ge_two_pow_of_testBit hlead)
    have hhigh : v.size ≤ v.log2 + 1 := Nat.size_le.mpr Nat.lt_log2_self
    refine ⟨v.log2 - i, by omega, ?_⟩
    rwa [show i + (v.log2 - i) = v.log2 by omega]

theorem nextPowerOfTwo_eq (v : Nat) (h1 : 1 ≤ v) (h : v ≤ 9223372036854775808) :
    nextPowerOfTwo v = 2 ^ (v - 1).size := by
  have hsize : (v - 1).size ≤ 63 := Nat.size_le.mpr (by omega)
  have hpow : 2 ^ (v - 1).size ≤ 2 ^ 63 := Nat.pow_le_pow_right (by omega) hsize
  have hpos : 0 < 2 ^ (v - 1).size := Nat.pow_pos (by omega)
  rw [nextPowerOfTwo, u64sub_of_le (by omega) h1, smear_all _ (by omega), Nat.sub_add_cancel hpos,
    u64, Nat.mod_eq_of_lt (by omega)]

theorem le_nextPowerOfTwo (v : Nat) (h1 : 1 ≤ v) (h : v ≤ 9223372036854775808) :
    v ≤ nextPowerOfTwo v := by
  have hlt := Nat.lt_size_self (v - 1)
  rw [nextPowerOfTwo_eq v h1 h]
  omega

theorem nextPowerOfTwo_le (v k : Nat) (h1 : 1 ≤ v) (h : v ≤ 2 ^ k) (hk : k ≤ 63) :
    nextPowerOfTwo v ≤ 2 ^ k := by
  have hpow : 2 ^ k ≤ 2 ^ 63 := Nat.pow_le_pow_right (by omega) hk
  rw [nextPowerOfTwo_eq v h1 (by omega)]
  exact Nat.pow_le_pow_right (by omega) (Nat.size_le.mpr (by omega))

/-- Past a power of two it reaches the next. -/
theorem lt_nextPowerOfTwo (v k : Nat) (hv : 2 ^ k < v) (h : v ≤ 9223372036854775808) :
    2 ^ (k + 1) ≤ nextPowerOfTwo v := by
  have hpos : 0 < 2 ^ k := Nat.pow_pos (by decide)
  rw [nextPowerOfTwo_eq v (by omega) h]
  exact Nat.pow_le_pow_right (by decide) (Nat.lt_size.mpr (by omega))

end LibBson.Library
