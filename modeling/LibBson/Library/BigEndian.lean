import LibBson.Library.Memory
import Mathlib.Algebra.Ring.Nat
import Mathlib.Tactic.Ring

/-!
# Big-endian words and memcmp

`beBytes n x` is the `n`-octet word of `x`, most significant octet first.
`memcmp` orders octet strings of one length as the numbers they stand for.
-/

set_option autoImplicit false

namespace LibBson.Library

def beBytes : Nat → Nat → Bytes
  | 0, _ => []
  | n + 1, x => UInt8.ofNat (x / 256 ^ n % 256) :: beBytes n x

def beNat : Bytes → Nat
  | [] => 0
  | b :: bs => b.toNat * 256 ^ bs.length + beNat bs

/-- The difference of the first octets that differ. -/
def memcmp : Bytes → Bytes → Int
  | a :: as, b :: bs => if a = b then memcmp as bs else (a.toNat : Int) - b.toNat
  | _, _ => 0

@[simp] theorem beBytes_length (n x : Nat) : (beBytes n x).length = n := by
  induction n with
  | zero => rfl
  | succ n ih => simp [beBytes, ih]

theorem beNat_lt (bs : Bytes) : beNat bs < 256 ^ bs.length := by
  induction bs with
  | nil => simp [beNat]
  | cons b bs ih =>
    have hb : b.toNat + 1 ≤ 256 := b.toNat_lt
    have hm := Nat.mul_le_mul_right (256 ^ bs.length) hb
    rw [Nat.add_mul] at hm
    rw [beNat, List.length_cons, Nat.pow_succ]
    omega

theorem beNat_append (xs ys : Bytes) :
    beNat (xs ++ ys) = beNat xs * 256 ^ ys.length + beNat ys := by
  induction xs with
  | nil => simp [beNat]
  | cons x xs ih =>
    rw [List.cons_append, beNat, beNat, ih, List.length_append, Nat.pow_add]
    ring

/-- A word keeps its value up to the width. -/
theorem beNat_beBytes (n x : Nat) : beNat (beBytes n x) = x % 256 ^ n := by
  induction n with
  | zero => simp [beBytes, beNat, Nat.mod_one]
  | succ n ih =>
    have hb : (UInt8.ofNat (x / 256 ^ n % 256)).toNat = x / 256 ^ n % 256 := by simp
    rw [beBytes, beNat, ih, hb, beBytes_length, Nat.pow_succ, Nat.mod_mul]
    ring

theorem beNat_inj {xs ys : Bytes} (hlength : xs.length = ys.length) (h : beNat xs = beNat ys) :
    xs = ys := by
  induction xs generalizing ys with
  | nil => exact (List.length_eq_zero_iff.mp hlength.symm).symm
  | cons x xs ih =>
    cases ys with
    | nil => cases hlength
    | cons y ys =>
      have hl : xs.length = ys.length := Nat.succ.inj hlength
      have hx := beNat_lt xs
      have hy := beNat_lt ys
      rw [beNat, beNat, hl] at h
      rw [hl] at hx
      have hpos : 0 < 256 ^ ys.length := Nat.pow_pos (by decide)
      have hhead : x.toNat = y.toNat := by
        have := congrArg (· / 256 ^ ys.length) h
        simpa [Nat.mul_comm, Nat.mul_add_div hpos, Nat.div_eq_of_lt hx, Nat.div_eq_of_lt hy]
          using this
      rw [hhead] at h
      rw [UInt8.toNat_inj.mp hhead, ih hl (Nat.add_left_cancel h)]

theorem memcmp_pos {xs ys : Bytes} (hlength : xs.length = ys.length) (h : beNat ys < beNat xs) :
    0 < memcmp xs ys := by
  induction xs generalizing ys with
  | nil => cases h
  | cons x xs ih =>
    cases ys with
    | nil => cases hlength
    | cons y ys =>
      have hl : xs.length = ys.length := Nat.succ.inj hlength
      rw [beNat, beNat, hl] at h
      rw [memcmp]
      split
      case isTrue heq =>
        subst heq
        exact ih hl (Nat.lt_of_add_lt_add_left h)
      case isFalse hne =>
        have hx := beNat_lt xs
        rw [hl] at hx
        -- A smaller first octet cannot be made up for by the rest.
        have hle : y.toNat ≤ x.toNat := by
          by_contra hgt
          have hm := Nat.mul_le_mul_right (256 ^ ys.length) (Nat.lt_of_not_le hgt)
          rw [Nat.succ_mul] at hm
          omega
        have hneq : x.toNat ≠ y.toNat := fun e => hne (UInt8.toNat_inj.mp e)
        omega

theorem memcmp_self (xs : Bytes) : memcmp xs xs = 0 := by
  induction xs with
  | nil => rfl
  | cons x xs ih => rw [memcmp, if_pos rfl, ih]

end LibBson.Library
