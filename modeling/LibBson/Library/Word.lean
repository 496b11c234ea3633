import Mathlib.Data.Nat.Notation
import Mathlib.Data.Int.Notation

/-!
# Fixed-width integers of C

`u32` and `u64` reduce a number to the width; `u32sub` and `u64sub` are the
subtractions that wrap below zero. `i32` and `i64` reread a word as two's
complement, `ofInt32` converts a signed number back to its word.
-/

set_option autoImplicit false

namespace LibBson.Library

def u32 (n : Nat) : Nat := n % 4294967296

def u32sub (a b : Nat) : Nat := (((a : Int) - b) % 4294967296).toNat

def u64 (n : Nat) : Nat := n % 18446744073709551616

def u64sub (a b : Nat) : Nat := (((a : Int) - b) % 18446744073709551616).toNat

/-- Two's complement reading of a 32-bit word. -/
def i32 (n : Nat) : Int :=
  if n % 4294967296 < 2147483648 then ((n % 4294967296 : Nat) : Int)
  else ((n % 4294967296 : Nat) : Int) - 4294967296

/-- Two's complement reading of a 64-bit word. -/
def i64 (n : Nat) : Int :=
  if n % 18446744073709551616 < 9223372036854775808 then ((n % 18446744073709551616 : Nat) : Int)
  else ((n % 18446744073709551616 : Nat) : Int) - 18446744073709551616

/-- The 32-bit word of a signed number (conversion to `uint32_t`). -/
def ofInt32 (x : Int) : Nat := (x % 4294967296).toNat

def ofInt64 (x : Int) : Nat := (x % 18446744073709551616).toNat

theorem u32_of_lt {n : Nat} (h : n < 4294967296) : u32 n = n := Nat.mod_eq_of_lt h

theorem u32_lt (n : Nat) : u32 n < 4294967296 := Nat.mod_lt _ (by decide)

theorem u32sub_lt (a b : Nat) : u32sub a b < 4294967296 := by
  unfold u32sub
  omega

theorem u32sub_of_le {a b : Nat} (ha : a < 4294967296) (h : b ≤ a) : u32sub a b = a - b := by
  unfold u32sub
  omega

theorem u64sub_of_le {a b : Nat} (ha : a < 18446744073709551616) (h : b ≤ a) :
    u64sub a b = a - b := by
  unfold u64sub
  omega

theorem ofInt32_natCast (n : Nat) : ofInt32 (n : Int) = u32 n := by
  unfold ofInt32 u32
  omega

theorem ofInt32_of_nonneg {x : Int} (h0 : 0 ≤ x) (h : x < 4294967296) : ofInt32 x = x.toNat := by
  unfold ofInt32
  omega

theorem i32_ofInt32 {x : Int} (lo : -2147483648 ≤ x) (hi : x < 2147483648) :
    i32 (ofInt32 x) = x := by
  unfold i32 ofInt32
  split <;> omega

theorem i64_ofInt64 {x : Int} (lo : -9223372036854775808 ≤ x) (hi : x < 9223372036854775808) :
    i64 (ofInt64 x) = x := by
  unfold i64 ofInt64
  split <;> omega

/-- Reading a word as signed and converting it back changes nothing. -/
theorem ofInt32_i32_add (n k : Nat) : ofInt32 (i32 n + k) = u32 (n + k) := by
  unfold i32 ofInt32 u32
  split <;> omega

theorem i32_le (n : Nat) : i32 n ≤ n := by
  unfold i32
  split <;> omega

theorem i32_bounds (n : Nat) : -2147483648 ≤ i32 n ∧ i32 n < 2147483648 := by
  unfold i32
  split <;> omega

theorem i32_of_lt {n : Nat} (h : n < 2147483648) : i32 n = n := by
  unfold i32
  rw [Nat.mod_eq_of_lt (by omega)]
  simp [h]

end LibBson.Library
