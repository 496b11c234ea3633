import LibBson.Library.Memory
import Mathlib.Algebra.Ring.Nat
import Mathlib.Tactic.Ring

/-!
# Little-endian words

`leBytes n x` is the `n`-octet word of `x`, least significant octet first, and
`leNat` its inverse. The inverse laws hold for every width, so no statement
about a word fixes its size.
-/

set_option autoImplicit false

namespace LibBson.Library

def leBytes : Nat → Nat → Bytes
  | 0, _ => []
  | n + 1, x => UInt8.ofNat (x % 256) :: leBytes n (x / 256)

def leNat : Bytes → Nat
  | [] => 0
  | b :: bs => b.toNat + 256 * leNat bs

/-- The `n`-octet word that stands in `m` at `o`. -/
def Mem.le (m : Mem) (o n : Nat) : Nat := leNat (m.slice o n)

@[simp] theorem leBytes_length (n x : Nat) : (leBytes n x).length = n := by
  induction n generalizing x with
  | zero => rfl
  | succ n ih => simp [leBytes, ih]

theorem leNat_lt (bs : Bytes) : leNat bs < 256 ^ bs.length := by
  induction bs with
  | nil => simp [leNat]
  | cons b bs ih =>
    have hb : b.toNat < 256 := b.toNat_lt
    simp only [leNat, List.length_cons, Nat.pow_succ]
    omega

/-- A word keeps its value up to the width. -/
theorem leNat_leBytes (n x : Nat) : leNat (leBytes n x) = x % 256 ^ n := by
  induction n generalizing x with
  | zero => simp [leBytes, leNat, Nat.mod_one]
  | succ n ih =>
    have hb : (UInt8.ofNat (x % 256)).toNat = x % 256 := by simp
    rw [leBytes, leNat, ih, hb, Nat.pow_succ, Nat.mul_comm (256 ^ n) 256, Nat.mod_mul]

theorem leBytes_leNat (bs : Bytes) : leBytes bs.length (leNat bs) = bs := by
  induction bs with
  | nil => rfl
  | cons b bs ih =>
    have hb : b.toNat < 256 := b.toNat_lt
    have hm : (b.toNat + 256 * leNat bs) % 256 = b.toNat := by omega
    have hd : (b.toNat + 256 * leNat bs) / 256 = leNat bs := by omega
    simp [leNat, leBytes, hm, hd, ih]

/-- Only the low `n` octets of a number reach its word. -/
theorem leBytes_mod (n x : Nat) : leBytes n (x % 256 ^ n) = leBytes n x := by
  have h := leBytes_leNat (leBytes n x)
  rwa [leBytes_length, leNat_leBytes] at h

/-- The low octets of a word, and those of the rest of it. -/
theorem leBytes_add (n k x : Nat) :
    leBytes (n + k) x = leBytes n x ++ leBytes k (x / 256 ^ n) := by
  induction n generalizing x with
  | zero => simp [leBytes]
  | succ n ih =>
    rw [Nat.add_right_comm, leBytes, leBytes, ih, List.cons_append, Nat.div_div_eq_div_mul,
      Nat.pow_succ']

theorem Mem.le_lt (m : Mem) (o n : Nat) : m.le o n < 256 ^ n := by
  have h := leNat_lt (m.slice o n)
  rwa [Mem.slice_length] at h

@[simp] theorem Mem.le_shift (m : Mem) (o p n : Nat) : (m.shift o).le p n = m.le (o + p) n := by
  simp [Mem.le]

theorem holds_le (m : Mem) (o n : Nat) : Holds m o (leBytes n (m.le o n)) := by
  have h := leBytes_leNat (m.slice o n)
  rw [Mem.slice_length] at h
  rw [Mem.le, h]
  exact holds_slice m o n

theorem Mem.le_congr {m m' : Mem} {o n : Nat} (same : ∀ i, i < n → m' (o + i) = m (o + i)) :
    m'.le o n = m.le o n := by
  rw [Mem.le, Mem.le, Mem.slice, Mem.slice]
  congr 1
  exact List.map_congr_left fun i hi => same i (List.mem_range.mp hi)

theorem Holds.le_eq {m : Mem} {o n x : Nat} (h : Holds m o (leBytes n x)) :
    m.le o n = x % 256 ^ n := by
  rw [Mem.le, h.slice_of_length (by simp), leNat_leBytes]

theorem Holds.le_eq_of_lt {m : Mem} {o n x : Nat} (h : Holds m o (leBytes n x))
    (fits : x < 256 ^ n) : m.le o n = x := by
  rw [h.le_eq, Nat.mod_eq_of_lt fits]

/-- A held octet string is the word it spells. -/
theorem Holds.le_eq_leNat {m : Mem} {o n : Nat} {bs : Bytes} (h : Holds m o bs)
    (hn : bs.length = n) : m.le o n = leNat bs := by
  rw [Mem.le, h.slice_of_length hn]

end LibBson.Library
