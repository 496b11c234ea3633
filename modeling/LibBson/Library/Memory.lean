import Mathlib.Data.List.Basic
import Mathlib.Data.List.GetD
import Mathlib.Data.List.OfFn

/-!
# Byte memory: contents, slices, writes

A pointer's memory is a total map from octet offsets to octets. An access past
the end of an object therefore has a value, whichever it is, so that bounds are
a statement about offsets and not a precondition of the model. `Holds m o bs`
says that the octets `bs` stand in `m` from offset `o`.
-/

set_option autoImplicit false

namespace LibBson.Library

abbrev Bytes := List UInt8

instance : LawfulBEq Bytes := inferInstance

abbrev Mem := Nat → UInt8

namespace Mem

/-- The memory that holds `bs` at offset zero and zeroes behind it. -/
def ofBytes (bs : Bytes) : Mem := fun i => bs.getD i 0

/-- Pointer arithmetic: the memory seen from `o` octets further on. -/
def shift (m : Mem) (o : Nat) : Mem := fun i => m (o + i)

def slice (m : Mem) (o n : Nat) : Bytes := (List.range n).map fun i => m (o + i)

/-- `memcpy` to offset `o`. -/
def write (m : Mem) (o : Nat) (bs : Bytes) : Mem := fun i =>
  if i < o then m i else bs.getD (i - o) (m i)

/-- What survives of a block of `n` octets in a fresh block. -/
def copyPrefix (m fresh : Mem) (n : Nat) : Mem := fun i => if i < n then m i else fresh i

@[simp] theorem shift_apply (m : Mem) (o i : Nat) : m.shift o i = m (o + i) := rfl

@[simp] theorem shift_zero (m : Mem) : m.shift 0 = m := by
  funext i
  simp

@[simp] theorem shift_shift (m : Mem) (o p : Nat) : (m.shift o).shift p = m.shift (o + p) := by
  funext i
  simp [Nat.add_assoc]

@[simp] theorem slice_length (m : Mem) (o n : Nat) : (m.slice o n).length = n := by
  simp [slice]

@[simp] theorem slice_zero (m : Mem) (o : Nat) : m.slice o 0 = [] := rfl

@[simp] theorem slice_shift (m : Mem) (o p n : Nat) : (m.shift o).slice p n = m.slice (o + p) n := by
  simp [slice, Nat.add_assoc]

theorem slice_getElem (m : Mem) (o n i : Nat) (h : i < (m.slice o n).length) :
    (m.slice o n)[i] = m (o + i) := by
  simp [slice]

theorem slice_succ (m : Mem) (o n : Nat) : m.slice o (n + 1) = m o :: m.slice (o + 1) n := by
  simp only [slice, List.range_succ_eq_map, List.map_cons, List.map_map, Nat.add_zero]
  congr 1
  apply List.map_congr_left
  intro i _
  simp only [Function.comp_apply]
  congr 1
  omega

theorem slice_add (m : Mem) (o n k : Nat) :
    m.slice o (n + k) = m.slice o n ++ m.slice (o + n) k := by
  induction n generalizing o with
  | zero => simp
  | succ n ih =>
    rw [Nat.add_right_comm, slice_succ, slice_succ, ih (o + 1)]
    simp [Nat.add_assoc, Nat.add_comm 1 n]

theorem take_slice (m : Mem) (o n k : Nat) (h : k ≤ n) : (m.slice o n).take k = m.slice o k := by
  obtain ⟨j, rfl⟩ := Nat.exists_eq_add_of_le h
  rw [slice_add, List.take_left' (slice_length m o k)]

theorem drop_slice (m : Mem) (o n k : Nat) (h : k ≤ n) :
    (m.slice o n).drop k = m.slice (o + k) (n - k) := by
  obtain ⟨j, rfl⟩ := Nat.exists_eq_add_of_le h
  rw [slice_add, List.drop_left' (slice_length m o k), Nat.add_sub_cancel_left]

end Mem

open Mem

/-- The octets `bs` stand in `m` from offset `o` on. -/
def Holds (m : Mem) (o : Nat) (bs : Bytes) : Prop := m.slice o bs.length = bs

@[simp] theorem holds_nil (m : Mem) (o : Nat) : Holds m o [] := rfl

@[simp] theorem holds_cons (m : Mem) (o : Nat) (b : UInt8) (bs : Bytes) :
    Holds m o (b :: bs) ↔ m o = b ∧ Holds m (o + 1) bs := by
  simp [Holds, slice_succ]

@[simp] theorem holds_append (m : Mem) (o : Nat) (as bs : Bytes) :
    Holds m o (as ++ bs) ↔ Holds m o as ∧ Holds m (o + as.length) bs := by
  induction as generalizing o with
  | nil => simp
  | cons a as ih => simp [ih, and_assoc, Nat.add_assoc, Nat.add_comm 1 as.length]

theorem holds_slice (m : Mem) (o n : Nat) : Holds m o (m.slice o n) := by
  simp [Holds]

@[simp] theorem holds_shift (m : Mem) (o p : Nat) (bs : Bytes) :
    Holds (m.shift o) p bs ↔ Holds m (o + p) bs := by
  simp [Holds]

theorem Holds.slice_eq {m : Mem} {o : Nat} {bs : Bytes} (h : Holds m o bs) :
    m.slice o bs.length = bs := h

theorem Holds.slice_of_length {m : Mem} {o n : Nat} {bs : Bytes} (h : Holds m o bs)
    (hn : bs.length = n) : m.slice o n = bs := by
  subst hn
  exact h

theorem Holds.get {m : Mem} {o : Nat} {bs : Bytes} (h : Holds m o bs) (i : Nat)
    (hi : i < bs.length) : m (o + i) = bs[i] := by
  have hs : (m.slice o bs.length)[i]? = bs[i]? := by rw [h.slice_eq]
  simp [slice, hi] at hs
  exact hs

/-- Two memories that agree on the octets of a block hold the same block. -/
theorem Holds.congr {m m' : Mem} {o : Nat} {bs : Bytes} (h : Holds m o bs)
    (same : ∀ i, i < bs.length → m' (o + i) = m (o + i)) : Holds m' o bs := by
  unfold Holds at *
  rw [← h]
  simp only [slice, List.length_map, List.length_range]
  apply List.map_congr_left
  intro i hi
  exact same i (by simpa [h] using hi)

theorem holds_ofBytes (bs : Bytes) : Holds (ofBytes bs) 0 bs := by
  unfold Holds slice ofBytes
  apply List.ext_getElem
  · simp
  · intro i h1 h2
    simp [List.getD_eq_getElem?_getD, h2]

namespace Mem

theorem write_before (m : Mem) (o i : Nat) (bs : Bytes) (h : i < o) : m.write o bs i = m i := by
  simp [write, h]

theorem write_after (m : Mem) (o i : Nat) (bs : Bytes) (h : o + bs.length ≤ i) :
    m.write o bs i = m i := by
  unfold write
  split
  · rfl
  · rw [List.getD_eq_default]
    omega

theorem write_frame (m : Mem) (o i : Nat) (bs : Bytes) (h : i < o ∨ o + bs.length ≤ i) :
    m.write o bs i = m i := by
  rcases h with h | h
  · exact write_before m o i bs h
  · exact write_after m o i bs h

theorem write_at (m : Mem) (o i : Nat) (bs : Bytes) (h : i < bs.length) :
    m.write o bs (o + i) = bs[i] := by
  simp [write, List.getD_eq_getElem?_getD, h]

/-- A copied block reads as the original. -/
theorem write_slice_at (m p : Mem) (n i : Nat) (h : i < n) : m.write 0 (p.slice 0 n) i = p i := by
  have hw := write_at m 0 i (p.slice 0 n) (by rw [slice_length]; exact h)
  rw [Nat.zero_add] at hw
  rw [hw, slice_getElem, Nat.zero_add]

@[simp] theorem write_nil (m : Mem) (o : Nat) : m.write o [] = m := by
  funext i
  exact write_frame m o i [] (by simp; omega)

theorem holds_write_self (m : Mem) (o : Nat) (bs : Bytes) : Holds (m.write o bs) o bs := by
  unfold Holds slice
  apply List.ext_getElem
  · simp
  · intro i h1 h2
    simp [write_at m o i bs h2]

/-- A write leaves every block it does not overlap as it was. -/
theorem holds_write_frame {m : Mem} {o p : Nat} {as bs : Bytes} (h : Holds m o as)
    (apart : o + as.length ≤ p ∨ p + bs.length ≤ o) : Holds (m.write p bs) o as :=
  h.congr fun i hi => write_frame m p (o + i) bs (by omega)

/-- Consecutive writes are one write of the concatenation. -/
theorem write_write_append (m : Mem) (o : Nat) (as bs : Bytes) :
    (m.write o as).write (o + as.length) bs = m.write o (as ++ bs) := by
  funext i
  rcases Nat.lt_or_ge i o with hlt | hge
  · rw [write_before _ _ _ _ (by omega), write_before _ _ _ _ hlt, write_before _ _ _ _ hlt]
  · obtain ⟨k, rfl⟩ := Nat.exists_eq_add_of_le hge
    rcases Nat.lt_or_ge k as.length with ha | ha
    · rw [write_before _ _ _ _ (by omega), write_at _ _ _ _ ha,
        write_at _ _ _ _ (by simp; omega), List.getElem_append_left ha]
    · obtain ⟨j, rfl⟩ := Nat.exists_eq_add_of_le ha
      rcases Nat.lt_or_ge j bs.length with hb | hb
      · have hw := write_at (m.write o as) (o + as.length) j bs hb
        rw [Nat.add_assoc] at hw
        rw [hw, write_at _ _ _ _ (by simp; omega), List.getElem_append_right (by omega)]
        simp
      · rw [write_after _ _ _ _ (by omega), write_after _ _ _ _ (by omega),
          write_after _ _ _ _ (by simp; omega)]

theorem copyPrefix_of_lt (m fresh : Mem) (n i : Nat) (h : i < n) : m.copyPrefix fresh n i = m i := by
  simp [copyPrefix, h]

theorem holds_copyPrefix {m fresh : Mem} {n o : Nat} {bs : Bytes} (h : Holds m o bs)
    (fits : o + bs.length ≤ n) : Holds (m.copyPrefix fresh n) o bs :=
  h.congr fun i hi => copyPrefix_of_lt m fresh n (o + i) (by omega)

end Mem

end LibBson.Library
