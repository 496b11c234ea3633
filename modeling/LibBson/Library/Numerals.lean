import LibBson.Library.Ascii
import Mathlib.Algebra.Ring.Nat
import Mathlib.Tactic.Ring

/-!
# Numerals in any base

Digits go on behind `9` with the letters of either case. A numeral is the longest run of
digits below the base that stands at the start of a text.
-/

set_option autoImplicit false

namespace LibBson.Library

/-- The value of a digit or a letter. -/
def digitValue (b : UInt8) : Option Nat :=
  if 48 ≤ b.toNat ∧ b.toNat ≤ 57 then some (b.toNat - 48)
  else if 65 ≤ b.toNat ∧ b.toNat ≤ 90 then some (b.toNat - 55)
  else if 97 ≤ b.toNat ∧ b.toNat ≤ 122 then some (b.toNat - 87)
  else none

/-- The value of a digit of `base`. -/
def digitBelow (base : Nat) (b : UInt8) : Option Nat := (digitValue b).filter (· < base)

/-- The longest run of digits of `base` that `s` starts with. -/
def digitRun (base : Nat) : Bytes → List Nat
  | [] => []
  | b :: rest =>
    match digitBelow base b with
    | some d => d :: digitRun base rest
    | none => []

/-- What stands behind the run. -/
def behindRun (base : Nat) (s : Bytes) : Bytes := s.drop (digitRun base s).length

/-- The number that the digits `ds` behind the number `n` make. -/
def numeralFrom (base n : Nat) (ds : List Nat) : Nat := ds.foldl (fun n d => n * base + d) n

section Runs

variable {base : Nat} {b : UInt8} {rest : Bytes}

theorem digitBelow_lt {d : Nat} (h : digitBelow base b = some d) : d < base := by
  rw [digitBelow, Option.filter_eq_some_iff] at h
  exact of_decide_eq_true h.2

theorem digitRun_cons {d : Nat} (h : digitBelow base b = some d) :
    digitRun base (b :: rest) = d :: digitRun base rest := by
  rw [digitRun, h]

theorem digitRun_stop (h : digitBelow base b = none) : digitRun base (b :: rest) = [] := by
  rw [digitRun, h]

theorem behindRun_cons {d : Nat} (h : digitBelow base b = some d) :
    behindRun base (b :: rest) = behindRun base rest := by
  rw [behindRun, digitRun_cons h, List.length_cons, List.drop_succ_cons, behindRun]

theorem behindRun_stop (h : digitBelow base b = none) :
    behindRun base (b :: rest) = b :: rest := by
  rw [behindRun, digitRun_stop h, List.length_nil, List.drop_zero]

theorem digitRun_length_le (base : Nat) (s : Bytes) : (digitRun base s).length ≤ s.length := by
  induction s with
  | nil => exact Nat.le_refl 0
  | cons b rest ih =>
    cases h : digitBelow base b with
    | none =>
      rw [digitRun_stop h]
      exact Nat.zero_le _
    | some d =>
      rw [digitRun_cons h, List.length_cons, List.length_cons]
      exact Nat.succ_le_succ ih

theorem behindRun_length (base : Nat) (s : Bytes) :
    (behindRun base s).length = s.length - (digitRun base s).length :=
  List.length_drop

end Runs

section Numerals

@[simp] theorem numeralFrom_nil (base n : Nat) : numeralFrom base n [] = n := rfl

@[simp] theorem numeralFrom_cons (base n d : Nat) (ds : List Nat) :
    numeralFrom base n (d :: ds) = numeralFrom base (n * base + d) ds := rfl

/-- Digits never make a number smaller. -/
theorem le_numeralFrom {base : Nat} (hbase : 0 < base) (n : Nat) (ds : List Nat) :
    n ≤ numeralFrom base n ds := by
  induction ds generalizing n with
  | nil => exact Nat.le_refl n
  | cons d ds ih =>
    calc n ≤ n * base := Nat.le_mul_of_pos_right n hbase
      _ ≤ n * base + d := Nat.le_add_right _ d
      _ ≤ numeralFrom base (n * base + d) ds := ih (n * base + d)

/-- One more digit goes past `limit`, as it is tested before the multiplication. -/
theorem past_limit_iff (limit m : Nat) {base d : Nat} (hd : d < base) :
    (limit / base < m ∨ (m = limit / base ∧ limit % base < d)) ↔ limit < m * base + d := by
  have hbase : 0 < base := Nat.lt_of_le_of_lt (Nat.zero_le d) hd
  have hsplit := Nat.div_add_mod limit base
  have hrest := Nat.mod_lt limit hbase
  rw [Nat.mul_comm] at hsplit
  constructor
  · intro h
    rcases h with hgt | ⟨heq, hdig⟩
    · have hmul := Nat.mul_le_mul_right base (Nat.succ_le_of_lt hgt)
      rw [Nat.succ_mul] at hmul
      omega
    · rw [heq]
      omega
  · intro h
    by_contra hnot
    have hle : m ≤ limit / base := by omega
    rcases Nat.lt_or_eq_of_le hle with hlt | heq
    · have hmul := Nat.mul_le_mul_right base (Nat.succ_le_of_lt hlt)
      rw [Nat.succ_mul] at hmul
      omega
    · have hdig : ¬ limit % base < d := fun hdig => hnot (Or.inr ⟨heq, hdig⟩)
      rw [heq] at h
      omega

end Numerals

end LibBson.Library
