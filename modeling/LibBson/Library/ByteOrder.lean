import LibBson.Library.BigEndian
import Mathlib.Data.List.Infix
import Mathlib.Data.List.Lex
import Mathlib.Order.Defs.LinearOrder

/-!
# memcmp and the dictionary order

`memcmp` over the common part of two octet strings decides their dictionary order,
unless one of them is a prefix of the other.
-/

set_option autoImplicit false

namespace LibBson.Library

/-- An octet string as a word of the dictionary order. -/
def dictionary (xs : Bytes) : List Nat := xs.map UInt8.toNat

theorem dictionary_injective {xs ys : Bytes} (h : dictionary xs = dictionary ys) : xs = ys :=
  List.map_injective_iff.mpr (fun _ _ => UInt8.toNat_inj.mp) h

/-- The two arguments exchanged. -/
theorem memcmp_swap (xs ys : Bytes) : memcmp ys xs = -memcmp xs ys := by
  induction xs generalizing ys with
  | nil => cases ys <;> rfl
  | cons x xs ih =>
    cases ys with
    | nil => rfl
    | cons y ys =>
      rw [memcmp, memcmp]
      by_cases heq : x = y
      · rw [if_pos heq, if_pos heq.symm, ih]
      · rw [if_neg heq, if_neg (Ne.symm heq)]
        omega

/-- Only the common part of the arguments is read. -/
theorem memcmp_take (xs ys : Bytes) {n : Nat} (h : n = min xs.length ys.length) :
    memcmp (xs.take n) (ys.take n) = memcmp xs ys := by
  induction xs generalizing ys n with
  | nil =>
    subst h
    cases ys <;> rfl
  | cons x xs ih =>
    cases ys with
    | nil =>
      subst h
      rfl
    | cons y ys =>
      rw [List.length_cons, List.length_cons, Nat.add_min_add_right] at h
      subst h
      rw [List.take_succ_cons, List.take_succ_cons, memcmp, memcmp, ih ys rfl]

theorem memcmp_zero {xs ys : Bytes} (h : memcmp xs ys = 0) : xs <+: ys ∨ ys <+: xs := by
  induction xs generalizing ys with
  | nil => exact Or.inl List.nil_prefix
  | cons x xs ih =>
    cases ys with
    | nil => exact Or.inr List.nil_prefix
    | cons y ys =>
      rw [memcmp] at h
      by_cases heq : x = y
      · subst heq
        rw [if_pos rfl] at h
        rcases ih h with hpre | hpre
        · exact Or.inl (List.cons_prefix_cons.mpr ⟨rfl, hpre⟩)
        · exact Or.inr (List.cons_prefix_cons.mpr ⟨rfl, hpre⟩)
      · rw [if_neg heq] at h
        have hne : x.toNat ≠ y.toNat := fun e => heq (UInt8.toNat_inj.mp e)
        omega

theorem memcmp_of_start {xs ys : Bytes} (h : xs <+: ys) : memcmp xs ys = 0 := by
  obtain ⟨zs, rfl⟩ := h
  induction xs with
  | nil => cases zs <;> rfl
  | cons x xs ih => rw [List.cons_append, memcmp, if_pos rfl, ih]

theorem dictionary_of_memcmp {xs ys : Bytes} (h : memcmp xs ys < 0) :
    dictionary xs < dictionary ys := by
  induction xs generalizing ys with
  | nil => cases ys <;> cases h
  | cons x xs ih =>
    cases ys with
    | nil => cases h
    | cons y ys =>
      rw [memcmp] at h
      rw [dictionary, dictionary, List.map_cons, List.map_cons, List.cons_lt_cons_iff]
      by_cases heq : x = y
      · rw [if_pos heq] at h
        exact Or.inr ⟨congrArg UInt8.toNat heq, ih h⟩
      · rw [if_neg heq] at h
        exact Or.inl (by omega)

/-- A proper prefix stands in front. -/
theorem dictionary_lt_of_start {xs ys : Bytes} (h : xs <+: ys) (hlt : xs.length < ys.length) :
    dictionary xs < dictionary ys := by
  obtain ⟨zs, rfl⟩ := h
  induction xs with
  | nil =>
    cases zs with
    | nil => exact absurd hlt (Nat.lt_irrefl _)
    | cons z zs => exact List.nil_lt_cons _ _
  | cons x xs ih =>
    rw [List.cons_append, dictionary, dictionary, List.map_cons, List.map_cons,
      List.cons_lt_cons_iff]
    rw [List.cons_append, List.length_cons, List.length_cons] at hlt
    exact Or.inr ⟨rfl, ih (Nat.lt_of_succ_lt_succ hlt)⟩

end LibBson.Library
