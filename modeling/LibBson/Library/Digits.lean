import LibBson.Library.Ascii
import Mathlib.Data.List.Basic
import Mathlib.Algebra.Ring.Nat
import Mathlib.Tactic.Ring

/-!
# Decimal digit strings

Digits are numbers below ten, the most significant first. `ofDigits` is the
number a digit string stands for, `decimals n v` the last `n` digits of `v`.
-/

set_option autoImplicit false

namespace LibBson.Library

/-- There is a digit `0`. -/
instance instNeZeroTen : NeZero 10 := ⟨by decide⟩

def ofDigits (ds : List (Fin 10)) : Nat := ds.foldl (fun n d => n * 10 + d.val) 0

/-- The last `n` digits of `v`. -/
def decimals : Nat → Nat → List (Fin 10)
  | 0, _ => []
  | n + 1, v => decimals n (v / 10) ++ [⟨v % 10, Nat.mod_lt _ (by decide)⟩]

@[simp] theorem ofDigits_nil : ofDigits [] = 0 := rfl

theorem foldl_ofDigits (ds : List (Fin 10)) (n : Nat) :
    ds.foldl (fun n d => n * 10 + d.val) n = n * 10 ^ ds.length + ofDigits ds := by
  induction ds generalizing n with
  | nil => simp
  | cons d ds ih =>
    have hd := ih d
    have hn := ih (n * 10 + d)
    simp only [List.foldl_cons, List.length_cons, ofDigits, Nat.zero_mul, Nat.zero_add] at hd hn ⊢
    rw [hn, hd, Nat.pow_succ]
    ring

theorem ofDigits_append (xs ys : List (Fin 10)) :
    ofDigits (xs ++ ys) = ofDigits xs * 10 ^ ys.length + ofDigits ys := by
  unfold ofDigits
  rw [List.foldl_append, foldl_ofDigits]
  rfl

theorem ofDigits_cons (d : Fin 10) (ds : List (Fin 10)) :
    ofDigits (d :: ds) = d * 10 ^ ds.length + ofDigits ds := by
  simpa [ofDigits] using ofDigits_append [d] ds

theorem ofDigits_concat (ds : List (Fin 10)) (d : Fin 10) :
    ofDigits (ds ++ [d]) = ofDigits ds * 10 + d := by
  simp [ofDigits]

theorem ofDigits_lt (ds : List (Fin 10)) : ofDigits ds < 10 ^ ds.length := by
  induction ds with
  | nil => decide
  | cons d ds ih =>
    have hd : (d : Nat) ≤ 9 := by omega
    have hm := Nat.mul_le_mul_right (10 ^ ds.length) hd
    rw [ofDigits_cons, List.length_cons, Nat.pow_succ]
    omega

@[simp] theorem ofDigits_replicate (n : Nat) : ofDigits (List.replicate n 0) = 0 := by
  induction n with
  | zero => rfl
  | succ n ih => simp [List.replicate_succ, ofDigits_cons, ih]

/-- A digit string in front of which there is no zero fills its length. -/
theorem le_ofDigits {d : Fin 10} (hd : d ≠ 0) (ds : List (Fin 10)) :
    10 ^ ds.length ≤ ofDigits (d :: ds) := by
  have h1 : 1 ≤ (d : Nat) := by
    rw [Nat.one_le_iff_ne_zero]
    intro h
    exact hd (Fin.ext h)
  have hm := Nat.mul_le_mul_right (10 ^ ds.length) h1
  rw [ofDigits_cons]
  omega

theorem ofDigits_eq_zero {ds : List (Fin 10)} :
    ofDigits ds = 0 ↔ ds = List.replicate ds.length 0 := by
  induction ds with
  | nil => simp
  | cons d ds ih =>
    have hp : 0 < 10 ^ ds.length := Nat.pow_pos (by decide)
    rw [ofDigits_cons, List.length_cons, List.replicate_succ]
    constructor
    · intro h
      have hd : (d : Nat) = 0 := by
        by_contra hne
        have := Nat.mul_pos (Nat.pos_of_ne_zero hne) hp
        omega
      have h0 : d = 0 := Fin.ext hd
      rw [h0, ← ih.mp (by omega)]
    · intro h
      obtain ⟨hd, hds⟩ := List.cons.inj h
      rw [ih.mpr hds, hd]
      simp

/-- Zeros at the end are a power of ten. -/
theorem ofDigits_take {ds : List (Fin 10)} {m : Nat} (hm : m ≤ ds.length)
    (h : ∀ i, m ≤ i → ds.getD i 0 = 0) :
    ofDigits ds = ofDigits (ds.take m) * 10 ^ (ds.length - m) := by
  have hdrop : ds.drop m = List.replicate (ds.length - m) 0 := by
    apply List.ext_getElem (by simp)
    intro i h1 h2
    have hi := h (m + i) (by omega)
    rw [List.length_drop] at h1
    rw [List.getD_eq_getElem?_getD, List.getElem?_eq_getElem (by omega)] at hi
    rw [List.getElem_drop, List.getElem_replicate]
    exact hi
  conv_lhs => rw [← List.take_append_drop m ds]
  rw [ofDigits_append, hdrop, ofDigits_replicate, List.length_replicate, Nat.add_zero]

/-- A power of ten that divides the number stands at its end. -/
theorem zeros_of_dvd {ds : List (Fin 10)} {j : Nat} (hj : j ≤ ds.length)
    (h : 10 ^ j ∣ ofDigits ds) : ∀ i, ds.length - j ≤ i → ds.getD i 0 = 0 := by
  have hlen : (ds.drop (ds.length - j)).length = j := by
    rw [List.length_drop]
    omega
  have hsum : ofDigits ds =
      ofDigits (ds.take (ds.length - j)) * 10 ^ j + ofDigits (ds.drop (ds.length - j)) := by
    conv_lhs => rw [← List.take_append_drop (ds.length - j) ds]
    rw [ofDigits_append, hlen]
  have hlt := ofDigits_lt (ds.drop (ds.length - j))
  rw [hlen] at hlt
  rw [hsum, Nat.dvd_add_right (Nat.dvd_mul_left _ _)] at h
  have hzero : ofDigits (ds.drop (ds.length - j)) = 0 := Nat.eq_zero_of_dvd_of_lt h hlt
  rw [ofDigits_eq_zero, hlen] at hzero
  intro i hi
  obtain ⟨k, rfl⟩ : ∃ k, i = ds.length - j + k := ⟨i - (ds.length - j), by omega⟩
  rw [List.getD_eq_getElem?_getD, ← List.getElem?_drop, hzero]
  by_cases hk : k < j
  · simp [hk]
  · simp [hk]

@[simp] theorem decimals_length (n v : Nat) : (decimals n v).length = n := by
  induction n generalizing v with
  | zero => rfl
  | succ n ih => simp [decimals, ih]

theorem ofDigits_decimals (n v : Nat) : ofDigits (decimals n v) = v % 10 ^ n := by
  induction n generalizing v with
  | zero => simp [decimals, Nat.mod_one]
  | succ n ih =>
    rw [decimals, ofDigits_concat, ih, Nat.pow_succ, Nat.mul_comm (10 ^ n) 10, Nat.mod_mul]
    show _ + v % 10 = _
    omega

theorem ofDigits_decimals_of_lt {n v : Nat} (h : v < 10 ^ n) : ofDigits (decimals n v) = v := by
  rw [ofDigits_decimals, Nat.mod_eq_of_lt h]

theorem decimals_add (m n v : Nat) :
    decimals (m + n) v = decimals m (v / 10 ^ n) ++ decimals n v := by
  induction n generalizing v with
  | zero => simp [decimals]
  | succ n ih =>
    rw [← Nat.add_assoc, decimals, ih, decimals, List.append_assoc, Nat.div_div_eq_div_mul,
      Nat.pow_succ, Nat.mul_comm (10 ^ n) 10]

theorem decimals_mod (n v : Nat) : decimals n (v % 10 ^ n) = decimals n v := by
  induction n generalizing v with
  | zero => rfl
  | succ n ih =>
    have hdiv : v % 10 ^ (n + 1) / 10 = v / 10 % 10 ^ n := by
      rw [Nat.pow_succ, Nat.mul_comm, Nat.mod_mul_right_div_self]
    have hmod : v % 10 ^ (n + 1) % 10 = v % 10 :=
      Nat.mod_mod_of_dvd _ ⟨10 ^ n, by rw [Nat.pow_succ, Nat.mul_comm]⟩
    simp only [decimals, hdiv, hmod, ih (v / 10)]

@[simp] theorem decimals_zero (n : Nat) : decimals n 0 = List.replicate n 0 := by
  induction n with
  | zero => rfl
  | succ n ih =>
    rw [decimals, Nat.zero_div, ih, List.replicate_succ']
    rfl

end LibBson.Library
