import LibBson.Library.Ascii
import LibBson.Library.BigEndian
import Mathlib.Data.List.Induction

/-!
# Base 64

A row of digits stands for the octets its bits fill: six bits a digit, eight bits an
octet, most significant first, the bits left over dropped. A text is the characters of
the digits and the padding to a multiple of four.
-/

set_option autoImplicit false

namespace LibBson.Library.Base64

abbrev Digits := List (Fin 64)

/-- The number the digits are in base 64. -/
def value (ds : Digits) : Nat := ds.foldl (fun (v : Nat) (d : Fin 64) => 64 * v + d.val) 0

/-- The octets the bits of the digits fill. -/
def octets (ds : Digits) : Bytes :=
  beBytes (6 * ds.length / 8) (value ds / 2 ^ (6 * ds.length % 8))

/-- The `k` digits of `v`. -/
def digits : Nat → Nat → Digits
  | 0, _ => []
  | k + 1, v => digits k (v / 64) ++ [⟨v % 64, Nat.mod_lt v (by decide)⟩]

/-- The digits it takes for `n` octets. -/
def digitCount (n : Nat) : Nat := (8 * n + 5) / 6

/-- The digits of octets, zero bits behind them. -/
def sextets (bs : Bytes) : Digits :=
  digits (digitCount bs.length) (beNat bs * 2 ^ (6 * digitCount bs.length - 8 * bs.length))

/-- The character of a digit: the letters, the numerals, `+` and `/`. -/
def char (d : Fin 64) : UInt8 :=
  UInt8.ofNat
    (if d.val < 26 then d.val + 65
    else if d.val < 52 then d.val + 71
    else if d.val < 62 then d.val - 4
    else if d.val = 62 then 43
    else 47)

def padding (k : Nat) : Bytes := List.replicate ((4 - k % 4) % 4) 61

def text (ds : Digits) : Bytes := ds.map char ++ padding ds.length

example : text (sextets (ascii "Mango")) = ascii "TWFuZ28=" := by decide

/-! ## Values -/

@[simp] theorem value_nil : value [] = 0 := rfl

@[simp] theorem value_append_one (ds : Digits) (d : Fin 64) :
    value (ds ++ [d]) = 64 * value ds + d := by
  rw [value, List.foldl_append]
  rfl

@[simp] theorem digits_length (k v : Nat) : (digits k v).length = k := by
  induction k generalizing v with
  | zero => rfl
  | succ k ih => rw [digits, List.length_append, ih, List.length_singleton]

theorem value_digits (k v : Nat) : value (digits k v) = v % 64 ^ k := by
  induction k generalizing v with
  | zero => rw [digits, value_nil, Nat.pow_zero, Nat.mod_one]
  | succ k ih =>
    rw [digits, value_append_one, ih, Nat.pow_succ, Nat.mul_comm (64 ^ k), Nat.mod_mul,
      Nat.add_comm]

theorem value_lt (ds : Digits) : value ds < 64 ^ ds.length := by
  induction ds using List.reverseRecOn with
  | nil => exact Nat.one_pos
  | append_singleton ds d ih =>
    have hd := d.isLt
    rw [value_append_one, List.length_append, List.length_singleton, Nat.pow_succ]
    omega

/-- Rows of one length are equal when their numbers are. -/
theorem value_inj {ds es : Digits} (hlength : ds.length = es.length) (h : value ds = value es) :
    ds = es := by
  induction ds using List.reverseRecOn generalizing es with
  | nil => exact (List.length_eq_zero_iff.mp hlength.symm).symm
  | append_singleton ds d ih =>
    obtain ⟨es, e, rfl⟩ : ∃ es' e, es = es' ++ [e] := by
      have hne : es ≠ [] := by
        rintro rfl
        simp at hlength
      exact ⟨es.dropLast, es.getLast hne, (List.dropLast_append_getLast hne).symm⟩
    rw [value_append_one, value_append_one] at h
    simp only [List.length_append, List.length_singleton, Nat.add_right_cancel_iff] at hlength
    have hd := d.isLt
    have he := e.isLt
    have hlast : d = e := Fin.ext (by omega)
    rw [ih hlength (by omega), hlast]

theorem digits_add (j k v : Nat) : digits (j + k) v = digits j (v / 64 ^ k) ++ digits k v := by
  induction k generalizing v with
  | zero => rw [Nat.pow_zero, Nat.div_one, digits, List.append_nil, Nat.add_zero]
  | succ k ih =>
    rw [← Nat.add_assoc, digits, ih, Nat.div_div_eq_div_mul, ← Nat.pow_succ', digits,
      List.append_assoc]

theorem digits_congr {k v w : Nat} (h : v % 64 ^ k = w % 64 ^ k) : digits k v = digits k w :=
  value_inj (by rw [digits_length, digits_length]) (by rw [value_digits, value_digits, h])

/-- What stands above and below the lowest `k` digits. -/
theorem digits_split (j k x : Nat) {y : Nat} (h : y < 64 ^ k) :
    digits (j + k) (x * 64 ^ k + y) = digits j x ++ digits k y := by
  have hpos : 0 < 64 ^ k := Nat.pow_pos (by decide)
  have hdiv : (x * 64 ^ k + y) / 64 ^ k = x := by
    rw [Nat.mul_comm, Nat.mul_add_div hpos, Nat.div_eq_of_lt h, Nat.add_zero]
  have hmod : (x * 64 ^ k + y) % 64 ^ k = y % 64 ^ k := by
    rw [Nat.add_comm, Nat.add_mul_mod_self_right]
  rw [digits_add, hdiv, digits_congr hmod]

/-! ## Octets and their digits -/

/-- The bits of `k` digits are those of `n` octets and `r` more. -/
theorem pow_bits {k n r : Nat} (h : 6 * k = 8 * n + r) : 64 ^ k = 256 ^ n * 2 ^ r := by
  rw [show (64 : Nat) = 2 ^ 6 from rfl, show (256 : Nat) = 2 ^ 8 from rfl, ← Nat.pow_mul,
    ← Nat.pow_mul, ← Nat.pow_add, h]

theorem digitCount_bits (n : Nat) :
    6 * digitCount n = 8 * n + (6 * digitCount n - 8 * n) ∧ 6 * digitCount n - 8 * n < 6 := by
  unfold digitCount
  omega

theorem beBytes_beNat (bs : Bytes) : beBytes bs.length (beNat bs) = bs :=
  beNat_inj (beBytes_length _ _) (by rw [beNat_beBytes, Nat.mod_eq_of_lt (beNat_lt bs)])

/-- The octets whose number is the one of the digits are the octets of the digits. -/
theorem octets_eq {ds : Digits} {bs : Bytes} (hlength : bs.length = 6 * ds.length / 8)
    (h : beNat bs = value ds / 2 ^ (6 * ds.length % 8)) : octets ds = bs := by
  rw [octets, ← hlength, ← h, beBytes_beNat]

theorem beNat_octets (ds : Digits) :
    beNat (octets ds) = value ds / 2 ^ (6 * ds.length % 8) := by
  have hlt := value_lt ds
  rw [pow_bits (show 6 * ds.length = 8 * (6 * ds.length / 8) + 6 * ds.length % 8 by omega),
    Nat.mul_comm] at hlt
  rw [octets, beNat_beBytes, Nat.mod_eq_of_lt (Nat.div_lt_of_lt_mul hlt)]

theorem sextets_length (bs : Bytes) : (sextets bs).length = digitCount bs.length :=
  digits_length _ _

/-- The digits of octets can be padded. -/
theorem sextets_count (bs : Bytes) : (sextets bs).length % 4 ≠ 1 := by
  obtain ⟨m, j, hm, hj⟩ : ∃ m j, bs.length = 3 * m + j ∧ j < 3 :=
    ⟨bs.length / 3, bs.length % 3, by omega, Nat.mod_lt _ (by decide)⟩
  rw [sextets_length, hm, digitCount]
  omega

theorem sextets_value (bs : Bytes) :
    value (sextets bs) = beNat bs * 2 ^ (6 * digitCount bs.length - 8 * bs.length) := by
  rw [sextets, value_digits, pow_bits (digitCount_bits bs.length).1]
  exact Nat.mod_eq_of_lt (Nat.mul_lt_mul_of_pos_right (beNat_lt bs) (Nat.pow_pos (by decide)))

/-- The octets of the digits of octets are the octets. -/
theorem octets_sextets (bs : Bytes) : octets (sextets bs) = bs := by
  have hcount : digitCount bs.length = (8 * bs.length + 5) / 6 := rfl
  have hleft : 6 * digitCount bs.length % 8 = 6 * digitCount bs.length - 8 * bs.length := by omega
  refine octets_eq ?_ ?_
  · rw [sextets_length]
    omega
  · rw [sextets_length, sextets_value, hleft, Nat.mul_div_cancel _ (Nat.pow_pos (by decide))]

/-- Three octets are four digits. -/
theorem sextets_three (a b c : UInt8) (bs : Bytes) :
    sextets (a :: b :: c :: bs) = digits 4 (beNat [a, b, c]) ++ sextets bs := by
  have hcount (n : Nat) : digitCount n = (8 * n + 5) / 6 := rfl
  have hlength : (a :: b :: c :: bs).length = 3 + bs.length := by
    simp only [List.length_cons]
    omega
  have hdigits : digitCount (3 + bs.length) = 4 + digitCount bs.length := by
    rw [hcount, hcount]
    omega
  have hrest : 6 * (4 + digitCount bs.length) - 8 * (3 + bs.length) =
      6 * digitCount bs.length - 8 * bs.length := by omega
  have hbits := (pow_bits (digitCount_bits bs.length).1).symm
  have hsmall : beNat bs * 2 ^ (6 * digitCount bs.length - 8 * bs.length) <
      64 ^ digitCount bs.length := by
    rw [← hbits]
    exact Nat.mul_lt_mul_of_pos_right (beNat_lt bs) (Nat.pow_pos (by decide))
  have hnumber : beNat (a :: b :: c :: bs) = beNat [a, b, c] * 256 ^ bs.length + beNat bs :=
    beNat_append [a, b, c] bs
  rw [sextets, hlength, hdigits, hrest, hnumber, Nat.add_mul, Nat.mul_assoc, hbits,
    digits_split _ _ _ hsmall, ← sextets]

/-- Four digits more do not change the padding. -/
theorem text_append {ds : Digits} (h : ds.length = 4) (es : Digits) :
    text (ds ++ es) = ds.map char ++ text es := by
  have hpadding : padding (ds ++ es).length = padding es.length := by
    rw [List.length_append, h, padding, padding, Nat.add_mod_left]
  rw [text, hpadding, List.map_append, List.append_assoc, ← text]

end LibBson.Library.Base64
