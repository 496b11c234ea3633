import LibBson.Library.Digits
import Mathlib.Data.Rat.Defs
import Mathlib.Algebra.Order.Field.Rat
import Mathlib.Tactic.NormNum.Ineq

/-!
# Decimal values, their 128-bit patterns and their texts

`bidValue` reads a pattern as IEEE 754-2008 does in the binary integer decimal
encoding. A `Numeral` is a text `[+-]digits[.digits][E[+-]digits]` taken apart.
-/

set_option autoImplicit false

namespace LibBson.Spec
open LibBson.Library

inductive Decimal where
  | finite (negative : Bool) (coefficient : Nat) (exponent : Int)
  | infinity (negative : Bool)
  | nan
  deriving DecidableEq

/-- The `width` bits of a pattern from the bit `lo` on. -/
def bits (pattern lo width : Nat) : Nat := pattern / 2 ^ lo % 2 ^ width

/-- Biased exponent and coefficient, in the two layouts of a finite number. -/
def bidFields (pattern : Nat) : Nat × Nat :=
  if bits pattern 125 2 = 3 then
    (bits pattern 111 14, (8 + bits pattern 110 1) * 2 ^ 110 + bits pattern 0 110)
  else (bits pattern 113 14, bits pattern 0 113)

/-- The largest coefficient and one. -/
def coefficientLimit : Nat := 10 ^ 34

def bidValue (pattern : Nat) : Decimal :=
  let negative := bits pattern 127 1 == 1
  if bits pattern 122 5 = 31 then .nan
  else if bits pattern 122 5 = 30 then .infinity negative
  else
    let (biased, coefficient) := bidFields pattern
    .finite negative (if coefficient < coefficientLimit then coefficient else 0)
      ((biased : Int) - 6176)

/-! ## Numerals -/

def digitText (ds : List (Fin 10)) : Bytes := ds.map fun d => digit d.val

def signText : Option Bool → Bytes
  | none => []
  | some true => [45]
  | some false => [43]

structure ExponentPart where
  lower : Bool
  sign : Option Bool
  digits : List (Fin 10)
  nonempty : digits ≠ []

namespace ExponentPart

def text (e : ExponentPart) : Bytes :=
  (if e.lower then 101 else 69) :: (signText e.sign ++ digitText e.digits)

def value (e : ExponentPart) : Int :=
  if e.sign = some true then -(ofDigits e.digits : Int) else ofDigits e.digits

end ExponentPart

structure Numeral where
  sign : Option Bool
  whole : List (Fin 10)
  fraction : Option (List (Fin 10))
  exponent : Option ExponentPart
  nonempty : whole ++ fraction.getD [] ≠ []

namespace Numeral

def fractionText : Option (List (Fin 10)) → Bytes
  | none => []
  | some ds => 46 :: digitText ds

def exponentText : Option ExponentPart → Bytes
  | none => []
  | some e => e.text

def text (n : Numeral) : Bytes :=
  signText n.sign ++ (digitText n.whole ++ (fractionText n.fraction ++ exponentText n.exponent))

def digits (n : Numeral) : List (Fin 10) := n.whole ++ n.fraction.getD []

def negative (n : Numeral) : Bool := n.sign == some true

/-- The number behind `E`, zero where there is none. -/
def power (n : Numeral) : Int := n.exponent.elim 0 ExponentPart.value

/-- The power of ten the digits count. -/
def scale (n : Numeral) : Int := n.power - (n.fraction.getD []).length

def value (n : Numeral) : Decimal := .finite n.negative (ofDigits n.digits) n.scale

/-- The number without its sign. -/
def magnitude (n : Numeral) : ℚ := ofDigits n.digits * 10 ^ n.scale

end Numeral

def exponentMin : Int := -6176
def exponentMax : Int := 6111

/-- The nearest exponent there is. -/
def clampExponent (x : Int) : Int := max (min x exponentMax) exponentMin

/-- Some coefficient and exponent of a decimal128 have the value. -/
def Representable (q : ℚ) : Prop :=
  ∃ (c : Nat) (x : Int), c < coefficientLimit ∧ exponentMin ≤ x ∧ x ≤ exponentMax ∧
    (c : ℚ) * 10 ^ x = q

/-- The pattern stands for the numeral: its value and sign, and of a zero the exponent, clamped. -/
def StandsFor (pattern : Nat) (n : Numeral) : Prop :=
  ∃ (c : Nat) (x : Int), bidValue pattern = .finite n.negative c x ∧
    (c : ℚ) * 10 ^ x = n.magnitude ∧ (ofDigits n.digits = 0 → x = clampExponent n.scale)

/-- The text denotes the value: sign, coefficient and exponent. -/
inductive Denotes : Bytes → Decimal → Prop where
  | numeral (n : Numeral) : Denotes n.text n.value
  | infinity (negative : Bool) :
    Denotes ((if negative then [45] else []) ++ ascii "Infinity") (.infinity negative)
  | nan : Denotes (ascii "NaN") .nan

/-- Equal values, with the smaller exponent's coefficient the larger one. -/
theorem scaled_eq_iff {c v : Nat} {y x : Int} :
    (c : ℚ) * 10 ^ y = v * 10 ^ x ↔
      (y ≤ x ∧ c = v * 10 ^ (x - y).toNat) ∨ (x < y ∧ v = c * 10 ^ (y - x).toNat) := by
  have shift : ∀ {a b : Nat} {p q : Int}, p ≤ q →
      ((a : ℚ) * 10 ^ p = b * 10 ^ q ↔ a = b * 10 ^ (q - p).toNat) := by
    intro a b p q hpq
    have hp : (10 : ℚ) ^ p ≠ 0 := zpow_ne_zero _ (by norm_num)
    have hq : (10 : ℚ) ^ q = 10 ^ (q - p).toNat * 10 ^ p := by
      rw [← zpow_natCast, ← zpow_add₀ (by norm_num), Int.toNat_of_nonneg (by omega),
        Int.sub_add_cancel]
    rw [hq, ← mul_assoc, mul_left_inj' hp]
    exact_mod_cast Iff.rfl
  rcases Int.lt_or_le x y with hlt | hle
  · rw [eq_comm, shift (Int.le_of_lt hlt)]
    constructor
    · intro h
      exact Or.inr ⟨hlt, h⟩
    · rintro (⟨h, -⟩ | ⟨-, h⟩)
      · omega
      · exact h
  · rw [shift hle]
    constructor
    · intro h
      exact Or.inl ⟨hle, h⟩
    · rintro (⟨-, h⟩ | ⟨h, -⟩)
      · exact h
      · omega

/-! ## A text is one numeral -/

theorem digit_toNat (d : Fin 10) : (digit d.val).toNat = 48 + d.val := by
  revert d
  decide

theorem digit_injective {c d : Fin 10} (h : digit c.val = digit d.val) : c = d := by
  have hn := congrArg UInt8.toNat h
  rw [digit_toNat, digit_toNat] at hn
  exact Fin.ext (by omega)

/-- The octet is no digit. -/
def NotDigit (c : UInt8) : Prop := c.toNat < 48 ∨ 57 < c.toNat

instance (c : UInt8) : Decidable (NotDigit c) := by unfold NotDigit; infer_instance

theorem digit_ne {c : UInt8} (h : NotDigit c) (d : Fin 10) : digit d.val ≠ c := by
  intro hc
  have hd := digit_toNat d
  rw [hc] at hd
  unfold NotDigit at h
  omega

/-- Digits in front of something else are one digit string only. -/
theorem digitText_append_inj {xs ys : List (Fin 10)} {r t : Bytes}
    (hr : ∀ c ∈ r.head?, NotDigit c) (ht : ∀ c ∈ t.head?, NotDigit c)
    (h : digitText xs ++ r = digitText ys ++ t) : xs = ys ∧ r = t := by
  induction xs generalizing ys with
  | nil =>
    cases ys with
    | nil => exact ⟨rfl, h⟩
    | cons y ys =>
      have hh : r = digit y.val :: (digitText ys ++ t) := h
      exact absurd rfl (digit_ne (hr _ (by rw [hh]; rfl)) y)
  | cons x xs ih =>
    cases ys with
    | nil =>
      have hh : t = digit x.val :: (digitText xs ++ r) := h.symm
      exact absurd rfl (digit_ne (ht _ (by rw [hh]; rfl)) x)
    | cons y ys =>
      obtain ⟨hd, hs⟩ := List.cons.inj h
      obtain ⟨hxs, hrt⟩ := ih hs
      exact ⟨by rw [digit_injective hd, hxs], hrt⟩

/-- A sign in front of what begins with none is one sign only. -/
theorem signText_append_inj {s s' : Option Bool} {r t : Bytes}
    (hr : ∀ c ∈ r.head?, c ≠ 43 ∧ c ≠ 45) (ht : ∀ c ∈ t.head?, c ≠ 43 ∧ c ≠ 45)
    (h : signText s ++ r = signText s' ++ t) : s = s' ∧ r = t := by
  have key : ∀ (b : Bool) (u v : Bytes), (∀ c ∈ v.head?, c ≠ 43 ∧ c ≠ 45) →
      signText (some b) ++ u ≠ v := by
    intro b u v hv e
    cases b with
    | true => exact (hv 45 (by rw [← e]; rfl)).2 rfl
    | false => exact (hv 43 (by rw [← e]; rfl)).1 rfl
  cases s with
  | none =>
    cases s' with
    | none => exact ⟨rfl, h⟩
    | some b => exact absurd h.symm (key b t r hr)
  | some a =>
    cases s' with
    | none => exact absurd h (key a r t ht)
    | some b =>
      obtain ⟨hc, hs⟩ := List.cons.inj (show (if a then 45 else 43) :: r =
        (if b then 45 else 43) :: t by cases a <;> cases b <;> exact h)
      cases a <;> cases b <;> first | exact ⟨rfl, hs⟩ | exact absurd hc (by decide)

theorem ExponentPart.text_injective {e f : ExponentPart} (h : e.text = f.text) : e = f := by
  have head : ∀ (ds : List (Fin 10)), ∀ c ∈ (digitText ds).head?, c ≠ 43 ∧ c ≠ 45 := by
    intro ds c hc
    cases ds with
    | nil => simp [digitText] at hc
    | cons d ds =>
      obtain rfl : digit d.val = c := by simpa [digitText] using hc
      exact ⟨digit_ne (by decide) d, digit_ne (by decide) d⟩
  obtain ⟨hc, hs⟩ := List.cons.inj h
  obtain ⟨hsign, hd⟩ := signText_append_inj (head e.digits) (head f.digits) hs
  have hdd := (digitText_append_inj (r := []) (t := []) (by simp) (by simp)
    (by simpa using hd)).1
  obtain ⟨el, es, ed, _⟩ := e
  obtain ⟨fl, fs, fd, _⟩ := f
  dsimp only at hc hsign hdd
  subst hsign hdd
  have hl : el = fl := by cases el <;> cases fl <;> simp_all
  rw [hl]

namespace Numeral

theorem notDigit_exponentText (e : Option ExponentPart) :
    ∀ c ∈ (exponentText e).head?, NotDigit c ∧ c ≠ 46 := by
  intro c hc
  cases e with
  | none => simp [exponentText] at hc
  | some e =>
    obtain rfl : (if e.lower then 101 else 69) = c := by
      simpa [exponentText, ExponentPart.text] using hc
    cases e.lower <;> decide

theorem notDigit_fraction (f : Option (List (Fin 10))) (e : Option ExponentPart) :
    ∀ c ∈ (fractionText f ++ exponentText e).head?, NotDigit c := by
  intro c hc
  cases f with
  | none => exact (notDigit_exponentText e c hc).1
  | some ds =>
    obtain rfl : 46 = c := by simpa [fractionText] using hc
    decide

/-- Digits or a radix: what follows the sign. -/
theorem head_mantissa (n : Numeral) :
    ∃ c rest, digitText n.whole ++ (fractionText n.fraction ++ exponentText n.exponent) =
      c :: rest ∧ (c = 46 ∨ ¬ NotDigit c) := by
  cases hw : n.whole with
  | cons d ds =>
    refine ⟨digit d.val, _, rfl, Or.inr ?_⟩
    intro h
    exact digit_ne h d rfl
  | nil =>
    cases hf : n.fraction with
    | none => exact absurd (by simp [hw, hf]) n.nonempty
    | some ds => exact ⟨46, _, rfl, Or.inl rfl⟩

theorem mantissa_ne_sign (n : Numeral) :
    ∀ c ∈ (digitText n.whole ++ (fractionText n.fraction ++ exponentText n.exponent)).head?,
      c ≠ 43 ∧ c ≠ 45 := by
  obtain ⟨b, rest, h, hb⟩ := n.head_mantissa
  intro c hc
  obtain rfl : b = c := by simpa [h] using hc
  obtain rfl | hb := hb
  · decide
  · constructor <;> intro e <;> subst e <;> exact hb (by decide)

theorem exponentText_injective {e f : Option ExponentPart}
    (h : exponentText e = exponentText f) : e = f := by
  cases e <;> cases f
  case none.none => rfl
  case none.some f => exact absurd h (by simp [exponentText, ExponentPart.text])
  case some.none e => exact absurd h (by simp [exponentText, ExponentPart.text])
  case some.some e f => rw [ExponentPart.text_injective h]

theorem fraction_injective {f f' : Option (List (Fin 10))} {e e' : Option ExponentPart}
    (h : fractionText f ++ exponentText e = fractionText f' ++ exponentText e') :
    f = f' ∧ e = e' := by
  have radix : ∀ (ds : List (Fin 10)) (e e' : Option ExponentPart),
      fractionText (some ds) ++ exponentText e ≠ exponentText e' := by
    intro ds e e' heq
    exact (notDigit_exponentText e' 46 (by rw [← heq]; rfl)).2 rfl
  cases f with
  | none =>
    cases f' with
    | none => exact ⟨rfl, exponentText_injective h⟩
    | some ds' => exact absurd h.symm (radix ds' e' e)
  | some ds =>
    cases f' with
    | none => exact absurd h (radix ds e e')
    | some ds' =>
      obtain ⟨hds, he⟩ := digitText_append_inj
        (fun c hc => (notDigit_exponentText e c hc).1)
        (fun c hc => (notDigit_exponentText e' c hc).1) (List.cons.inj h).2
      exact ⟨by rw [hds], exponentText_injective he⟩

theorem text_injective {m n : Numeral} (h : m.text = n.text) : m = n := by
  obtain ⟨hs, hm⟩ := signText_append_inj m.mantissa_ne_sign n.mantissa_ne_sign h
  obtain ⟨hw, hr⟩ := digitText_append_inj (notDigit_fraction _ _) (notDigit_fraction _ _) hm
  obtain ⟨hf, he⟩ := fraction_injective hr
  obtain ⟨ms, mw, mf, me, _⟩ := m
  obtain ⟨ns, nw, nf, ne, _⟩ := n
  dsimp only at hs hw hf he
  subst hs hw hf he
  rfl

/-- What follows the sign is no letter. -/
theorem text_ne_letters (n : Numeral) (s : Option Bool) {c : UInt8} (rest : Bytes)
    (hc : NotDigit c) (h46 : c ≠ 46) (hsign : c ≠ 43 ∧ c ≠ 45) :
    n.text ≠ signText s ++ c :: rest := by
  intro h
  obtain ⟨b, rest', hb, hcase⟩ := n.head_mantissa
  have hm := (signText_append_inj n.mantissa_ne_sign
    (t := c :: rest) (by simpa using hsign) h).2
  rw [hb] at hm
  obtain ⟨rfl, -⟩ := List.cons.inj hm
  obtain h | h := hcase
  · exact h46 h
  · exact h hc

end Numeral

/-- A text denotes at most one value. -/
theorem Denotes.unique {s : Bytes} {v w : Decimal} (hv : Denotes s v) (hw : Denotes s w) :
    v = w := by
  have number : ∀ (n : Numeral) (u : Decimal), Denotes n.text u → u = n.value := by
    intro n u hu
    generalize hs : n.text = s at hu
    cases hu with
    | numeral m => rw [Numeral.text_injective hs]
    | infinity negative =>
      cases negative
      · exact absurd hs (n.text_ne_letters none _ (by decide) (by decide) (by decide))
      · exact absurd hs (n.text_ne_letters (some true) _ (by decide) (by decide) (by decide))
    | nan => exact absurd hs (n.text_ne_letters none _ (by decide) (by decide) (by decide))
  cases hv with
  | numeral n => exact (number n w hw).symm
  | infinity negative =>
    generalize hs : (if negative then [45] else []) ++ ascii "Infinity" = s at hw
    cases hw with
    | numeral n => exact number n _ (hs ▸ Denotes.infinity negative)
    | infinity negative' =>
      cases negative <;> cases negative' <;> first | rfl | exact absurd hs (by decide)
    | nan => cases negative <;> exact absurd hs (by decide)
  | nan =>
    generalize hs : ascii "NaN" = s at hw
    cases hw with
    | numeral n => exact number n _ (hs ▸ Denotes.nan)
    | infinity negative => cases negative <;> exact absurd hs (by decide)
    | nan => rfl

end LibBson.Spec
