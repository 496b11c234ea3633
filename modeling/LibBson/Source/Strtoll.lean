import LibBson.Library.Numerals
import LibBson.Library.Word
import LibBson.Source.JsonText
import LibBson.Source.Jsonsl

/-!
# `bson_ascii_strtoll`

Source: bson-string.c:669-807, with the character classes of the C locale. A pointer into
the string is the text behind it, which a NUL ends; `endptr` is `*e` where it is assigned.
-/

set_option autoImplicit false

namespace LibBson.Source
open LibBson.Library

inductive Errno where
  | zero
  | einval
  | erange
  deriving DecidableEq

structure StrtollResult where
  value : Int
  errno : Errno
  endptr : Option Bytes
  deriving DecidableEq

def int64Min : Int := -9223372036854775808
def int64Max : Int := 9223372036854775807

/-- `isupper` -/
def isUpper (c : UInt8) : Bool := 65 ≤ c && c ≤ 90

/-- `isalpha` -/
def isAlpha (c : UInt8) : Bool := isUpper c || (97 ≤ c && c ≤ 122)

/-- A store to an `int64_t`. -/
def toInt64 (n : Int) : Int := i64 (ofInt64 n)

/-- What `c` becomes in the loop, `none` at the end of the number string. -/
def strtollDigit (c : UInt8) : Option Nat :=
  if isDigit c then some (c - 48).toNat
  else if isAlpha c then some (c - (if isUpper c then 65 - 10 else 97 - 10)).toNat
  else none

/-- `cutoff` and `cutlim` -/
def strtollCutoff (sign : Int) (base : Nat) : Int × Int :=
  let cutoff := if sign = -1 then int64Min else int64Max
  let cutlim := cutoff.tmod base
  let cutoff := cutoff.tdiv base
  if sign = -1 then
    if 0 < cutlim then (cutoff + 1, -(cutlim - base)) else (cutoff, -cutlim)
  else (cutoff, cutlim)

section Loop

variable (sign cutoff cutlim : Int) (base : Nat)

/-- The loop over the digits: the number, `errno` and `tok`. -/
def strtollLoop : Int → Bytes → Int × Errno × Bytes
  | number, [] => (number, .zero, [])
  | number, b :: rest =>
    if b = 0 then (number, .zero, b :: rest)
    else match strtollDigit b with
    | none => (number, .zero, b :: rest)
    | some c =>
      if base ≤ c then (number, .zero, b :: rest)
      else if sign = -1 then
        if number < cutoff ∨ (number = cutoff ∧ cutlim < c) then (int64Min, .erange, b :: rest)
        else strtollLoop (toInt64 (toInt64 (number * base) - c)) rest
      else if cutoff < number ∨ (number = cutoff ∧ cutlim < c) then
        (int64Max, .erange, b :: rest)
      else strtollLoop (toInt64 (toInt64 (number * base) + c)) rest

end Loop

/-- The sign, and what stands behind it. -/
def strtollSign (tok : Bytes) : Option (Int × Bytes) :=
  if tok.headD 0 = 45 then some (-1, tok.tail)
  else if tok.headD 0 = 43 then some (1, tok.tail)
  else if isDigit (tok.headD 0) then some (1, tok)
  else none

/-- The base, and where the digits are to start. -/
def strtollBase (base : Nat) (tok : Bytes) : Nat × Bytes :=
  if (base = 0 ∨ base = 16) ∧ tok.headD 0 = 48 ∧ (tok.getD 1 0 = 120 ∨ tok.getD 1 0 = 88) then
    (16, tok.drop 2)
  else if base = 0 then (if tok.headD 0 = 48 then 8 else 10, tok)
  else (base, tok)

/-- What comes behind the sign. -/
def strtollUnsigned (sign : Int) (base : Nat) (tok : Bytes) : StrtollResult :=
  let (base, digitsStart) := strtollBase base tok
  let (cutoff, cutlim) := strtollCutoff sign base
  let (number, errno, tok) := strtollLoop sign cutoff cutlim base 0 digitsStart
  -- did we parse any digits at all?
  { value := number
    errno := errno
    endptr := if tok.length < digitsStart.length then some tok else none }

def bsonAsciiStrtoll (s : Option Bytes) (base : Nat) : StrtollResult :=
  match s with
  | none => { value := 0, errno := .einval, endptr := none }
  | some s =>
    match strtollSign (s.dropWhile isSpace) with
    | none => { value := 0, errno := .einval, endptr := none }
    | some (sign, tok) => strtollUnsigned sign base tok

example : bsonAsciiStrtoll (some (ascii "   -0x1fG")) 0 = ⟨-31, .zero, some (ascii "G")⟩ := by
  decide +kernel

/-! ## The loop -/

/-- The digits of the loop are those of the numeral. -/
theorem strtollDigit_eq (b : UInt8) : strtollDigit b = digitValue b := by
  have hall : ∀ n : Fin 256, strtollDigit (UInt8.ofNat n) = digitValue (UInt8.ofNat n) := by
    decide +kernel
  have hb := hall ⟨b.toNat, b.toNat_lt⟩
  rwa [UInt8.ofNat_toNat] at hb

theorem digitValue_zero : digitValue 0 = none := by decide

/-- The number with a sign, and the greatest magnitude of an `int64_t` with that sign. -/
def signed (negative : Bool) (m : Nat) : Int := if negative then -(m : Int) else m

def signedLimit (negative : Bool) : Nat :=
  if negative then 9223372036854775808 else 9223372036854775807

theorem strtollCutoff_eq (negative : Bool) (base : Nat) :
    strtollCutoff (signed negative 1) base =
      (signed negative (signedLimit negative / base), ((signedLimit negative % base : Nat) : Int)) := by
  cases negative with
  | false =>
    have hdiv : int64Max.tdiv base = (9223372036854775807 / base : Nat) := rfl
    have hmod : int64Max.tmod base = (9223372036854775807 % base : Nat) := rfl
    have hsign : ¬ signed false 1 = -1 := by decide
    simp only [strtollCutoff]
    rw [if_neg hsign, if_neg hsign, hdiv, hmod]
    rfl
  | true =>
    have hdiv : int64Min.tdiv base = -((9223372036854775808 / base : Nat) : Int) := by
      rw [int64Min, Int.neg_tdiv]
      rfl
    have hmod : int64Min.tmod base = -((9223372036854775808 % base : Nat) : Int) := by
      rw [int64Min, Int.neg_tmod]
      rfl
    have hsign : signed true 1 = -1 := by decide
    simp only [strtollCutoff]
    rw [if_pos hsign, if_pos hsign, hdiv, hmod, if_neg (by omega), Int.neg_neg]
    rfl

theorem toInt64_signed {negative : Bool} {m : Nat} (h : m ≤ signedLimit negative) :
    toInt64 (signed negative m) = signed negative m := by
  unfold signedLimit at h
  unfold toInt64 signed
  cases negative <;> (simp at h ⊢; apply i64_ofInt64 <;> omega)

/-- One turn of the loop: a number whose magnitude is `m`, in front of a digit of the base. -/
theorem strtollLoop_digit {negative : Bool} {base m d : Nat} {b : UInt8} {rest : Bytes}
    (hb : digitBelow base b = some d) (hm : m ≤ signedLimit negative) :
    strtollLoop (signed negative 1) (signed negative (signedLimit negative / base))
        ((signedLimit negative % base : Nat) : Int) base (signed negative m) (b :: rest) =
      if m * base + d ≤ signedLimit negative then
        strtollLoop (signed negative 1) (signed negative (signedLimit negative / base))
          ((signedLimit negative % base : Nat) : Int) base (signed negative (m * base + d)) rest
      else (signed negative (signedLimit negative), .erange, b :: rest) := by
  have hlt := digitBelow_lt hb
  have hvalue : strtollDigit b = some d := by
    rw [strtollDigit_eq]
    exact (Option.filter_eq_some_iff.mp hb).1
  have hnul : b ≠ 0 := by
    intro h
    rw [h, strtollDigit_eq, digitValue_zero] at hvalue
    cases hvalue
  have hpast := past_limit_iff (signedLimit negative) m hlt
  rw [strtollLoop, if_neg hnul]
  simp only [hvalue]
  rw [if_neg (Nat.not_le.mpr hlt)]
  cases negative with
  | false =>
    rw [if_neg (by decide)]
    by_cases hfit : m * base + d ≤ signedLimit false
    · have hgo : ¬ (signed false (signedLimit false / base) < signed false m ∨
          signed false m = signed false (signedLimit false / base) ∧
            ((signedLimit false % base : Nat) : Int) < d) := by
        simp only [signed, Bool.false_eq_true, if_false, Int.ofNat_lt, Int.ofNat_inj]
        rw [hpast]
        exact Nat.not_lt.mpr hfit
      have hmul : signed false m * base = signed false (m * base) := by simp [signed]
      have hadd : signed false (m * base) + d = signed false (m * base + d) := by simp [signed]
      rw [if_neg hgo, if_pos hfit, hmul, toInt64_signed (Nat.le_of_add_right_le hfit), hadd,
        toInt64_signed hfit]
    · have hstop : signed false (signedLimit false / base) < signed false m ∨
          signed false m = signed false (signedLimit false / base) ∧
            ((signedLimit false % base : Nat) : Int) < d := by
        simp only [signed, Bool.false_eq_true, if_false, Int.ofNat_lt, Int.ofNat_inj]
        rw [hpast]
        exact Nat.not_le.mp hfit
      rw [if_pos hstop, if_neg hfit]
      rfl
  | true =>
    rw [if_pos (by decide)]
    by_cases hfit : m * base + d ≤ signedLimit true
    · have hgo : ¬ (signed true m < signed true (signedLimit true / base) ∨
          signed true m = signed true (signedLimit true / base) ∧
            ((signedLimit true % base : Nat) : Int) < d) := by
        simp only [signed, if_true, Int.neg_lt_neg_iff, Int.neg_inj, Int.ofNat_lt, Int.ofNat_inj]
        rw [hpast]
        exact Nat.not_lt.mpr hfit
      have hmul : signed true m * base = signed true (m * base) := by simp [signed]
      have hsub : signed true (m * base) - d = signed true (m * base + d) := by
        simp only [signed, if_true]
        omega
      rw [if_neg hgo, if_pos hfit, hmul, toInt64_signed (Nat.le_of_add_right_le hfit), hsub,
        toInt64_signed hfit]
    · have hstop : signed true m < signed true (signedLimit true / base) ∨
          signed true m = signed true (signedLimit true / base) ∧
            ((signedLimit true % base : Nat) : Int) < d := by
        simp only [signed, if_true, Int.neg_lt_neg_iff, Int.neg_inj, Int.ofNat_lt, Int.ofNat_inj]
        rw [hpast]
        exact Nat.not_le.mp hfit
      rw [if_pos hstop, if_neg hfit]
      rfl

theorem strtollLoop_stop {sign cutoff cutlim number : Int} {base : Nat} {b : UInt8} {rest : Bytes}
    (hb : digitBelow base b = none) :
    strtollLoop sign cutoff cutlim base number (b :: rest) = (number, .zero, b :: rest) := by
  rw [strtollLoop]
  split
  · rfl
  · rw [strtollDigit_eq]
    cases hvalue : digitValue b with
    | none => rfl
    | some d =>
      have hlarge : base ≤ d := by
        by_contra hlt
        rw [digitBelow, hvalue, Option.filter_some, if_pos (by simpa using hlt)] at hb
        cases hb
      simp only
      rw [if_pos hlarge]

section Numeral

variable {negative : Bool} {base m : Nat}

/-- A numeral that fits is read to its end. -/
theorem strtollLoop_fits (hbase : 0 < base) (s : Bytes)
    (hfit : numeralFrom base m (digitRun base s) ≤ signedLimit negative) :
    strtollLoop (signed negative 1) (signed negative (signedLimit negative / base))
        ((signedLimit negative % base : Nat) : Int) base (signed negative m) s =
      (signed negative (numeralFrom base m (digitRun base s)), .zero, behindRun base s) := by
  induction s generalizing m with
  | nil => rfl
  | cons b rest ih =>
    cases hb : digitBelow base b with
    | none => rw [strtollLoop_stop hb, digitRun_stop hb, behindRun_stop hb, numeralFrom_nil]
    | some d =>
      rw [digitRun_cons hb, numeralFrom_cons] at hfit
      have hm := Nat.le_mul_of_pos_right m hbase
      have hstep := le_numeralFrom hbase (m * base + d) (digitRun base rest)
      rw [strtollLoop_digit hb (by omega), digitRun_cons hb, behindRun_cons hb, numeralFrom_cons,
        if_pos (by omega)]
      exact ih hfit

/-- A numeral that does not fit ends the loop on the digit that goes past the limit. -/
theorem strtollLoop_past (s : Bytes) (hm : m ≤ signedLimit negative)
    (hpast : signedLimit negative < numeralFrom base m (digitRun base s)) :
    ∃ tok, strtollLoop (signed negative 1) (signed negative (signedLimit negative / base))
        ((signedLimit negative % base : Nat) : Int) base (signed negative m) s =
      (signed negative (signedLimit negative), .erange, tok) := by
  induction s generalizing m with
  | nil => exact absurd hpast (Nat.not_lt.mpr hm)
  | cons b rest ih =>
    cases hb : digitBelow base b with
    | none =>
      rw [digitRun_stop hb, numeralFrom_nil] at hpast
      exact absurd hpast (Nat.not_lt.mpr hm)
    | some d =>
      rw [digitRun_cons hb, numeralFrom_cons] at hpast
      rw [strtollLoop_digit hb hm]
      by_cases hfit : m * base + d ≤ signedLimit negative
      · rw [if_pos hfit]
        exact ih hfit hpast
      · rw [if_neg hfit]
        exact ⟨b :: rest, rfl⟩

end Numeral

end LibBson.Source
