import LibBson.Source.DecimalRead

/-!
# Which numerals are accepted

Representability in terms of the digits, and acceptance by the code in terms of
the digits it stores and the characters it looks up. The two differ where a
character looked up is not the digit it stands for, where an exponent is
adjusted wrongly, and for a 35th digit.
-/

set_option autoImplicit false

namespace LibBson.Source
open LibBson.Library LibBson.Spec

/-- The digits from `m` on are zeros. -/
def ZerosFrom (ds : List (Fin 10)) (m : Nat) : Prop := ∀ i, m ≤ i → ds.getD i 0 = 0

/-- The number of digits that are stored. -/
def storedCount (ds : List (Fin 10)) : Nat := min ds.length 34

/-- The number of digits that are not. -/
def unstoredCount (ds : List (Fin 10)) : Nat := ds.length - storedCount ds

/-- How many of the stored digits stand below the smallest exponent. -/
def belowRange (ds : List (Fin 10)) (x : Int) : Nat :=
  (bsonDecimal128ExponentMin - (x + unstoredCount ds)).toNat

/-- The exponent leaves room for the digits that are not stored, and a stored one remains. -/
def InRange (ds : List (Fin 10)) (x : Int) : Prop :=
  (0 < unstoredCount ds → x + unstoredCount ds ≤ bsonDecimal128ExponentMax) ∧
    belowRange ds x < storedCount ds

/-- Digits without a zero in front. -/
structure Leading (ds : List (Fin 10)) : Prop where
  lead : ∃ d rest, ds = d :: rest ∧ d ≠ 0

theorem Leading.pow_le {ds : List (Fin 10)} (h : Leading ds) : 10 ^ (ds.length - 1) ≤ ofDigits ds := by
  obtain ⟨d, rest, rfl, hd⟩ := h.lead
  simpa using le_ofDigits hd rest

theorem Leading.pos {ds : List (Fin 10)} (h : Leading ds) : 0 < ds.length := by
  obtain ⟨d, rest, rfl, -⟩ := h.lead
  simp

/-- Fewer zeros than digits. -/
theorem Leading.lt_of_dvd {ds : List (Fin 10)} (h : Leading ds) {j : Nat}
    (hd : 10 ^ j ∣ ofDigits ds) : j < ds.length := by
  have hpos : 0 < ofDigits ds := Nat.lt_of_lt_of_le (Nat.pow_pos (by decide)) h.pow_le
  have hle := Nat.le_of_dvd hpos hd
  have hlt := ofDigits_lt ds
  exact (Nat.pow_lt_pow_iff_right (by decide)).mp (Nat.lt_of_le_of_lt hle hlt)

theorem leading_fromNonzero {ds : List (Fin 10)} (h : fromNonzero ds ≠ []) :
    Leading (fromNonzero ds) := by
  obtain ⟨d, rest, hd⟩ := List.exists_cons_of_ne_nil h
  exact ⟨d, rest, hd, fromNonzero_lead hd⟩

theorem lt_pow_of_length {ds : List (Fin 10)} {k : Nat} (h : ds.length ≤ k) :
    ofDigits ds < 10 ^ k :=
  Nat.lt_of_lt_of_le (ofDigits_lt ds) (Nat.pow_le_pow_right (by decide) h)

/-- An exponent above the range has to be made up for by zeros at the end. -/
theorem representable_above {ds : List (Fin 10)} (h : Leading ds) {x : Int}
    (hx : bsonDecimal128ExponentMax < x) :
    Representable (ofDigits ds * 10 ^ x) ↔
      ds.length + (x - bsonDecimal128ExponentMax).toNat ≤ 34 := by
  unfold bsonDecimal128ExponentMax at *
  have hpos := h.pos
  constructor
  · rintro ⟨c, y, hc, hlo, hhi, heq⟩
    unfold exponentMax at hhi
    obtain ⟨-, hcv⟩ | ⟨hlt, -⟩ := scaled_eq_iff.mp heq
    · by_contra hbig
      have hp : 10 ^ 34 ≤ 10 ^ (ds.length - 1) * 10 ^ (x - y).toNat := by
        rw [← Nat.pow_add]
        exact Nat.pow_le_pow_right (by decide) (by omega)
      have hm := Nat.mul_le_mul_right (10 ^ (x - y).toNat) h.pow_le
      unfold coefficientLimit at hc
      omega
    · omega
  · intro hlen
    refine ⟨ofDigits ds * 10 ^ (x - 6111).toNat, 6111, ?_, by decide, by decide, ?_⟩
    · have hm := Nat.mul_lt_mul_of_pos_right (ofDigits_lt ds)
        (Nat.pow_pos (n := (x - 6111).toNat) (by decide : 0 < 10))
      rw [← Nat.pow_add] at hm
      exact Nat.lt_of_lt_of_le hm (Nat.pow_le_pow_right (by decide) hlen)
    · exact scaled_eq_iff.mpr (Or.inl ⟨by omega, rfl⟩)

/-- What is kept has its exponent in range. -/
theorem kept_bounds {ds : List (Fin 10)} {x : Int} (hx : x ≤ bsonDecimal128ExponentMax)
    (h : InRange ds x) :
    exponentMin ≤ x + unstoredCount ds + belowRange ds x ∧
      x + unstoredCount ds + belowRange ds x ≤ exponentMax := by
  obtain ⟨hroom, -⟩ := h
  have hbelow : belowRange ds x =
    (bsonDecimal128ExponentMin - (x + unstoredCount ds)).toNat := rfl
  unfold bsonDecimal128ExponentMax bsonDecimal128ExponentMin at *
  unfold exponentMin exponentMax
  omega

/-- Dropping zeros keeps the value. -/
theorem kept_eq {ds : List (Fin 10)} {x : Int} (hb : belowRange ds x < storedCount ds)
    (hz : ZerosFrom ds (storedCount ds - belowRange ds x)) :
    (ofDigits (ds.take (storedCount ds - belowRange ds x)) : ℚ) *
      10 ^ (x + unstoredCount ds + belowRange ds x) = ofDigits ds * 10 ^ x := by
  have hstored : storedCount ds = min ds.length 34 := rfl
  have hunstored : unstoredCount ds = ds.length - storedCount ds := rfl
  have htake := ofDigits_take (m := storedCount ds - belowRange ds x) (by omega) hz
  rw [scaled_eq_iff]
  rcases Nat.eq_zero_or_pos (unstoredCount ds + belowRange ds x) with h0 | h0
  · refine Or.inl ⟨by omega, ?_⟩
    rw [htake, show ds.length - (storedCount ds - belowRange ds x) = 0 by omega,
      show (x - (x + unstoredCount ds + belowRange ds x)).toNat = 0 by omega]
    simp
  · refine Or.inr ⟨by omega, ?_⟩
    rw [htake, show ds.length - (storedCount ds - belowRange ds x) =
      (x + unstoredCount ds + belowRange ds x - x).toNat by omega]

/-- Otherwise the digits that are too many, and those below the range, are zeros. -/
theorem representable_within {ds : List (Fin 10)} (h : Leading ds) {x : Int}
    (hx : x ≤ bsonDecimal128ExponentMax) :
    Representable (ofDigits ds * 10 ^ x) ↔
      InRange ds x ∧ ZerosFrom ds (storedCount ds - belowRange ds x) := by
  have hpos := h.pos
  have hstored : storedCount ds = min ds.length 34 := rfl
  have hunstored : unstoredCount ds = ds.length - storedCount ds := rfl
  have hbelow : belowRange ds x =
    (bsonDecimal128ExponentMin - (x + unstoredCount ds)).toNat := rfl
  unfold InRange
  unfold bsonDecimal128ExponentMax bsonDecimal128ExponentMin at *
  constructor
  · rintro ⟨c, y, hc, hlo, hhi, heq⟩
    unfold exponentMax at hhi
    unfold exponentMin at hlo
    unfold coefficientLimit at hc
    have hle := h.pow_le
    obtain ⟨hyx, hcv⟩ | ⟨hxy, hvc⟩ := scaled_eq_iff.mp heq
    · -- nothing has to be dropped
      have hp : 0 < 10 ^ (x - y).toNat := Nat.pow_pos (by decide)
      have hc1 : ofDigits ds ≤ c := by
        rw [hcv]
        exact Nat.le_mul_of_pos_right _ hp
      have hlen : ds.length - 1 < 34 :=
        (Nat.pow_lt_pow_iff_right (by decide)).mp (by omega : 10 ^ (ds.length - 1) < 10 ^ 34)
      refine ⟨⟨by omega, by omega⟩, fun i hi => ?_⟩
      rw [List.getD_eq_getElem?_getD, List.getElem?_eq_none (by omega)]
      rfl
    · have hdvd : 10 ^ (y - x).toNat ∣ ofDigits ds := ⟨c, by rw [hvc, Nat.mul_comm]⟩
      have hlen : ds.length - 1 < 34 + (y - x).toNat := by
        apply (Nat.pow_lt_pow_iff_right (by decide : 1 < 10)).mp
        rw [Nat.pow_add]
        have hm := Nat.mul_lt_mul_of_pos_right hc
          (Nat.pow_pos (n := (y - x).toNat) (by decide : 0 < 10))
        omega
      have hj : unstoredCount ds + belowRange ds x ≤ (y - x).toNat := by omega
      have hsmall : 10 ^ (unstoredCount ds + belowRange ds x) ∣ ofDigits ds :=
        Nat.dvd_trans (Nat.pow_dvd_pow 10 hj) hdvd
      have hlt := h.lt_of_dvd hsmall
      refine ⟨⟨by omega, by omega⟩, fun i hi => ?_⟩
      exact zeros_of_dvd (Nat.le_of_lt hlt) hsmall i (by omega)
  · rintro ⟨hr, hz⟩
    obtain ⟨hlo, hhi⟩ := kept_bounds hx hr
    exact ⟨_, _, lt_pow_of_length (by rw [List.length_take]; omega), hlo, hhi, kept_eq hr.2 hz⟩

/-! ## Acceptance -/

/-- The stored digits that have to go are zeros. -/
def DropsZeros (ds : List (Fin 10)) (x : Int) : Prop :=
  ∀ i, storedCount ds - belowRange ds x ≤ i → i < storedCount ds → ds.getD i 0 = 0

/-- How many zeros stand in front of the first digit that is none. -/
def zerosInFront (n : Numeral) : Nat := n.digits.length - (fromNonzero n.digits).length

/-- Of the characters behind the first `kept` digits the first is `0`, or all are. -/
def ZerosBehind (n : Numeral) (string : Bytes) (kept : Nat) : Prop :=
  ∀ i, kept ≤ i → i < (fromNonzero n.digits).length →
    string.getD (zerosInFront n + Numeral.signAndRadix n + i) 0 ≠ 48 →
    string.getD (zerosInFront n + Numeral.signAndRadix n + kept) 0 = 48

/-- The characters that are looked up in the text: a zero for each digit that is not stored,
counted from the sign, and those behind the last digit kept. -/
def LooksUpZeros (n : Numeral) (string : Bytes) (x : Int) : Prop :=
  (∀ i < unstoredCount (fromNonzero n.digits),
    string.getD (storedCount (fromNonzero n.digits) + i + Numeral.signAndRadix n) 0 = 48) ∧
  ZerosBehind n string
    (storedCount (fromNonzero n.digits) - belowRange (fromNonzero n.digits) x)

/-- The loop over the trailing zeros stops at one of these characters. -/
theorem roundsOff_iff {n : Numeral} {string : Bytes} {stored below : Nat} (h : below < stored) :
    RoundsOff string (zerosInFront n) (Numeral.signAndRadix n)
        (dropTrailingZeros string (zerosInFront n + Numeral.signAndRadix n)
          (fromNonzero n.digits).length) (stored - 1 - below) ↔
      ZerosBehind n string (stored - below) := by
  have hkept : stored - 1 - below + 1 = stored - below := by omega
  have hplace : zerosInFront n + (stored - 1 - below) + Numeral.signAndRadix n + 1 =
      zerosInFront n + Numeral.signAndRadix n + (stored - below) := by omega
  rw [RoundsOff, hkept, hplace]
  constructor
  · intro hround i hi hlen hchar
    by_contra hzero
    have hlast := lt_dropTrailingZeros string (zerosInFront n + Numeral.signAndRadix n) hlen hchar
    exact hround ⟨by omega, hzero⟩
  · rintro hzeros ⟨hlast, hzero⟩
    obtain ⟨i, hi, hlen, hchar⟩ := exists_of_lt_dropTrailingZeros string _ hlast
    exact hzero (hzeros i hi hlen hchar)

/-- The adjusted exponent is not above the range. -/
def AcceptsWithin (n : Numeral) (string : Bytes) (x : Int) : Prop :=
  InRange (fromNonzero n.digits) x ∧ DropsZeros (fromNonzero n.digits) x ∧
    LooksUpZeros n string x

/-- What digits and characters are taken with the exponent `x`: a zero; digits in the range
whose unkept ones, and the characters looked up for them, are zeros; above the range, digits that
35 places hold. -/
def Accepts (n : Numeral) (string : Bytes) (x : Int) : Prop :=
  fromNonzero n.digits = [] ∨
  (x ≤ bsonDecimal128ExponentMax ∧ AcceptsWithin n string x) ∨
  (bsonDecimal128ExponentMax < x ∧
    (fromNonzero n.digits).length + (x - bsonDecimal128ExponentMax).toNat ≤ 35)

theorem storedZeros_iff {stray : Nat → BitVec 16} {ds : List (Fin 10)} {x : Int}
    (hpos : 0 < storedCount (fromNonzero ds)) :
    StoredZeros (storedDigit stray ds) (storedCount (fromNonzero ds) - 1)
        (belowRange (fromNonzero ds) x) ↔
      belowRange (fromNonzero ds) x < storedCount (fromNonzero ds) ∧
        DropsZeros (fromNonzero ds) x := by
  have hstored : storedCount (fromNonzero ds) = min (fromNonzero ds).length 34 := rfl
  have hdigit : ∀ i, i < storedCount (fromNonzero ds) →
      storedDigit stray ds i = ((fromNonzero ds).getD i 0).val := by
    intro i hi
    have hshow := shows_take stray ds (m := 34) le_rfl i
      (by rw [List.length_take]; omega)
    rw [hshow, List.getElem_take, List.getD_eq_getElem?_getD,
      List.getElem?_eq_getElem (by omega)]
    rfl
  constructor
  · rintro ⟨hb, hz⟩
    refine ⟨by omega, fun i hlo hi => ?_⟩
    have h := hz (storedCount (fromNonzero ds) - 1 - i) (by omega)
    rw [show storedCount (fromNonzero ds) - 1 - (storedCount (fromNonzero ds) - 1 - i) = i by omega,
      hdigit i hi] at h
    exact Fin.ext h
  · rintro ⟨hb, hz⟩
    refine ⟨by omega, fun i hi => ?_⟩
    rw [hdigit _ (by omega), hz _ (by omega) (by omega)]
    rfl

section Outcome

variable (wide : Int → BitVec 32) (stray : Nat → BitVec 16) (n : Numeral) {spaces : Bytes}

/-- The exponent that is read: the number behind the `E` less the number of digits behind the
radix, in 32 bits. Where these are more by over 2^14, in 64 bits, it is the smallest there is;
a number that is no `int` is what `sscanf` makes of it. -/
def adjusted : Int :=
  let power := if -2147483648 ≤ n.power ∧ n.power ≤ 2147483647 then n.power
    else (wide n.power).toInt
  let fraction := (n.fraction.getD []).length
  if ofInt64 power ≤ fraction ∧ 16384 < u64sub fraction (ofInt64 power) then -6176
  else i32 (ofInt32 (power - fraction))

/-- The correction makes it this. -/
theorem adjustExponent_adjusted :
    adjustExponent (toInt32 wide n.power) (n.fraction.getD []).length = adjusted wide n := rfl

theorem fromString_zero (hs : ∀ c ∈ spaces, isspace c = true) (h : fromNonzero n.digits = []) :
    bsonDecimal128FromString wide stray (spacedText n spaces) =
      (true, encodeValue n.negative (clampExponent (adjusted wide n)) 0) := by
  rw [fromString_spaced wide stray n hs, encodeScan_zero _ _ _ _ _ _ _ h, adjustExponent_adjusted]
  rfl

theorem fromString_digits (hs : ∀ c ∈ spaces, isspace c = true) (h : fromNonzero n.digits ≠ []) :
    bsonDecimal128FromString wide stray (spacedText n spaces) =
      match encodeDigits stray (spacedText n spaces) n.negative n.digits (Numeral.signAndRadix n)
        (n.digits.length - (fromNonzero n.digits).length)
        (dropTrailingZeros (spacedText n spaces)
          (n.digits.length - (fromNonzero n.digits).length + Numeral.signAndRadix n)
          (fromNonzero n.digits).length)
        (storedCount (fromNonzero n.digits) + unstoredCount (fromNonzero n.digits))
        (storedCount (fromNonzero n.digits)) (adjusted wide n) with
      | some dec => (true, dec)
      | none => (false, decimalNan) := by
  have hlen : storedCount (fromNonzero n.digits) + unstoredCount (fromNonzero n.digits) =
      (fromNonzero n.digits).length := by
    unfold unstoredCount storedCount
    omega
  rw [fromString_spaced wide stray n hs, encodeScan_digits _ _ _ _ _ h, hlen,
    adjustExponent_adjusted]
  rfl

theorem stored_facts (h : fromNonzero n.digits ≠ []) :
    0 < storedCount (fromNonzero n.digits) ∧ storedCount (fromNonzero n.digits) ≤ 34 ∧
      (0 < unstoredCount (fromNonzero n.digits) → storedCount (fromNonzero n.digits) = 34) ∧
      (fromNonzero n.digits).length =
        storedCount (fromNonzero n.digits) + unstoredCount (fromNonzero n.digits) := by
  have hpos := List.length_pos_iff.mpr h
  unfold unstoredCount storedCount
  omega

/-- An exponent that is not above the range. -/
theorem fromString_within (hs : ∀ c ∈ spaces, isspace c = true) (h : fromNonzero n.digits ≠ [])
    (hx : adjusted wide n ≤ bsonDecimal128ExponentMax) :
    (AcceptsWithin n (spacedText n spaces) (adjusted wide n) →
      bsonDecimal128FromString wide stray (spacedText n spaces) =
        (true, encodeValue n.negative
          (adjusted wide n + unstoredCount (fromNonzero n.digits) +
            belowRange (fromNonzero n.digits) (adjusted wide n))
          (ofDigits ((fromNonzero n.digits).take (storedCount (fromNonzero n.digits) -
            belowRange (fromNonzero n.digits) (adjusted wide n)))))) ∧
    (¬ AcceptsWithin n (spacedText n spaces) (adjusted wide n) →
      bsonDecimal128FromString wide stray (spacedText n spaces) = (false, decimalNan)) := by
  obtain ⟨hpos, h34, hk, hlen⟩ := stored_facts n h
  obtain ⟨hyes, hno⟩ := encodeDigits_down stray (spacedText n spaces) n.negative n.digits
    (Numeral.signAndRadix n) (n.digits.length - (fromNonzero n.digits).length)
    (dropTrailingZeros_pos n spaces h) hpos h34 hk hlen hx rfl
  have hiff : (Unstored (spacedText n spaces) (Numeral.signAndRadix n)
        (storedCount (fromNonzero n.digits)) (unstoredCount (fromNonzero n.digits))
        (adjusted wide n) ∧
      StoredZeros (storedDigit stray n.digits) (storedCount (fromNonzero n.digits) - 1)
        (belowRange (fromNonzero n.digits) (adjusted wide n)) ∧
      RoundsOff (spacedText n spaces) (n.digits.length - (fromNonzero n.digits).length)
        (Numeral.signAndRadix n)
        (dropTrailingZeros (spacedText n spaces)
          (n.digits.length - (fromNonzero n.digits).length + Numeral.signAndRadix n)
          (fromNonzero n.digits).length)
        (storedCount (fromNonzero n.digits) - 1 -
          belowRange (fromNonzero n.digits) (adjusted wide n))) ↔
      AcceptsWithin n (spacedText n spaces) (adjusted wide n) := by
    rw [storedZeros_iff hpos]
    constructor
    · rintro ⟨⟨h1, h2⟩, ⟨h3, h4⟩, h5⟩
      exact ⟨⟨h2, h3⟩, h4, h1, (roundsOff_iff h3).mp h5⟩
    · rintro ⟨⟨h2, h3⟩, h4, h1, h5⟩
      exact ⟨⟨h1, h2⟩, ⟨h3, h4⟩, (roundsOff_iff h3).mpr h5⟩
  have hexp : max (adjusted wide n + unstoredCount (fromNonzero n.digits))
      bsonDecimal128ExponentMin = adjusted wide n + unstoredCount (fromNonzero n.digits) +
        belowRange (fromNonzero n.digits) (adjusted wide n) := by
    unfold belowRange
    omega
  rw [fromString_digits wide stray n hs h]
  constructor
  · intro ha
    have hresult := hyes (hiff.mpr ha)
    rw [hexp] at hresult
    rw [hresult]
    rfl
  · intro ha
    rw [hno fun hc => ha (hiff.mp hc)]

/-- An exponent above the range. -/
theorem fromString_above (hs : ∀ c ∈ spaces, isspace c = true) (h : fromNonzero n.digits ≠ [])
    {a : Nat} (hx : adjusted wide n = bsonDecimal128ExponentMax + a) (ha : 0 < a) :
    ((fromNonzero n.digits).length + a ≤ 34 →
      bsonDecimal128FromString wide stray (spacedText n spaces) =
        (true, encodeValue n.negative bsonDecimal128ExponentMax
          (ofDigits (fromNonzero n.digits) * 10 ^ a))) ∧
    ((fromNonzero n.digits).length + a = 35 →
      (bsonDecimal128FromString wide stray (spacedText n spaces)).1 = true) ∧
    (35 < (fromNonzero n.digits).length + a →
      bsonDecimal128FromString wide stray (spacedText n spaces) = (false, decimalNan)) := by
  obtain ⟨hpos, h34, hk, hlen⟩ := stored_facts n h
  have hle := dropTrailingZeros_le (spacedText n spaces)
    (n.digits.length - (fromNonzero n.digits).length + Numeral.signAndRadix n)
    (fromNonzero n.digits).length
  obtain ⟨h1, h2, h3⟩ := encodeDigits_up stray (spacedText n spaces) n.negative n.digits
    (Numeral.signAndRadix n) (n.digits.length - (fromNonzero n.digits).length)
    (dropTrailingZeros_pos n spaces h) hpos h34 hlen hx ha (by omega)
  rw [fromString_digits wide stray n hs h]
  refine ⟨fun hc => ?_, fun hc => ?_, fun hc => ?_⟩
  · rw [h1 (by omega)]
  · obtain ⟨dec, hdec⟩ := h2 (by omega)
    rw [hdec]
  · rw [h3 (by omega)]

/-- Accepted or refused, and a refusal leaves a NaN. -/
theorem fromString_accepts (hs : ∀ c ∈ spaces, isspace c = true) :
    (Accepts n (spacedText n spaces) (adjusted wide n) →
      (bsonDecimal128FromString wide stray (spacedText n spaces)).1 = true) ∧
    (¬ Accepts n (spacedText n spaces) (adjusted wide n) →
      bsonDecimal128FromString wide stray (spacedText n spaces) = (false, decimalNan)) := by
  by_cases h : fromNonzero n.digits = []
  · rw [fromString_zero wide stray n hs h]
    exact ⟨fun _ => rfl, fun hno => absurd (Or.inl h) hno⟩
  · by_cases hx : adjusted wide n ≤ bsonDecimal128ExponentMax
    · obtain ⟨hyes, hno⟩ := fromString_within wide stray n hs h hx
      constructor
      · rintro (h0 | ⟨-, ha⟩ | ⟨hlt, -⟩)
        · exact absurd h0 h
        · rw [hyes ha]
        · omega
      · intro hc
        exact hno fun ha => hc (Or.inr (Or.inl ⟨hx, ha⟩))
    · obtain ⟨a, ha⟩ : ∃ a : Nat, adjusted wide n = bsonDecimal128ExponentMax + a :=
        ⟨(adjusted wide n - bsonDecimal128ExponentMax).toNat, by omega⟩
      obtain ⟨h1, h2, h3⟩ := fromString_above wide stray n hs h ha (by omega)
      have hat : (adjusted wide n - bsonDecimal128ExponentMax).toNat = a := by omega
      constructor
      · rintro (h0 | ⟨hle, -⟩ | ⟨-, hle⟩)
        · exact absurd h0 h
        · exact absurd hle hx
        · rw [hat] at hle
          by_cases h34 : (fromNonzero n.digits).length + a ≤ 34
          · rw [h1 h34]
          · exact h2 (by omega)
      · intro hc
        apply h3
        by_contra hle
        exact hc (Or.inr (Or.inr ⟨by omega, by omega⟩))

end Outcome

end LibBson.Source
