import LibBson.Source.DecimalPrint

/-!
# Printing a decimal128

The text of `bson_decimal128_to_string` against the value of the pattern, and
the octets and array entries it touches, for each of the 2^128 patterns. A
coefficient with 35 digits, which stands for zero, is printed as it is.
-/

set_option autoImplicit false

namespace LibBson.Guarantees
open LibBson.Library LibBson.Spec LibBson.Source

/-- The layout with a coefficient of 113 bits holds more than 34 digits. -/
def Oversized (dec : BsonDecimal128) : Prop :=
  bits dec.pattern 125 2 ≠ 3 ∧ coefficientLimit ≤ bits dec.pattern 0 113

instance (dec : BsonDecimal128) : Decidable (Oversized dec) := by
  unfold Oversized
  infer_instance

/-- What is shown is the coefficient of the value, or it is oversized. -/
theorem shown_iff (dec : BsonDecimal128) :
    (Oversized dec ↔ coefficientLimit ≤ shownCoefficient (bidFields dec.pattern).2) ∧
      (¬ Oversized dec → shownCoefficient (bidFields dec.pattern).2 =
        if (bidFields dec.pattern).2 < coefficientLimit then (bidFields dec.pattern).2 else 0) := by
  have hlimit : coefficientLimit < 2 ^ 113 := by unfold coefficientLimit; norm_num
  have hpos : 0 < coefficientLimit := Nat.pow_pos (by decide)
  unfold Oversized shownCoefficient bidFields
  by_cases hc : bits dec.pattern 125 2 = 3
  · have hbig : ¬ (8 + bits dec.pattern 110 1) * 2 ^ 110 + bits dec.pattern 0 110 < 2 ^ 113 := by
      omega
    simp only [hc, ne_eq, not_true_eq_false, false_and, if_true, if_neg hbig]
    refine ⟨⟨False.elim, by omega⟩, fun _ => ?_⟩
    rw [if_neg (by omega)]
  · have hlt : bits dec.pattern 0 113 < 2 ^ 113 := Nat.mod_lt _ (by decide)
    simp only [hc, ne_eq, not_false_eq_true, true_and, if_false, if_pos hlt]
    intro h
    rw [if_pos (Nat.lt_of_not_le h)]

/-- The text denotes the value of the pattern exactly when no coefficient of more
than 34 digits stands in the layout with 113 bits. -/
theorem decimal128_to_string_denotes (dec : BsonDecimal128) :
    Denotes (bsonDecimal128ToString dec).str (bidValue dec.pattern) ↔ ¬ Oversized dec := by
  by_cases h30 : bits dec.pattern 122 5 = 30
  · have hno : ¬ Oversized dec := fun h => (finite_of_layout h.1).1 h30
    have hval : bidValue dec.pattern = .infinity dec.negative := by
      simp [bidValue, h30, BsonDecimal128.negative]
    rw [bsonDecimal128ToString_infinity dec h30, hval]
    refine ⟨fun _ => hno, fun _ => ?_⟩
    have h := Denotes.infinity dec.negative
    cases hn : dec.negative <;> rw [hn] at h <;> exact h
  by_cases h31 : bits dec.pattern 122 5 = 31
  · have hno : ¬ Oversized dec := fun h => (finite_of_layout h.1).2 h31
    have hval : bidValue dec.pattern = .nan := by simp [bidValue, h31]
    rw [bsonDecimal128ToString_nan dec h31, hval]
    exact ⟨fun _ => hno, fun _ => Denotes.nan⟩
  · have hfin : IsNumber dec.pattern := ⟨h30, h31⟩
    obtain ⟨n, hs, htext, -, hexact, hnonzero⟩ := (bsonDecimal128ToString_finite dec hfin).numeral
    obtain ⟨hover, hshown⟩ := shown_iff dec
    have hneg : n.negative = (bits dec.pattern 127 1 == 1) := by
      rw [Numeral.negative, hs, negative_signOf]
      rfl
    rw [htext, bidValue_finite hfin]
    constructor
    · intro hden hbad
      -- the printed digits are not zero, the value is
      have hle := hover.mp hbad
      have hpos : 0 < coefficientLimit := Nat.pow_pos (by decide)
      have hv := Denotes.unique (Denotes.numeral n) hden
      have hzero : ¬ (bidFields dec.pattern).2 < coefficientLimit := by
        rw [bidFields, if_neg hbad.1]
        exact Nat.not_lt.mpr hbad.2
      rw [if_neg hzero] at hv
      injection hv with _ hc _
      exact hnonzero (by omega) hc
    · intro hgood
      have hlt : shownCoefficient (bidFields dec.pattern).2 < coefficientLimit :=
        Nat.lt_of_not_le fun h => hgood (hover.mpr h)
      obtain ⟨hc, hx⟩ := hexact hlt
      have hden := Denotes.numeral n
      rw [Numeral.value, hneg, hc, hx, hshown hgood] at hden
      exact hden

/-- The coefficient `10^34`, which stands for zero. -/
def firstOversized : BsonDecimal128 :=
  { high := 0x3041ed09bead87c0#64, low := 0x378d8e6400000000#64 }

theorem firstOversized_not_denoted :
    ¬ Denotes (bsonDecimal128ToString firstOversized).str (bidValue firstOversized.pattern) := by
  intro h
  let n : Numeral :=
    { sign := none, whole := 1 :: List.replicate 34 0, fraction := none, exponent := none
      nonempty := by simp }
  have htext : (bsonDecimal128ToString firstOversized).str = n.text := by decide +kernel
  rw [htext] at h
  have hv := Denotes.unique (Denotes.numeral n) h
  revert hv
  decide +kernel

/-- At most 43 octets are written and no index leaves the array, except for a sign in
front of an oversized coefficient with the exponent -40. -/
theorem decimal128_to_string_fits (dec : BsonDecimal128) :
    ((bsonDecimal128ToString dec).written ≤ bsonDecimal128String ∧
      ∀ i ∈ (bsonDecimal128ToString dec).accessed, i < 36) ↔
    ¬ (dec.negative = true ∧ Oversized dec ∧ bits dec.pattern 113 14 = 6136) := by
  have hsl : ∀ b, (signText (signOf b)).length = if b = true then 1 else 0 := by decide
  by_cases h30 : bits dec.pattern 122 5 = 30
  · have hno : ¬ Oversized dec := fun h => (finite_of_layout h.1).1 h30
    rw [bsonDecimal128ToString_infinity dec h30]
    refine ⟨fun _ h => hno h.2.1, fun _ => ⟨?_, by simp⟩⟩
    unfold bsonDecimal128String
    dsimp only
    rw [hsl]
    split <;> omega
  by_cases h31 : bits dec.pattern 122 5 = 31
  · have hno : ¬ Oversized dec := fun h => (finite_of_layout h.1).2 h31
    rw [bsonDecimal128ToString_nan dec h31]
    refine ⟨fun _ h => hno h.2.1, fun _ => ⟨?_, by simp⟩⟩
    unfold bsonDecimal128String
    dsimp only
    rw [hsl]
    split <;> omega
  · have hfin : IsNumber dec.pattern := ⟨h30, h31⟩
    obtain ⟨-, hwritten, haccessed⟩ := bsonDecimal128ToString_finite dec hfin
    obtain ⟨hover, -⟩ := shown_iff dec
    have hneg : (signText (signOf dec.negative)).length = 1 ↔ dec.negative = true := by
      rw [hsl]
      split <;> simp_all
    rw [hneg, ← hover] at hwritten
    have hexp : Oversized dec → ((((bidFields dec.pattern).1 : Int) - 6176 = -40) ↔
        bits dec.pattern 113 14 = 6136) := by
      intro h
      rw [bidFields, if_neg h.1]
      constructor <;> intro hx <;> omega
    constructor
    · rintro ⟨hle, -⟩ ⟨hn, ho, hx⟩
      have := hwritten.mpr ⟨hn, ho, (hexp ho).mpr hx⟩
      unfold bsonDecimal128String at hle
      omega
    · intro hno
      refine ⟨Nat.le_of_not_lt fun hlt => ?_, haccessed⟩
      obtain ⟨hn, ho, hx⟩ := hwritten.mp hlt
      exact hno ⟨hn, ho, (hexp ho).mp hx⟩

/-- Sign, radix, five zeros and 35 digits. -/
theorem decimal128_to_string_overflows :
    ¬ ((bsonDecimal128ToString
        { high := 0xaff1ed09bead87c0#64, low := 0x378d8e6400000000#64 }).written ≤
      bsonDecimal128String) := by
  decide +kernel

end LibBson.Guarantees
