import LibBson.Source.DecimalRead

/-!
# Reading back what was printed

A canonical number comes back with the same 128 bits, an infinity with its sign,
and a NaN of any kind as the one NaN.
-/

set_option autoImplicit false

namespace LibBson.Guarantees
open LibBson.Library LibBson.Spec LibBson.Source

theorem pattern_lt (dec : BsonDecimal128) : dec.pattern < 2 ^ 128 := by
  have hh := dec.high.isLt
  have hl := dec.low.isLt
  unfold BsonDecimal128.pattern
  omega

theorem negative_iff (dec : BsonDecimal128) : dec.negative = true ↔ bits dec.pattern 127 1 = 1 := by
  rw [BsonDecimal128.negative, beq_iff_eq]

/-- Sign, exponent and coefficient make up the pattern, in the layout with 113 bits. -/
theorem pattern_split (dec : BsonDecimal128) :
    (if dec.negative = true then 2 ^ 127 else 0) + bits dec.pattern 113 14 * 2 ^ 113 +
      bits dec.pattern 0 113 = dec.pattern := by
  have hp := pattern_lt dec
  have hn := negative_iff dec
  have h0 : bits dec.pattern 0 113 = dec.pattern % 2 ^ 113 := by simp [bits]
  rw [h0]
  by_cases h : bits dec.pattern 127 1 = 1
  · rw [if_pos (hn.mpr h)]
    unfold bits at *
    omega
  · rw [if_neg (fun hc => h (hn.mp hc))]
    unfold bits at *
    omega

theorem pattern_injective {a b : BsonDecimal128} (h : a.pattern = b.pattern) : a = b := by
  have ha := a.low.isLt
  have hb := b.low.isLt
  unfold BsonDecimal128.pattern at h
  obtain ⟨ah, al⟩ := a
  obtain ⟨bh, bl⟩ := b
  dsimp only at h ha hb
  have hh : ah = bh := BitVec.eq_of_toNat_eq (by omega)
  have hl : al = bl := BitVec.eq_of_toNat_eq (by omega)
  rw [hh, hl]

/-- Up to 34 digits and an exponent in range: the numeral is read as it stands. -/
theorem fromString_in_range (wide : Int → BitVec 32) (stray : Nat → BitVec 16) (n : Numeral)
    (hpower : n.power.natAbs < 10000) (hv : ofDigits n.digits < coefficientLimit)
    (hlo : bsonDecimal128ExponentMin ≤ n.scale) (hhi : n.scale ≤ bsonDecimal128ExponentMax) :
    bsonDecimal128FromString wide stray n.text =
      (true, encodeValue n.negative n.scale (ofDigits n.digits)) := by
  have hint : toInt32 wide n.power = n.power := by
    unfold toInt32
    rw [if_pos (by omega)]
  have hadjust : adjustExponent n.power (n.fraction.getD []).length = n.scale := by
    unfold bsonDecimal128ExponentMin at hlo
    apply adjustExponent_exact <;> unfold Numeral.scale at * <;> omega
  rw [← spacedText_nil n, fromString_spaced wide stray n (by simp), hint]
  by_cases hz : fromNonzero n.digits = []
  · have hv0 : ofDigits n.digits = 0 := by rw [← ofDigits_fromNonzero, hz]; rfl
    rw [encodeScan_zero _ _ _ _ _ _ _ hz, hadjust, hv0, Int.min_eq_left hhi, Int.max_eq_left hlo]
  · obtain ⟨d, rest, hd⟩ := List.exists_cons_of_ne_nil hz
    have hlen : (fromNonzero n.digits).length ≤ 34 := by
      by_contra hc
      have h := (length_of_lead (fromNonzero_lead hd) rest (k := 34)).mpr (by
        rw [hd, List.length_cons] at hc
        omega)
      rw [← hd, ofDigits_fromNonzero] at h
      unfold coefficientLimit at hv
      omega
    have hpos : 0 < (fromNonzero n.digits).length := List.length_pos_iff.mpr hz
    have hb : 0 = (bsonDecimal128ExponentMin - (n.scale + (0 : Nat))).toNat := by omega
    obtain ⟨hyes, -⟩ := encodeDigits_down stray (spacedText n []) n.negative n.digits
      (Numeral.signAndRadix n) (n.digits.length - (fromNonzero n.digits).length) (k := 0)
      (s := (fromNonzero n.digits).length)
      (dropTrailingZeros_pos n [] hz) hpos hlen (by omega) rfl hhi hb
    have haccept := hyes ⟨⟨fun i hi => absurd hi (by omega), fun h => absurd h (by omega)⟩,
      ⟨Nat.zero_le _, fun i hi => absurd hi (by omega)⟩, by
        have := dropTrailingZeros_le (spacedText n [])
          (n.digits.length - (fromNonzero n.digits).length + Numeral.signAndRadix n)
          (fromNonzero n.digits).length
        unfold RoundsOff
        omega⟩
    rw [Nat.sub_zero, List.take_length, ofDigits_fromNonzero, Nat.cast_zero, Int.add_zero,
      Int.max_eq_left hlo, Nat.add_zero] at haccept
    rw [encodeScan_digits _ _ _ _ _ hz, hadjust, Nat.min_eq_left hlen]
    have hsr : n.sign.isSome.toNat + n.fraction.isSome.toNat = Numeral.signAndRadix n := rfl
    rw [hsr, haccept]

/-- For every pattern: canonical numbers of either sign, infinities without trailing
bits, and NaNs. -/
theorem decimal128_round_trip (wide : Int → BitVec 32) (stray : Nat → BitVec 16)
    (dec : BsonDecimal128) :
    (IsNumber dec.pattern → (bidFields dec.pattern).2 < coefficientLimit →
      bsonDecimal128FromString wide stray (bsonDecimal128ToString dec).str = (true, dec)) ∧
    (bits dec.pattern 122 5 = 30 → bits dec.pattern 0 122 = 0 →
      bsonDecimal128FromString wide stray (bsonDecimal128ToString dec).str = (true, dec)) ∧
    (bits dec.pattern 122 5 = 31 →
      bsonDecimal128FromString wide stray (bsonDecimal128ToString dec).str =
        (true, decimalNan)) := by
  refine ⟨?_, ?_, ?_⟩
  · intro hfin hc
    obtain ⟨n, hs, htext, hpower, hexact, -⟩ := (bsonDecimal128ToString_finite dec hfin).numeral
    have hlimit := coefficientLimit_lt
    have hlayout : bits dec.pattern 125 2 ≠ 3 := by
      intro h
      rw [bidFields, if_pos h] at hc
      dsimp only at hc
      omega
    have hfields : bidFields dec.pattern = (bits dec.pattern 113 14, bits dec.pattern 0 113) :=
      if_neg hlayout
    have hlt := bidFields_fst_lt hfin
    rw [hfields] at hc hexact hlt
    have hshown : shownCoefficient (bits dec.pattern 0 113) = bits dec.pattern 0 113 :=
      if_pos (by omega)
    rw [hshown] at hexact
    obtain ⟨hdigits, hscale⟩ := hexact hc
    have hneg : n.negative = dec.negative := by rw [Numeral.negative, hs, negative_signOf]
    have hlo : bsonDecimal128ExponentMin ≤ n.scale := by
      unfold bsonDecimal128ExponentMin
      omega
    have hhi : n.scale ≤ bsonDecimal128ExponentMax := by
      unfold bsonDecimal128ExponentMax
      omega
    have hx : (n.scale + 6176).toNat = bits dec.pattern 113 14 := by omega
    rw [htext, fromString_in_range wide stray n hpower (by rw [hdigits]; exact hc) hlo hhi]
    congr 1
    apply pattern_injective
    rw [pattern_encodeValue _ hlo hhi (by rw [hdigits]; omega), hneg, hdigits, hx, pattern_split]
  · intro h30 h0
    rw [bsonDecimal128ToString_infinity dec h30]
    have hread : ∀ b, bsonDecimal128FromString wide stray
        (signText (signOf b) ++ ascii "Infinity") = (true, decimalInf b) := by
      intro b
      cases b <;> rfl
    dsimp only
    rw [hread]
    congr 1
    apply pattern_injective
    have hpattern : ∀ b : Bool,
        (decimalInf b).pattern = (if b then 2 ^ 127 else 0) + 30 * 2 ^ 122 := by decide +kernel
    have hp := pattern_lt dec
    have hn := negative_iff dec
    have hlow : bits dec.pattern 0 122 = dec.pattern % 2 ^ 122 := by simp [bits]
    rw [hlow] at h0
    rw [hpattern]
    by_cases h : bits dec.pattern 127 1 = 1
    · rw [if_pos (hn.mpr h)]
      unfold bits at *
      omega
    · rw [if_neg (fun hc => h (hn.mp hc))]
      unfold bits at *
      omega
  · intro h31
    rw [bsonDecimal128ToString_nan dec h31]
    rfl

/-- The largest number, an infinity and a NaN with a payload. -/
theorem decimal128_round_trip_largest :
    let wide : Int → BitVec 32 := fun _ => 0
    let stray : Nat → BitVec 16 := fun _ => 0
    let largest : BsonDecimal128 := { high := 0xdfffed09bead87c0#64, low := 0x378d8e63ffffffff#64 }
    let infinite : BsonDecimal128 := { high := 0xf800000000000000#64, low := 0#64 }
    let payload : BsonDecimal128 := { high := 0xfe00000000000000#64, low := 7#64 }
    bsonDecimal128FromString wide stray (bsonDecimal128ToString largest).str = (true, largest) ∧
    bsonDecimal128FromString wide stray (bsonDecimal128ToString infinite).str =
      (true, infinite) ∧
    bsonDecimal128FromString wide stray (bsonDecimal128ToString payload).str =
      (true, decimalNan) :=
  ⟨(decimal128_round_trip _ _ _).1 ⟨by decide +kernel, by decide +kernel⟩ (by decide +kernel),
    (decimal128_round_trip _ _ _).2.1 (by decide +kernel) (by decide +kernel),
    (decimal128_round_trip _ _ _).2.2 (by decide +kernel)⟩

end LibBson.Guarantees
