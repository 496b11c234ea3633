import LibBson.Source.DecimalAccept

/-!
# Reading a decimal128 exactly

`bson_decimal128_from_string` on every string against the exact value of the
numeral it is. The code departs from it in five ways: white space passes behind
the `E`; an exponent that is no `int` is whatever `sscanf` makes of it; the
exponent is adjusted wrongly for very long fractions; a 35th digit passes, read
from behind the array; and zeros are looked up in the wrong places of the text
when digits have to be dropped.
-/

set_option autoImplicit false

namespace LibBson.Guarantees
open LibBson.Library LibBson.Spec LibBson.Source

/-- The exponent is an `int`. -/
def IntPower (n : Numeral) : Prop := -2147483648 ≤ n.power ∧ n.power ≤ 2147483647

/-- Accepted exactly if there is such a decimal128, and then with this value and sign. -/
def ReadExactly (r : Bool × BsonDecimal128) (n : Numeral) : Prop :=
  (r.1 = true ↔ Representable n.magnitude) ∧ (r.1 = true → StandsFor r.2.pattern n)

/-- A numeral is read exactly; what is none, and no infinity or NaN, is refused. -/
def StringReadExactly (wide : Int → BitVec 32) (stray : Nat → BitVec 16) (s : Bytes) : Prop :=
  (∀ n : Numeral, s = n.text → IntPower n →
    ReadExactly (bsonDecimal128FromString wide stray s) n) ∧
  ((¬ ∃ n : Numeral, s = n.text ∧ IntPower n) → ¬ Spelled s →
    bsonDecimal128FromString wide stray s = (false, decimalNan))

/-- The exponent is adjusted as it should be, no 35th digit is made up, and the characters
looked up for the digits that have to go are zeros when these are. -/
structure LooksRight (n : Numeral) (string : Bytes) : Prop where
  places : n.scale ≤ bsonDecimal128ExponentMax → InRange (fromNonzero n.digits) n.scale →
    DropsZeros (fromNonzero n.digits) n.scale →
    (LooksUpZeros n string n.scale ↔
      ZerosFrom (fromNonzero n.digits) (storedCount (fromNonzero n.digits)))
  noStray : bsonDecimal128ExponentMax < n.scale →
    (fromNonzero n.digits).length + (n.scale - bsonDecimal128ExponentMax).toNat ≠ 35

/-- The condition for a numeral whose adjusted exponent is `x`: for zero, the clamped
exponents agree; an exponent that is not the one meant must not lead to acceptance. -/
def ReadsRight (n : Numeral) (string : Bytes) (x : Int) : Prop :=
  (fromNonzero n.digits = [] → clampExponent x = clampExponent n.scale) ∧
  (fromNonzero n.digits ≠ [] → x = n.scale → LooksRight n string) ∧
  (fromNonzero n.digits ≠ [] → x ≠ n.scale →
    ¬ Accepts n string x ∧ ¬ Representable n.magnitude)

/-- The condition for a string: a numeral without white space and with an `int` reads right,
any other numeral is refused by the checks on its digits. -/
def Sound (wide : Int → BitVec 32) (s : Bytes) : Prop :=
  ∀ (n : Numeral) (spaces : Bytes), s = spacedText n spaces →
    (∀ c ∈ spaces, isspace c = true) →
    ((n.exponent = none ∨ spaces = []) ∧ IntPower n → ReadsRight n s (adjusted wide n)) ∧
    (¬ ((n.exponent = none ∨ spaces = []) ∧ IntPower n) → ¬ Accepts n s (adjusted wide n))

theorem zerosFrom_iff {ds : List (Fin 10)} {x : Int} :
    ZerosFrom ds (storedCount ds - belowRange ds x) ↔
      DropsZeros ds x ∧ ZerosFrom ds (storedCount ds) := by
  constructor
  · intro h
    exact ⟨fun i hi _ => h i hi, fun i hi => h i (by omega)⟩
  · rintro ⟨h1, h2⟩ i hi
    by_cases hs : i < storedCount ds
    · exact h1 i hi hs
    · exact h2 i (by omega)

theorem magnitude_fromNonzero (n : Numeral) :
    n.magnitude = ofDigits (fromNonzero n.digits) * 10 ^ n.scale := by
  rw [Numeral.magnitude, ofDigits_fromNonzero]

theorem ofDigits_ne_zero {ds : List (Fin 10)} (h : Leading ds) : ofDigits ds ≠ 0 := by
  have := Nat.lt_of_lt_of_le (Nat.pow_pos (by decide)) h.pow_le
  omega

/-- What is kept of the digits stands for the numeral only with the exponent that is meant. -/
theorem kept_value {ds : List (Fin 10)} (h : Leading ds) {x y : Int}
    (hb : belowRange ds x < storedCount ds)
    (heq : (ofDigits (ds.take (storedCount ds - belowRange ds x)) : ℚ) *
      10 ^ (x + unstoredCount ds + belowRange ds x) = ofDigits ds * 10 ^ y) :
    x = y := by
  have hstored : storedCount ds = min ds.length 34 := rfl
  have hunstored : unstoredCount ds = ds.length - storedCount ds := rfl
  obtain ⟨m, hm⟩ : ∃ m, storedCount ds - belowRange ds x = m := ⟨_, rfl⟩
  obtain ⟨j, hj⟩ : ∃ j, ds.length - m = j := ⟨_, rfl⟩
  have hxj : x + unstoredCount ds + belowRange ds x = x + j := by omega
  rw [hm, hxj] at heq
  -- the digits kept, followed by zeros, and the number itself differ by less than a factor of ten
  have hsplit : ofDigits ds = ofDigits (ds.take m) * 10 ^ j + ofDigits (ds.drop m) := by
    conv_lhs => rw [← List.take_append_drop m ds]
    rw [ofDigits_append, List.length_drop, hj]
  have hlow : ofDigits (ds.drop m) < 10 ^ j := by
    have := ofDigits_lt (ds.drop m)
    rwa [List.length_drop, hj] at this
  have hkept : 1 ≤ ofDigits (ds.take m) := by
    obtain ⟨d, rest, rfl, hd⟩ := h.lead
    obtain ⟨k, rfl⟩ : ∃ k, m = k + 1 := ⟨m - 1, by omega⟩
    have := le_ofDigits hd (rest.take k)
    have hp : 0 < 10 ^ (rest.take k).length := Nat.pow_pos (by decide)
    rw [List.take_succ_cons]
    omega
  have hp : 0 < 10 ^ j := Nat.pow_pos (by decide)
  have hmul : 10 ^ j ≤ ofDigits (ds.take m) * 10 ^ j := Nat.le_mul_of_pos_left _ hkept
  have hten : ∀ k : Nat, 0 < k → 10 ≤ 10 ^ k := fun k hk => by
    simpa using Nat.pow_le_pow_right (by decide : 0 < 10) hk
  obtain ⟨hle, hv⟩ | ⟨hlt, hv⟩ := scaled_eq_iff.mp heq
  · by_contra hne
    have hexp : (y - (x + j)).toNat + j = (y - x).toNat := by omega
    have h10 := hten (y - x).toNat (by omega)
    have hbig : ofDigits ds * 10 ^ (y - x).toNat = ofDigits (ds.take m) * 10 ^ j := by
      rw [hv, Nat.mul_assoc, ← Nat.pow_add, hexp]
    have := Nat.mul_le_mul_left (ofDigits ds) h10
    omega
  · by_contra hne
    rcases Int.lt_or_le x y with hxy | hyx
    · -- fewer zeros than digits dropped
      have hexp : (x + j - y).toNat + (y - x).toNat = j := by omega
      have h10 := hten (y - x).toNat (by omega)
      have hbig : ofDigits ds * 10 ^ (y - x).toNat = ofDigits (ds.take m) * 10 ^ j := by
        rw [hv, Nat.mul_assoc, ← Nat.pow_add, hexp]
      have := Nat.mul_le_mul_left (ofDigits ds) h10
      omega
    · have hexp : (x + j - y).toNat = (x - y).toNat + j := by omega
      have h10 := hten (x - y).toNat (by omega)
      have hbig : ofDigits ds = ofDigits (ds.take m) * 10 ^ j * 10 ^ (x - y).toNat := by
        rw [hv, hexp, Nat.pow_add]
        ring
      have := Nat.mul_le_mul_left (ofDigits (ds.take m) * 10 ^ j) h10
      omega

section Reading

variable (wide : Int → BitVec 32) (stray : Nat → BitVec 16) {n : Numeral} {spaces : Bytes}

/-- A zero is accepted, and is right if its exponent is clamped to the same. -/
theorem zero_iff (hs : ∀ c ∈ spaces, isspace c = true) (h : fromNonzero n.digits = []) :
    ReadExactly (bsonDecimal128FromString wide stray (spacedText n spaces)) n ↔
      clampExponent (adjusted wide n) = clampExponent n.scale := by
  have hv0 : ofDigits n.digits = 0 := by rw [← ofDigits_fromNonzero, h]; rfl
  have hmag : n.magnitude = 0 := by rw [Numeral.magnitude, hv0]; simp
  have hrep : Representable n.magnitude :=
    ⟨0, 0, by unfold coefficientLimit; norm_num, by decide, by decide, by rw [hmag]; simp⟩
  have hbid := bidValue_encodeValue n.negative (x := clampExponent (adjusted wide n)) (v := 0)
    (by unfold clampExponent exponentMin bsonDecimal128ExponentMin; omega)
    (by unfold clampExponent exponentMin exponentMax bsonDecimal128ExponentMax; omega)
    (by unfold coefficientLimit; norm_num)
  rw [fromString_zero wide stray n hs h]
  constructor
  · rintro ⟨-, hstands⟩
    obtain ⟨c, x, hval, -, hclamp⟩ := hstands rfl
    dsimp only at hval
    rw [hbid] at hval
    injection hval with _ _ hx
    rw [hx, hclamp hv0]
  · intro heq
    refine ⟨⟨fun _ => hrep, fun _ => rfl⟩, fun _ => ⟨0, _, hbid, ?_, fun _ => heq⟩⟩
    rw [hmag]
    simp

/-- What is kept stands for the numeral, if the digits dropped are zeros. -/
theorem within_stands (h : fromNonzero n.digits ≠ []) (hx : n.scale ≤ bsonDecimal128ExponentMax)
    (hr : InRange (fromNonzero n.digits) n.scale)
    (hz : ZerosFrom (fromNonzero n.digits)
      (storedCount (fromNonzero n.digits) - belowRange (fromNonzero n.digits) n.scale)) :
    StandsFor (encodeValue n.negative
      (n.scale + unstoredCount (fromNonzero n.digits) +
        belowRange (fromNonzero n.digits) n.scale)
      (ofDigits ((fromNonzero n.digits).take (storedCount (fromNonzero n.digits) -
        belowRange (fromNonzero n.digits) n.scale)))).pattern n := by
  obtain ⟨hlo, hhi⟩ := kept_bounds hx hr
  have h34 := (stored_facts n h).2.1
  refine ⟨_, _, bidValue_encodeValue n.negative hlo hhi
    (lt_pow_of_length (by rw [List.length_take]; omega)), ?_, ?_⟩
  · rw [magnitude_fromNonzero]
    exact kept_eq hr.2 hz
  · intro h0
    rw [← ofDigits_fromNonzero] at h0
    exact absurd h0 (ofDigits_ne_zero (leading_fromNonzero h))

/-- The exponent is the one meant: read exactly if the look-ups are right. -/
theorem meant_iff (hs : ∀ c ∈ spaces, isspace c = true) (h : fromNonzero n.digits ≠ [])
    (hscale : adjusted wide n = n.scale) :
    ReadExactly (bsonDecimal128FromString wide stray (spacedText n spaces)) n ↔
      LooksRight n (spacedText n spaces) := by
  have hlead := leading_fromNonzero h
  have hmag := magnitude_fromNonzero n
  by_cases hx : n.scale ≤ bsonDecimal128ExponentMax
  · obtain ⟨hyes, hno⟩ := fromString_within wide stray n hs h (by rw [hscale]; exact hx)
    rw [hscale] at hyes hno
    have hrep : Representable n.magnitude ↔ InRange (fromNonzero n.digits) n.scale ∧
        DropsZeros (fromNonzero n.digits) n.scale ∧
        ZerosFrom (fromNonzero n.digits) (storedCount (fromNonzero n.digits)) := by
      rw [hmag, representable_within hlead hx, zerosFrom_iff]
    have haccept : (bsonDecimal128FromString wide stray (spacedText n spaces)).1 = true ↔
        AcceptsWithin n (spacedText n spaces) n.scale := by
      constructor
      · intro h1
        by_contra hc
        rw [hno hc] at h1
        cases h1
      · intro ha
        rw [hyes ha]
    constructor
    · rintro ⟨hiff, -⟩
      rw [haccept, hrep] at hiff
      refine ⟨fun _ hr hd => ⟨fun hl => (hiff.mp ⟨hr, hd, hl⟩).2.2, fun hz => ?_⟩, by omega⟩
      exact (hiff.mpr ⟨hr, hd, hz⟩).2.2
    · rintro ⟨hplaces, -⟩
      have hsame : AcceptsWithin n (spacedText n spaces) n.scale ↔
          Representable n.magnitude := by
        rw [hrep]
        constructor
        · rintro ⟨hr, hd, hl⟩
          exact ⟨hr, hd, (hplaces hx hr hd).mp hl⟩
        · rintro ⟨hr, hd, hz⟩
          exact ⟨hr, hd, (hplaces hx hr hd).mpr hz⟩
      refine ⟨haccept.trans hsame, fun h1 => ?_⟩
      have ha := haccept.mp h1
      obtain ⟨hr, hd, hz⟩ := hrep.mp (hsame.mp ha)
      rw [hyes ha]
      exact within_stands h hx hr (zerosFrom_iff.mpr ⟨hd, hz⟩)
  · obtain ⟨a, ha⟩ : ∃ a : Nat, n.scale = bsonDecimal128ExponentMax + a :=
      ⟨(n.scale - bsonDecimal128ExponentMax).toNat, by omega⟩
    have hat : (n.scale - bsonDecimal128ExponentMax).toNat = a := by omega
    obtain ⟨h1, h2, h3⟩ := fromString_above wide stray n hs h (hscale.trans ha) (by omega)
    have hrep : Representable n.magnitude ↔ (fromNonzero n.digits).length + a ≤ 34 := by
      rw [hmag, representable_above hlead (by omega), hat]
    constructor
    · rintro ⟨hiff, -⟩
      refine ⟨fun hle => absurd hle hx, fun _ h35 => ?_⟩
      rw [hat] at h35
      have := hrep.mp (hiff.mp (h2 h35))
      omega
    · rintro ⟨-, hno⟩
      have h35 := hno (by omega)
      rw [hat] at h35
      by_cases hle : (fromNonzero n.digits).length + a ≤ 34
      · rw [h1 hle]
        refine ⟨⟨fun _ => hrep.mpr hle, fun _ => rfl⟩, fun _ => ⟨_, _, bidValue_encodeValue
          n.negative (by decide) (by decide) ?_, ?_, fun h0 => ?_⟩⟩
        · have hm := Nat.mul_lt_mul_of_pos_right (ofDigits_lt (fromNonzero n.digits))
            (Nat.pow_pos (n := a) (by decide : 0 < 10))
          rw [← Nat.pow_add] at hm
          exact Nat.lt_of_lt_of_le hm (Nat.pow_le_pow_right (by decide) hle)
        · rw [hmag, scaled_eq_iff]
          exact Or.inl ⟨by omega, by rw [hat]⟩
        · rw [← ofDigits_fromNonzero] at h0
          exact absurd h0 (ofDigits_ne_zero hlead)
      · rw [h3 (by omega)]
        refine ⟨⟨fun hc => ?_, fun hc => absurd (hrep.mp hc) hle⟩, fun hc => ?_⟩
        · cases hc
        · cases hc

/-- Above the range the exponent is wrong only if it has wrapped. -/
theorem wrapped_of_above (hp : IntPower n) (hscale : adjusted wide n ≠ n.scale)
    (hx : bsonDecimal128ExponentMax < adjusted wide n) : n.scale < -2147483648 := by
  have hpower : toInt32 wide n.power = n.power := if_pos hp
  have hdef : n.scale = n.power - (n.fraction.getD []).length := rfl
  rw [← adjustExponent_adjusted] at hscale hx
  unfold adjustExponent at hscale hx
  rw [hpower, ← hdef] at hscale hx
  by_contra hc
  have h32 : i32 (ofInt32 n.scale) = n.scale := i32_ofInt32 (by omega) (by
    have := hp.2
    omega)
  rw [h32] at hscale hx
  unfold bsonDecimal128ExponentMax bsonDecimal128ExponentMin at *
  split at hx
  · omega
  · rename_i hno
    rw [if_neg hno] at hscale
    exact hscale rfl

/-- Another exponent than the one meant: acceptance is always wrong. -/
theorem not_meant_iff (hs : ∀ c ∈ spaces, isspace c = true) (h : fromNonzero n.digits ≠ [])
    (hp : IntPower n)
    (hscale : adjusted wide n ≠ n.scale) :
    ReadExactly (bsonDecimal128FromString wide stray (spacedText n spaces)) n ↔
      ¬ Accepts n (spacedText n spaces) (adjusted wide n) ∧ ¬ Representable n.magnitude := by
  have hlead := leading_fromNonzero h
  have hmag := magnitude_fromNonzero n
  obtain ⟨hyes, hno⟩ := fromString_accepts wide stray n hs
  constructor
  · rintro ⟨hiff, hstands⟩
    have hrefused : ¬ Accepts n (spacedText n spaces) (adjusted wide n) := by
      intro ha
      have h1 := hyes ha
      obtain ⟨c, y, hval, heq, -⟩ := hstands h1
      rw [hmag] at heq
      by_cases hx : adjusted wide n ≤ bsonDecimal128ExponentMax
      · obtain ⟨hwithin, hout⟩ := fromString_within wide stray n hs h hx
        have haw : AcceptsWithin n (spacedText n spaces) (adjusted wide n) := by
          by_contra hc
          rw [hout hc] at h1
          cases h1
        obtain ⟨hlo, hhi⟩ := kept_bounds hx haw.1
        have h34 := (stored_facts n h).2.1
        rw [hwithin haw] at hval
        dsimp only at hval
        rw [bidValue_encodeValue n.negative hlo hhi
          (lt_pow_of_length (by rw [List.length_take]; omega))] at hval
        injection hval with _ hc hy
        rw [← hc, ← hy] at heq
        exact hscale (kept_value hlead haw.1.2 heq)
      · -- a representable number would need more than 2^30 zeros, acceptance at most 35 digits
        have hwrapped := wrapped_of_above wide hp hscale (by omega)
        have hmax : n.scale ≤ bsonDecimal128ExponentMax := by
          unfold bsonDecimal128ExponentMax
          omega
        have hrep := hiff.mp h1
        rw [hmag, representable_within hlead hmax] at hrep
        obtain ⟨⟨-, hbelow⟩, -⟩ := hrep
        obtain ⟨-, h34, -, hlen⟩ := stored_facts n h
        obtain h0 | ⟨hle, -⟩ | ⟨-, h35⟩ := ha
        · exact h h0
        · exact hx hle
        · unfold belowRange at hbelow
          unfold bsonDecimal128ExponentMin at hbelow
          omega
    exact ⟨hrefused, fun hr => hrefused (by
      by_contra hc
      have h1 := hiff.mpr hr
      rw [hno hc] at h1
      cases h1)⟩
  · rintro ⟨hrefused, hrep⟩
    rw [hno hrefused]
    refine ⟨⟨fun hc => ?_, fun hc => absurd hc hrep⟩, fun hc => ?_⟩
    · cases hc
    · cases hc

end Reading

/-- Letters are no numeral. -/
theorem not_spelled (n : Numeral) (spaces : Bytes) : ¬ Spelled (spacedText n spaces) := by
  rintro ⟨sign, word, htext, hword⟩
  obtain ⟨b, rest, hb, hcase⟩ := spaced_head n spaces
  have hfirst : ∃ c tail, word = c :: tail ∧
      (dec128Tolower c = 105 ∨ dec128Tolower c = 110) := by
    cases word with
    | nil =>
      obtain h | h | h := hword <;> exact absurd h (by decide)
    | cons c tail =>
      refine ⟨c, tail, rfl, ?_⟩
      obtain h | h | h := hword
      · exact Or.inl (List.cons.inj h).1
      · exact Or.inl (List.cons.inj h).1
      · exact Or.inr (List.cons.inj h).1
  obtain ⟨c, tail, rfl, hc⟩ := hfirst
  have hb' : b ≠ 43 ∧ b ≠ 45 ∧ dec128Tolower b ≠ 105 ∧ dec128Tolower b ≠ 110 := by
    have hdigits : ∀ d : Fin 10, digit d.val ≠ 43 ∧ digit d.val ≠ 45 ∧
        dec128Tolower (digit d.val) ≠ 105 ∧ dec128Tolower (digit d.val) ≠ 110 := by decide
    obtain h | rfl := hcase
    · obtain ⟨d, rfl⟩ := isdigit_iff.mp h
      exact hdigits d
    · decide
  have hc' : c ≠ 43 ∧ c ≠ 45 := by
    constructor <;> rintro rfl <;> revert hc <;> decide
  rw [spacedText, hb] at htext
  have hmid := (signText_append_inj (by simpa using ⟨hb'.1, hb'.2.1⟩) (by simpa using hc')
    htext).2
  obtain ⟨rfl, -⟩ := List.cons.inj hmid
  obtain h | h := hc
  · exact hb'.2.2.1 h
  · exact hb'.2.2.2 h

/-- For every string: read exactly, or refused if it is no numeral, exactly when the
condition on its digits and characters holds. -/
theorem decimal128_from_string_exact_iff (wide : Int → BitVec 32) (stray : Nat → BitVec 16)
    (s : Bytes) : StringReadExactly wide stray s ↔ Sound wide s := by
  have hread : ∀ (n : Numeral) (spaces : Bytes), (∀ c ∈ spaces, isspace c = true) → IntPower n →
      (ReadExactly (bsonDecimal128FromString wide stray (spacedText n spaces)) n ↔
        ReadsRight n (spacedText n spaces) (adjusted wide n)) := by
    intro n spaces hs hp
    by_cases h : fromNonzero n.digits = []
    · rw [zero_iff wide stray hs h]
      exact ⟨fun hc => ⟨fun _ => hc, fun h0 => absurd h h0, fun h0 => absurd h h0⟩,
        fun hc => hc.1 h⟩
    · by_cases hscale : adjusted wide n = n.scale
      · rw [meant_iff wide stray hs h hscale]
        exact ⟨fun hc => ⟨fun h0 => absurd h0 h, fun _ _ => hc, fun _ h0 => absurd hscale h0⟩,
          fun hc => hc.2.1 h hscale⟩
      · rw [not_meant_iff wide stray hs h hp hscale]
        exact ⟨fun hc => ⟨fun h0 => absurd h0 h, fun _ h0 => absurd h0 hscale, fun _ _ => hc⟩,
          fun hc => hc.2.2 h hscale⟩
  constructor
  · rintro ⟨hnumeral, hother⟩ n spaces rfl hs
    refine ⟨fun ⟨hplain, hp⟩ => ?_, fun hno ha => ?_⟩
    · have htext : spacedText n spaces = n.text := by
        obtain h | rfl := hplain
        · rw [← spacedText_nil]
          unfold spacedText
          rw [h]
          rfl
        · exact spacedText_nil n
      exact (hread n spaces hs hp).mp (hnumeral n htext hp)
    · have hnone : ¬ ∃ m : Numeral, spacedText n spaces = m.text ∧ IntPower m := by
        rintro ⟨m, htext, hp⟩
        obtain ⟨rfl, hplain⟩ := spacedText_eq_text hs htext
        exact hno ⟨hplain, hp⟩
      have h1 := (fromString_accepts wide stray n hs).1 ha
      rw [hother hnone (not_spelled n spaces)] at h1
      cases h1
  · intro hsound
    refine ⟨fun n htext hp => ?_, fun hnone hspelled => ?_⟩
    · have hs : ∀ c ∈ ([] : Bytes), isspace c = true := by simp
      rw [← spacedText_nil] at htext
      have hright := (hsound n [] htext hs).1 ⟨Or.inr rfl, hp⟩
      rw [htext] at hright ⊢
      exact (hread n [] hs hp).mpr hright
    · obtain h | h | ⟨n, spaces, rfl, hs⟩ := fromString_cases wide stray s
      · exact h
      · exact absurd h hspelled
      · refine (fromString_accepts wide stray n hs).2 ((hsound n spaces rfl hs).2 ?_)
        rintro ⟨hplain, hp⟩
        refine hnone ⟨n, ?_, hp⟩
        obtain h | rfl := hplain
        · rw [← spacedText_nil]
          unfold spacedText
          rw [h]
          rfl
        · exact spacedText_nil n

/-- `10.E-6177` is `1E-6176`, and is refused. -/
theorem decimal128_from_string_refuses :
    ¬ StringReadExactly (fun _ => 0) (fun _ => 0) (ascii "10.E-6177") := by
  intro h
  let n : Numeral :=
    { sign := none, whole := [1, 0], fraction := some []
      exponent := some ⟨false, some true, [6, 1, 7, 7], by simp⟩, nonempty := by simp }
  have htext : ascii "10.E-6177" = n.text := by decide
  have hp : IntPower n := ⟨by decide, by decide⟩
  have hrep : Representable n.magnitude := by
    refine ⟨1, -6176, by unfold coefficientLimit; norm_num, by decide, by decide, ?_⟩
    exact scaled_eq_iff.mpr (Or.inr ⟨by decide, by decide⟩)
  have hrefused : (bsonDecimal128FromString (fun _ => 0) (fun _ => 0) (ascii "10.E-6177")).1 =
      false := by decide +kernel
  have haccepted := ((h.1 n htext hp).1).mpr hrep
  rw [hrefused] at haccepted
  cases haccepted

end LibBson.Guarantees
