import LibBson.Source.DecimalEncode

/-!
# What is made of the digits that were read

The result for zero, for an exponent above the range and for one that is not,
where the characters looked up in the text decide together with the stored digits.
-/

set_option autoImplicit false

namespace LibBson.Source
open LibBson.Library LibBson.Spec

/-! ## Trailing zeros -/

theorem dropTrailingZeros_le (string : Bytes) (start n : Nat) :
    dropTrailingZeros string start n ≤ n := by
  induction n with
  | zero => exact le_rfl
  | succ n ih =>
    rw [dropTrailingZeros]
    split
    · exact Nat.le_succ_of_le ih
    · exact le_rfl

/-- The loop ends at a character that is no zero, if not before. -/
theorem lt_dropTrailingZeros (string : Bytes) (start : Nat) {n k : Nat} (hk : k < n)
    (h : string.getD (start + k) 0 ≠ 48) : k < dropTrailingZeros string start n := by
  induction n with
  | zero => omega
  | succ n ih =>
    rw [dropTrailingZeros]
    split
    · rename_i hz
      obtain rfl | hlt : k = n ∨ k < n := by omega
      · exact absurd hz h
      · exact ih hlt
    · exact hk

/-- What ends it is a character that is no zero. -/
theorem exists_of_lt_dropTrailingZeros (string : Bytes) (start : Nat) {n k : Nat}
    (h : k < dropTrailingZeros string start n) :
    ∃ i, k ≤ i ∧ i < n ∧ string.getD (start + i) 0 ≠ 48 := by
  induction n with
  | zero => exact absurd h (Nat.not_lt_zero k)
  | succ n ih =>
    rw [dropTrailingZeros] at h
    split at h
    · obtain ⟨i, hk, hi, hchar⟩ := ih h
      exact ⟨i, hk, Nat.lt_succ_of_lt hi, hchar⟩
    · next hchar => exact ⟨n, Nat.le_of_lt_succ h, Nat.lt_succ_self n, hchar⟩

/-! ## Zero -/

variable (stray : Nat → BitVec 16) (string : Bytes) (isNegative includesSign sawRadix : Bool)

/-- A zero always has a result, with the exponent clamped. -/
theorem encodeScan_zero {ds : List (Fin 10)} (f : Nat) (e : Int) (h : fromNonzero ds = []) :
    encodeScan stray string isNegative includesSign (scanOf sawRadix ds f) e =
      some (encodeValue isNegative
        (max (min (adjustExponent e f) bsonDecimal128ExponentMax) bsonDecimal128ExponentMin) 0) := by
  have hscan : (scanOf sawRadix ds f).digits = [] := by simp [scanOf, h]
  have hf : (scanOf sawRadix ds f).radixPosition = f := rfl
  generalize hx : adjustExponent e f = x
  obtain ⟨l, hup, hl⟩ := shiftUp_zero (x - bsonDecimal128ExponentMax).toNat x 0 le_rfl
  have hhalves : ∀ l, significandHalves (digitAt stray []) 0 l = (0, 0) := fun l => rfl
  have hjoin : joinHalves 0 0 = (0, 0) := by decide
  unfold encodeScan
  simp only [hscan, hf, hx, if_true, Nat.sub_self, hup]
  by_cases hsmall : x < bsonDecimal128ExponentMin
  · have hmax : x ≤ bsonDecimal128ExponentMax := by
      unfold bsonDecimal128ExponentMin at hsmall
      unfold bsonDecimal128ExponentMax
      omega
    obtain ⟨n, hn⟩ : ∃ n, (bsonDecimal128ExponentMin - x).toNat + 0 = n + 1 :=
      ⟨(bsonDecimal128ExponentMin - x).toNat - 1, by omega⟩
    rw [hl hmax, Int.min_eq_left hmax, hn, shiftDown, if_pos (Or.inl hsmall), if_pos rfl,
      if_pos rfl, Int.max_eq_right (by omega)]
    simp only [Nat.not_lt_zero, false_and, if_false, hhalves, hjoin]
    rfl
  · have hstop : ¬ (min x bsonDecimal128ExponentMax < bsonDecimal128ExponentMin ∨ 1 < 1) := by
      unfold bsonDecimal128ExponentMin at *
      unfold bsonDecimal128ExponentMax
      omega
    have hclamp : max (min x bsonDecimal128ExponentMax) bsonDecimal128ExponentMin =
        min x bsonDecimal128ExponentMax := by
      apply Int.max_eq_left
      omega
    rw [shiftDown_stop hstop, hclamp]
    simp only [Nat.not_lt_zero, false_and, if_false, hhalves, hjoin]
    rfl

/-! ## Digits -/

/-- The entry of the array `digits`, or what lies behind it. -/
abbrev storedDigit (ds : List (Fin 10)) : Nat → Nat :=
  digitAt stray (((fromNonzero ds).take 34).map Fin.val)

theorem shows_take (ds : List (Fin 10)) {m : Nat} (hm : m ≤ 34) :
    GivesDigits (storedDigit stray ds) ((fromNonzero ds).take m) := by
  intro i hi
  rw [List.length_take] at hi
  have hi34 : i < bsonDecimal128MaxDigits := by unfold bsonDecimal128MaxDigits; omega
  have hlen : i < (fromNonzero ds).length := by omega
  rw [storedDigit, digitAt, if_pos hi34, List.getD_eq_getElem?_getD, List.getElem?_map,
    List.getElem?_take_of_lt (by omega), List.getElem?_eq_getElem hlen, List.getElem_take]
  rfl

/-- The array is filled up with zeros. -/
theorem shows_zeros (ds : List (Fin 10)) {a : Nat} (ha : (fromNonzero ds).length + a ≤ 34) :
    GivesDigits (storedDigit stray ds) (fromNonzero ds ++ List.replicate a 0) := by
  intro i hi
  rw [List.length_append, List.length_replicate] at hi
  have hi34 : i < bsonDecimal128MaxDigits := by unfold bsonDecimal128MaxDigits; omega
  rw [storedDigit, digitAt, if_pos hi34, List.take_of_length_le (by omega),
    List.getD_eq_getElem?_getD, List.getElem?_map]
  by_cases hlen : i < (fromNonzero ds).length
  · rw [List.getElem?_eq_getElem hlen, List.getElem_append_left hlen]
    rfl
  · rw [List.getElem?_eq_none (by omega), List.getElem_append_right (by omega)]
    simp

/-- The stored digits as a result. -/
theorem encode_shown {ds shown : List (Fin 10)} {significant last : Nat} (x : Int)
    (h : GivesDigits (storedDigit stray ds) shown) (hs : significant ≠ 0)
    (hlen : shown.length = last + 1) (hlast : last < 34) :
    (let (significandHigh, significandLow) :=
        significandHalves (storedDigit stray ds) significant last
      let (high, low) := joinHalves significandHigh significandLow
      some (encodeDecimal isNegative x high low)) =
      some (encodeValue isNegative x (ofDigits shown)) := by
  obtain ⟨hsum, hh, hl⟩ := significandHalves_spec h hs hlen hlast
  obtain ⟨hjoin, hlow⟩ := joinHalves_spec hh hl
  rw [hsum] at hjoin
  unfold encodeValue
  rw [← hjoin]
  generalize significandHalves (storedDigit stray ds) significant last = p at *
  show some (encodeDecimal isNegative x (joinHalves p.1 p.2).1 (joinHalves p.1 p.2).2) = _
  generalize joinHalves p.1 p.2 = q at *
  rw [show (q.1 * 2 ^ 64 + q.2) / 2 ^ 64 = q.1 by omega,
    show (q.1 * 2 ^ 64 + q.2) % 2 ^ 64 = q.2 by omega]

/-- The character looked up behind the last digit kept does not stop the rounding. -/
def RoundsOff (string : Bytes) (firstNonzero signAndRadix significant last : Nat) : Prop :=
  ¬ (last + 1 < significant ∧ string.getD (firstNonzero + last + signAndRadix + 1) 0 ≠ 48)

/-- `encodeScan` for a number that is not zero, with `n` digits and `s` of them stored. -/
def encodeDigits (ds : List (Fin 10)) (signAndRadix firstNonzero significant n s : Nat) (x : Int) :
    Option BsonDecimal128 :=
  match shiftUp significant (x - bsonDecimal128ExponentMax).toNat x (s - 1) with
  | none => none
  | some (exponent, lastDigit) =>
    match shiftDown string signAndRadix (storedDigit stray ds) s significant
        ((bsonDecimal128ExponentMin - exponent).toNat + (n - s)) exponent lastDigit n with
    | none => none
    | some (exponent, lastDigit) =>
      if lastDigit + 1 < significant ∧
          string.getD (firstNonzero + lastDigit + signAndRadix + 1) 0 ≠ 48 then
        none
      else
        let (significandHigh, significandLow) :=
          significandHalves (storedDigit stray ds) significant lastDigit
        let (high, low) := joinHalves significandHigh significandLow
        some (encodeDecimal isNegative exponent high low)

theorem encodeScan_digits {ds : List (Fin 10)} (h : fromNonzero ds ≠ []) (f : Nat) (e : Int) :
    encodeScan stray string isNegative includesSign (scanOf sawRadix ds f) e =
      encodeDigits stray string isNegative ds (includesSign.toNat + sawRadix.toNat)
        (ds.length - (fromNonzero ds).length)
        (dropTrailingZeros string
          (ds.length - (fromNonzero ds).length + (includesSign.toNat + sawRadix.toNat))
          (fromNonzero ds).length)
        (fromNonzero ds).length (min (fromNonzero ds).length 34) (adjustExponent e f) := by
  have hne : (scanOf sawRadix ds f).digits ≠ [] := by simpa [scanOf] using h
  have hlen : (scanOf sawRadix ds f).digits.length = min (fromNonzero ds).length 34 := by
    rw [scanOf, List.length_map, List.length_take, Nat.min_comm]
  have hfirst : (scanOf sawRadix ds f).firstNonzero = ds.length - (fromNonzero ds).length :=
    if_neg h
  unfold encodeScan encodeDigits
  simp only [if_neg hne, hlen, hfirst]
  rfl

section Digits

variable (ds : List (Fin 10)) (sr z : Nat) {sd : Nat}

/-- An exponent that is not above the range: the digits that are not stored and those below
the range have to go. -/
theorem encodeDigits_down (hsd : sd ≠ 0) {s k b : Nat} {x : Int} (hs : 0 < s) (hs34 : s ≤ 34)
    (hk : 0 < k → s = 34) (hlen : (fromNonzero ds).length = s + k)
    (hmax : x ≤ bsonDecimal128ExponentMax)
    (hb : b = (bsonDecimal128ExponentMin - (x + k)).toNat) :
    let accepted := Unstored string sr s k x ∧ StoredZeros (storedDigit stray ds) (s - 1) b ∧
      RoundsOff string z sr sd (s - 1 - b)
    (accepted → encodeDigits stray string isNegative ds sr z sd (s + k) s x =
      some (encodeValue isNegative (max (x + k) bsonDecimal128ExponentMin)
        (ofDigits ((fromNonzero ds).take (s - b))))) ∧
    (¬ accepted → encodeDigits stray string isNegative ds sr z sd (s + k) s x = none) := by
  intro accepted
  have hup : shiftUp sd (x - bsonDecimal128ExponentMax).toNat x (s - 1) = some (x, s - 1) := by
    rw [shiftUp_spec hsd _ _ _ le_rfl, if_pos (Or.inl hmax), Int.min_eq_left hmax,
      show (x - bsonDecimal128ExponentMax).toNat = 0 by omega]
    rfl
  unfold encodeDigits
  simp only [hup]
  have hphase : (Unstored string sr s k x →
      shiftDown string sr (storedDigit stray ds) s sd
          ((bsonDecimal128ExponentMin - x).toNat + (s + k - s)) x (s - 1) (s + k) =
        shiftDown string sr (storedDigit stray ds) s sd
          ((bsonDecimal128ExponentMin - x).toNat + (s + k - s) - k) (x + k) (s - 1) s) ∧
      (¬ Unstored string sr s k x →
        shiftDown string sr (storedDigit stray ds) s sd
          ((bsonDecimal128ExponentMin - x).toNat + (s + k - s)) x (s - 1) (s + k) = none) := by
    by_cases hk0 : k = 0
    · rw [hk0]
      refine ⟨fun _ => by simp, fun hno => absurd ⟨?_, ?_⟩ hno⟩
      · intro i hi
        omega
      · intro h0
        omega
    · exact shiftDown_unstored hsd (by have := hk (by omega); omega) k _ x (by omega)
  obtain ⟨hu1, hu2⟩ := hphase
  obtain ⟨hz1, hz2⟩ := shiftDown_stored string sr (storedDigit stray ds) s hsd b
    ((bsonDecimal128ExponentMin - x).toNat + (s + k - s) - k) (x + k) (s - 1) hb.symm (by omega)
  by_cases hu : Unstored string sr s k x
  · rw [hu1 hu]
    by_cases hz : StoredZeros (storedDigit stray ds) (s - 1) b
    · rw [hz1 hz]
      have hbs := hz.1
      by_cases hr : RoundsOff string z sr sd (s - 1 - b)
      · refine ⟨fun _ => ?_, fun hno => absurd ⟨hu, hz, hr⟩ hno⟩
        simp only [if_neg hr]
        exact encode_shown stray isNegative _ (shows_take stray ds (m := s - b) (by omega)) hsd
          (by rw [List.length_take]; omega) (by omega)
      · refine ⟨fun h => absurd h.2.2 hr, fun _ => ?_⟩
        simp only [if_pos (Classical.not_not.mp hr)]
    · rw [hz2 hz]
      exact ⟨fun h => absurd h.2.1 hz, fun _ => rfl⟩
  · rw [hu2 hu]
    exact ⟨fun h => absurd h.1 hu, fun _ => rfl⟩

/-- An exponent above the range by `a`: there is room for 34 digits, and the code lets one
more pass, which it reads from behind the array. -/
theorem encodeDigits_up (hsd : sd ≠ 0) {s k a : Nat} {x : Int} (hs : 0 < s) (hs34 : s ≤ 34)
    (hlen : (fromNonzero ds).length = s + k)
    (hx : x = bsonDecimal128ExponentMax + a) (ha : 0 < a) (hle : sd ≤ s + k) :
    (k = 0 ∧ s + a ≤ 34 → encodeDigits stray string isNegative ds sr z sd (s + k) s x =
      some (encodeValue isNegative bsonDecimal128ExponentMax
        (ofDigits (fromNonzero ds) * 10 ^ a))) ∧
    (k = 0 ∧ s + a = 35 →
      ∃ dec, encodeDigits stray string isNegative ds sr z sd (s + k) s x = some dec) ∧
    (k ≠ 0 ∨ 35 < s + a →
      encodeDigits stray string isNegative ds sr z sd (s + k) s x = none) := by
  have hat : (x - bsonDecimal128ExponentMax).toNat = a := by omega
  have hmin : min x bsonDecimal128ExponentMax = bsonDecimal128ExponentMax := by omega
  have hrange : (bsonDecimal128ExponentMin - bsonDecimal128ExponentMax).toNat = 0 := by decide
  have hup : shiftUp sd a x (s - 1) =
      if s + a ≤ 35 then some (bsonDecimal128ExponentMax, s - 1 + a) else none := by
    rw [← hat, shiftUp_spec hsd _ _ _ le_rfl, hmin]
    by_cases hc : s + a ≤ 35
    · rw [if_pos (by omega), if_pos (by omega)]
    · rw [if_neg (by omega), if_neg (by omega)]
  unfold encodeDigits
  rw [hat, hup]
  by_cases hc : s + a ≤ 35
  · rw [if_pos hc]
    by_cases hk0 : k = 0
    · have hstop : ¬ (bsonDecimal128ExponentMax < bsonDecimal128ExponentMin ∨ s < s + k) := by
        unfold bsonDecimal128ExponentMax bsonDecimal128ExponentMin
        omega
      have hround : ¬ (s - 1 + a + 1 < sd ∧
          string.getD (z + (s - 1 + a) + sr + 1) 0 ≠ 48) := by omega
      simp only [shiftDown_stop hstop, if_neg hround]
      refine ⟨fun h => ?_, fun _ => ⟨_, rfl⟩, by omega⟩
      have hlast : (fromNonzero ds ++ List.replicate a 0).length = s - 1 + a + 1 := by
        rw [List.length_append, List.length_replicate]
        omega
      have hshown := encode_shown stray isNegative bsonDecimal128ExponentMax
        (shows_zeros stray ds (a := a) (by omega)) hsd hlast (by omega)
      rw [ofDigits_append, ofDigits_replicate, List.length_replicate, Nat.add_zero] at hshown
      exact hshown
    · refine ⟨by omega, by omega, fun _ => ?_⟩
      have hl0 : s - 1 + a ≠ 0 := by omega
      have hno : ¬ Unstored string sr s k bsonDecimal128ExponentMax := by
        intro h
        have := h.2 (by omega)
        omega
      simp only [hrange, Nat.zero_add, Nat.add_sub_cancel_left]
      rw [(shiftDown_unstored hsd hl0 k k bsonDecimal128ExponentMax le_rfl).2 hno]
  · rw [if_neg hc]
    exact ⟨by omega, by omega, fun _ => rfl⟩

end Digits

/-! ## The characters of a numeral -/

/-- The octets the loops and look-ups count in front of a digit. -/
def Numeral.signAndRadix (n : Numeral) : Nat := n.sign.isSome.toNat + n.fraction.isSome.toNat

theorem signText_length (s : Option Bool) : (signText s).length = s.isSome.toNat := by
  rcases s with - | - | - <;> rfl

section Text

variable (n : Numeral) (spaces : Bytes)

theorem digitText_getD {ds : List (Fin 10)} {i : Nat} (hi : i < ds.length) (tail : Bytes) :
    (digitText ds ++ tail).getD i 0 = digit (ds.getD i 0).val := by
  rw [List.getD_eq_getElem?_getD, List.getElem?_append_left (by simpa using hi), digitText,
    List.getElem?_map, List.getD_eq_getElem?_getD, List.getElem?_eq_getElem hi]
  rfl

theorem spacedText_getD (i : Nat) :
    (spacedText n spaces).getD (i + n.sign.isSome.toNat) 0 =
      (digitText n.whole ++ (Numeral.fractionText n.fraction ++
        spacedExponent spaces n.exponent)).getD i 0 := by
  rw [spacedText, List.getD_eq_getElem?_getD, List.getElem?_append_right (by
    rw [signText_length]; omega), signText_length, Nat.add_sub_cancel,
    ← List.getD_eq_getElem?_getD]

/-- A digit in front of the radix. -/
theorem text_whole {i : Nat} (hi : i < n.whole.length) :
    (spacedText n spaces).getD (i + n.sign.isSome.toNat) 0 = digit (n.whole.getD i 0).val := by
  rw [spacedText_getD, digitText_getD hi]

theorem text_radix (hf : n.fraction.isSome = true) :
    (spacedText n spaces).getD (n.whole.length + n.sign.isSome.toNat) 0 = 46 := by
  obtain ⟨ds, hds⟩ := Option.isSome_iff_exists.mp hf
  rw [spacedText_getD, List.getD_eq_getElem?_getD,
    List.getElem?_append_right (by simp), hds]
  simp [Numeral.fractionText]

/-- A digit behind the radix. -/
theorem text_fraction {i : Nat} (hw : n.whole.length ≤ i) (hi : i < n.digits.length) :
    (spacedText n spaces).getD (i + Numeral.signAndRadix n) 0 = digit (n.digits.getD i 0).val := by
  have hdig : n.digits = n.whole ++ n.fraction.getD [] := rfl
  cases hf : n.fraction with
  | none =>
    have : n.digits.length = n.whole.length := by rw [hdig, hf]; simp
    omega
  | some ds =>
    have hlen : n.digits.length = n.whole.length + ds.length := by rw [hdig, hf]; simp
    have hget : n.digits.getD i 0 = ds.getD (i - n.whole.length) 0 := by
      rw [hdig, hf, Option.getD_some, List.getD_eq_getElem?_getD, List.getElem?_append_right hw,
        ← List.getD_eq_getElem?_getD]
    have hat : i + Numeral.signAndRadix n = i + 1 + n.sign.isSome.toNat := by
      rw [Numeral.signAndRadix, hf]
      simp only [Option.isSome_some, Bool.toNat_true]
      omega
    rw [hat, spacedText_getD, List.getD_eq_getElem?_getD,
      List.getElem?_append_right (by simp; omega), hf, hget, digitText_length,
      show i + 1 - n.whole.length = i - n.whole.length + 1 by omega]
    rw [show Numeral.fractionText (some ds) ++ spacedExponent spaces n.exponent =
      46 :: (digitText ds ++ spacedExponent spaces n.exponent) from rfl, List.getElem?_cons_succ,
      ← List.getD_eq_getElem?_getD, digitText_getD (by omega)]

/-- A digit of a numeral without radix. -/
theorem text_no_radix (hf : n.fraction = none) {i : Nat} (hi : i < n.digits.length) :
    (spacedText n spaces).getD (i + Numeral.signAndRadix n) 0 = digit (n.digits.getD i 0).val := by
  have hdig : n.digits = n.whole := by rw [Numeral.digits, hf]; simp
  have hsr : Numeral.signAndRadix n = n.sign.isSome.toNat := by
    rw [Numeral.signAndRadix, hf]
    rfl
  rw [hdig] at hi ⊢
  rw [hsr, text_whole n spaces hi]

/-- The significant digits that are counted are at least one. -/
theorem dropTrailingZeros_pos (h : fromNonzero n.digits ≠ []) :
    dropTrailingZeros (spacedText n spaces)
      (n.digits.length - (fromNonzero n.digits).length + Numeral.signAndRadix n)
      (fromNonzero n.digits).length ≠ 0 := by
  have hpos : 0 < (fromNonzero n.digits).length := List.length_pos_iff.mpr h
  have hle : (fromNonzero n.digits).length ≤ n.digits.length :=
    (List.dropWhile_suffix _).length_le
  have hlead : digit (n.digits.getD (n.digits.length - (fromNonzero n.digits).length) 0).val ≠
      48 := by
    obtain ⟨d, rest, hd⟩ := List.exists_cons_of_ne_nil h
    have hget := getD_fromNonzero n.digits 0
    rw [Nat.add_zero] at hget
    rw [hget, hd]
    intro hzero
    exact fromNonzero_lead hd (digit_injective (d := 0) hzero)
  have hlt : n.digits.length - (fromNonzero n.digits).length < n.digits.length := by omega
  cases hf : n.fraction with
  | none =>
    have hk := lt_dropTrailingZeros (spacedText n spaces)
      (n.digits.length - (fromNonzero n.digits).length + Numeral.signAndRadix n) hpos
      (by rw [Nat.add_zero, text_no_radix n spaces hf hlt]; exact hlead)
    omega
  | some ds =>
    by_cases hw : n.whole.length ≤ n.digits.length - (fromNonzero n.digits).length
    · have hk := lt_dropTrailingZeros (spacedText n spaces)
        (n.digits.length - (fromNonzero n.digits).length + Numeral.signAndRadix n) hpos
        (by rw [Nat.add_zero, text_fraction n spaces hw hlt]; exact hlead)
      omega
    · -- the radix stands behind the first digit that is not zero
      have hwl : n.whole.length ≤ n.digits.length := by rw [Numeral.digits]; simp
      have hat : n.digits.length - (fromNonzero n.digits).length + Numeral.signAndRadix n +
          (n.whole.length - (n.digits.length - (fromNonzero n.digits).length) - 1) =
          n.whole.length + n.sign.isSome.toNat := by
        rw [Numeral.signAndRadix, hf]
        simp only [Option.isSome_some, Bool.toNat_true]
        omega
      have hk := lt_dropTrailingZeros (spacedText n spaces)
        (n.digits.length - (fromNonzero n.digits).length + Numeral.signAndRadix n)
        (n := (fromNonzero n.digits).length)
        (k := n.whole.length - (n.digits.length - (fromNonzero n.digits).length) - 1) (by omega)
        (by rw [hat, text_radix n spaces (by rw [hf]; rfl)]; decide)
      omega

end Text

end LibBson.Source
