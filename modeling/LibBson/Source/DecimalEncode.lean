import LibBson.Source.DecimalScan
import LibBson.Source.DecimalPrint

/-!
# Normalizing and encoding

What the two loops over the exponent do in closed form, the value of the stored
digits as 128 bits, and the fields of the pattern put together from it.
-/

set_option autoImplicit false

namespace LibBson.Source
open LibBson.Library LibBson.Spec

/-! ## The exponent -/

/-- The exponent is corrected without overflow prevention and without wrapping. -/
theorem adjustExponent_exact {e : Int} {f : Nat} (hlo : -2147483648 ≤ e - f)
    (hhi : e ≤ 2147483647) (hf : 0 ≤ e → (f : Int) - e ≤ 16384) : adjustExponent e f = e - f := by
  have h32 : i32 (ofInt32 (e - f)) = e - f := i32_ofInt32 hlo (by omega)
  unfold adjustExponent
  rw [h32, Nat.shiftLeft_eq]
  unfold ofInt64 u64sub
  split <;> omega

/-- A number that is not zero can take up to 34 more places, counted from `lastDigit`. -/
theorem shiftUp_spec {significant : Nat} (hs : significant ≠ 0) (fuel : Nat) (x : Int) (last : Nat)
    (hfuel : (x - bsonDecimal128ExponentMax).toNat ≤ fuel) :
    shiftUp significant fuel x last =
      if x ≤ bsonDecimal128ExponentMax ∨ last + (x - bsonDecimal128ExponentMax).toNat ≤ 34 then
        some (min x bsonDecimal128ExponentMax, last + (x - bsonDecimal128ExponentMax).toNat)
      else none := by
  unfold bsonDecimal128ExponentMax at *
  induction fuel generalizing x last with
  | zero =>
    rw [shiftUp, if_pos (by omega), show (x - 6111).toNat = 0 by omega, Int.min_eq_left (by omega)]
    rfl
  | succ fuel ih =>
    unfold shiftUp bsonDecimal128ExponentMax bsonDecimal128MaxDigits
    by_cases hx : 6111 < x
    · rw [if_pos hx]
      by_cases hl : 34 < last + 1
      · rw [if_pos hl, if_neg hs, if_neg (by omega)]
      · rw [if_neg hl, ih (x - 1) (last + 1) (by omega)]
        have hstep : last + 1 + (x - 1 - 6111).toNat = last + (x - 6111).toNat := by omega
        have hmin : min (x - 1) 6111 = min x 6111 := by omega
        rw [hstep, hmin]
        by_cases hc : last + (x - 6111).toNat ≤ 34
        · rw [if_pos (Or.inr hc), if_pos (Or.inr hc)]
        · rw [if_neg (by omega), if_neg (by omega)]
    · rw [if_neg hx, if_pos (by omega), show (x - 6111).toNat = 0 by omega,
        Int.min_eq_left (by omega)]
      rfl

/-- For zero the exponent is clamped, and a small one is left with its digit. -/
theorem shiftUp_zero (fuel : Nat) (x : Int) (last : Nat)
    (hfuel : (x - bsonDecimal128ExponentMax).toNat ≤ fuel) :
    ∃ l, shiftUp 0 fuel x last = some (min x bsonDecimal128ExponentMax, l) ∧
      (x ≤ bsonDecimal128ExponentMax → l = last) := by
  unfold bsonDecimal128ExponentMax at *
  induction fuel generalizing x last with
  | zero =>
    refine ⟨last, ?_, fun _ => rfl⟩
    rw [shiftUp, Int.min_eq_left (by omega)]
  | succ fuel ih =>
    unfold shiftUp bsonDecimal128ExponentMax bsonDecimal128MaxDigits
    by_cases hx : 6111 < x
    · rw [if_pos hx]
      by_cases hl : 34 < last + 1
      · refine ⟨last + 1, ?_, by omega⟩
        rw [if_pos hl, if_pos rfl, Int.min_eq_right (by omega)]
      · obtain ⟨l, hstep, -⟩ := ih (x - 1) (last + 1) (by omega)
        refine ⟨l, ?_, by omega⟩
        rw [if_neg hl, hstep, show min (x - 1) 6111 = min x 6111 by omega]
    · refine ⟨last, ?_, fun _ => rfl⟩
      rw [if_neg hx, Int.min_eq_left (by omega)]

section Shift

variable (string : Bytes) (signAndRadix : Nat) (digit : Nat → Nat)

/-- The characters that stand for `k` digits not stored are zeros, and the exponent
has room for them. -/
def Unstored (ndigitsStored k : Nat) (x : Int) : Prop :=
  (∀ i < k, string.getD (ndigitsStored + i + signAndRadix) 0 = 48) ∧
    (0 < k → x + k ≤ bsonDecimal128ExponentMax)

/-- The last `b` stored digits are zeros, and there is another in front of them. -/
def StoredZeros (lastDigit b : Nat) : Prop :=
  b ≤ lastDigit ∧ ∀ i < b, digit (lastDigit - i) = 0

variable {string signAndRadix digit}

theorem shiftDown_stop {significant fuel stored ndigits : Nat} {x : Int} {last : Nat}
    (h : ¬ (x < bsonDecimal128ExponentMin ∨ stored < ndigits)) :
    shiftDown string signAndRadix digit stored significant fuel x last ndigits = some (x, last) := by
  cases fuel with
  | zero => rfl
  | succ fuel => rw [shiftDown, if_neg h]

theorem unstored_succ {stored k : Nat} {x : Int} :
    Unstored string signAndRadix stored (k + 1) x ↔
      string.getD (stored + k + signAndRadix) 0 = 48 ∧ x < bsonDecimal128ExponentMax ∧
        Unstored string signAndRadix stored k (x + 1) := by
  constructor
  · rintro ⟨hz, hroom⟩
    have hr := hroom (by omega)
    refine ⟨hz k (by omega), by omega, fun i hi => hz i (by omega), fun _ => by omega⟩
  · rintro ⟨hk, hx, hz, hroom⟩
    refine ⟨fun i hi => ?_, fun _ => ?_⟩
    · obtain rfl | hlt : i = k ∨ i < k := by omega
      · exact hk
      · exact hz i hlt
    · by_cases h0 : 0 < k
      · have hr := hroom h0
        omega
      · omega

/-- The digits that are not stored go first. -/
theorem shiftDown_unstored {significant stored : Nat} (hs : significant ≠ 0) {last : Nat}
    (hl : last ≠ 0) (k fuel : Nat) (x : Int) (hfuel : k ≤ fuel) :
    (Unstored string signAndRadix stored k x →
      shiftDown string signAndRadix digit stored significant fuel x last (stored + k) =
        shiftDown string signAndRadix digit stored significant (fuel - k) (x + k) last stored) ∧
    (¬ Unstored string signAndRadix stored k x →
      shiftDown string signAndRadix digit stored significant fuel x last (stored + k) = none) := by
  induction k generalizing x fuel with
  | zero =>
    refine ⟨fun _ => by simp, fun h => absurd ⟨?_, ?_⟩ h⟩
    · intro i hi
      omega
    · intro h0
      omega
  | succ k ih =>
    obtain ⟨fuel, rfl⟩ : ∃ j, fuel = j + 1 := ⟨fuel - 1, by omega⟩
    have hlt : stored < stored + (k + 1) := by omega
    have hat : stored + (k + 1) - 1 + signAndRadix = stored + k + signAndRadix := by omega
    rw [shiftDown, if_pos (Or.inr hlt), if_neg hl, if_pos hlt, hat, unstored_succ]
    by_cases hc : string.getD (stored + k + signAndRadix) 0 = 48
    · rw [if_neg (fun h => h.1 hc)]
      by_cases hx : x < bsonDecimal128ExponentMax
      · obtain ⟨hyes, hno⟩ := ih fuel (x + 1) (by omega)
        have hcast : x + ((k + 1 : Nat) : Int) = x + 1 + k := by omega
        rw [if_pos hx, show stored + (k + 1) - 1 = stored + k by omega, Nat.add_sub_add_right,
          hcast]
        exact ⟨fun h => hyes h.2.2, fun h => hno fun hu => h ⟨hc, hx, hu⟩⟩
      · rw [if_neg hx]
        exact ⟨fun h => absurd h.2.1 hx, fun _ => rfl⟩
    · rw [if_pos ⟨hc, hs⟩]
      exact ⟨fun h => absurd h.1 hc, fun _ => rfl⟩

theorem storedZeros_succ {last b : Nat} :
    StoredZeros digit last (b + 1) ↔
      last ≠ 0 ∧ digit last = 0 ∧ StoredZeros digit (last - 1) b := by
  constructor
  · rintro ⟨hb, hz⟩
    refine ⟨by omega, hz 0 (by omega), by omega, fun i hi => ?_⟩
    rw [show last - 1 - i = last - (i + 1) by omega]
    exact hz (i + 1) (by omega)
  · rintro ⟨hl, hd, hb, hz⟩
    refine ⟨by omega, fun i hi => ?_⟩
    cases i with
    | zero => exact hd
    | succ i =>
      rw [show last - (i + 1) = last - 1 - i by omega]
      exact hz i (by omega)

/-- Then the stored ones, until the exponent is in range. -/
theorem shiftDown_stored (string : Bytes) (signAndRadix : Nat) (digit : Nat → Nat) (stored : Nat)
    {significant : Nat} (hs : significant ≠ 0) (b fuel : Nat) (x : Int)
    (last : Nat) (hb : (bsonDecimal128ExponentMin - x).toNat = b) (hfuel : b ≤ fuel) :
    (StoredZeros digit last b →
      shiftDown string signAndRadix digit stored significant fuel x last stored =
        some (max x bsonDecimal128ExponentMin, last - b)) ∧
    (¬ StoredZeros digit last b →
      shiftDown string signAndRadix digit stored significant fuel x last stored = none) := by
  unfold bsonDecimal128ExponentMin at *
  induction b generalizing x fuel last with
  | zero =>
    have hstop : ¬ (x < bsonDecimal128ExponentMin ∨ stored < stored) := by
      unfold bsonDecimal128ExponentMin
      omega
    rw [shiftDown_stop hstop, Int.max_eq_left (by omega)]
    refine ⟨fun _ => rfl, fun h => absurd ⟨Nat.zero_le _, ?_⟩ h⟩
    intro i hi
    omega
  | succ b ih =>
    obtain ⟨fuel, rfl⟩ : ∃ j, fuel = j + 1 := ⟨fuel - 1, by omega⟩
    have hloop : x < bsonDecimal128ExponentMin ∨ stored < stored := by
      unfold bsonDecimal128ExponentMin
      omega
    have hxmax : x < bsonDecimal128ExponentMax := by
      unfold bsonDecimal128ExponentMax
      omega
    rw [shiftDown, if_pos hloop, if_neg hs, if_neg (Nat.lt_irrefl _), storedZeros_succ]
    by_cases hl : last = 0
    · rw [if_pos hl]
      exact ⟨fun h => absurd hl h.1, fun _ => rfl⟩
    · rw [if_neg hl]
      by_cases hd : digit last = 0
      · obtain ⟨hyes, hno⟩ := ih fuel (x + 1) (last - 1) (by omega) (by omega)
        rw [if_neg (fun h => h hd), if_pos hxmax]
        rw [show max (x + 1) (-6176) = max x (-6176) by omega,
          show last - 1 - b = last - (b + 1) by omega] at hyes
        exact ⟨fun h => hyes h.2.2, fun h => hno fun hu => h ⟨hl, hd, hu⟩⟩
      · rw [if_pos hd]
        exact ⟨fun h => absurd h.2.1 hd, fun _ => rfl⟩

end Shift

/-! ## The significand -/

/-- The digits that `digit` gives from zero on. -/
def GivesDigits (digit : Nat → Nat) (ds : List (Fin 10)) : Prop :=
  ∀ i (h : i < ds.length), digit i = (ds[i]).val

theorem accumulate_spec {digit : Nat → Nat} {ds : List (Fin 10)} (h : GivesDigits digit ds)
    (n i acc k : Nat) (hi : i + n ≤ ds.length) (hacc : acc < 10 ^ k) (hk : k + n ≤ 19) :
    accumulate digit n i acc = acc * 10 ^ n + ofDigits ((ds.drop i).take n) := by
  induction n generalizing i acc k with
  | zero => simp [accumulate]
  | succ n ih =>
    have hlt : i < ds.length := by omega
    have hd := (ds[i]).isLt
    have hp : 10 ^ (k + 1) ≤ 10 ^ 19 := Nat.pow_le_pow_right (by decide) (by omega)
    have h19 : (10 : Nat) ^ 19 = 10000000000000000000 := by norm_num
    have hstep : u64 (u64 (acc * 10) + digit i) = acc * 10 + (ds[i]).val := by
      rw [h i hlt, Nat.pow_succ] at *
      unfold u64
      omega
    have hbound : acc * 10 + (ds[i]).val < 10 ^ (k + 1) := by
      rw [Nat.pow_succ]
      omega
    rw [accumulate, hstep, ih (i + 1) _ (k + 1) (by omega) hbound (by omega),
      List.drop_eq_getElem_cons hlt, List.take_succ_cons, ofDigits_cons, List.length_take,
      List.length_drop, Nat.min_eq_left (by omega), Nat.pow_succ]
    ring

/-- A digit and the `n` digits behind it. -/
theorem accumulate_slice {digit : Nat → Nat} {ds : List (Fin 10)} (h : GivesDigits digit ds)
    {n i : Nat} (hi : i + 1 + n ≤ ds.length) (hn : n ≤ 17) :
    accumulate digit n (i + 1) (digit i) = ofDigits ((ds.drop i).take (n + 1)) := by
  have hlt : i < ds.length := by omega
  have hd : digit i = (ds[i]).val := h i hlt
  have hd10 := (ds[i]).isLt
  rw [accumulate_spec h n (i + 1) (digit i) 1 (by omega) (by omega) (by omega), hd,
    List.drop_eq_getElem_cons hlt, List.take_succ_cons, ofDigits_cons, List.length_take,
    List.length_drop, Nat.min_eq_left (by omega)]

/-- The halves hold the first digits and the last seventeen. -/
theorem significandHalves_spec {digit : Nat → Nat} {ds : List (Fin 10)} (h : GivesDigits digit ds)
    {significant last : Nat} (hs : significant ≠ 0) (hlen : ds.length = last + 1)
    (hlast : last < 34) :
    (significandHalves digit significant last).1 * 10 ^ 17 +
        (significandHalves digit significant last).2 = ofDigits ds ∧
      (significandHalves digit significant last).1 < 10 ^ 17 ∧
      (significandHalves digit significant last).2 < 10 ^ 17 := by
  have power : ∀ k, k ≤ 17 → 10 ^ k ≤ 10 ^ 17 := fun k hk =>
    Nat.pow_le_pow_right (by decide) hk
  unfold significandHalves
  rw [if_neg hs]
  split
  · rename_i hl
    have hval := accumulate_slice h (n := last) (i := 0) (by omega) (by omega)
    rw [List.drop_zero, List.take_of_length_le (by omega)] at hval
    have hbound := ofDigits_lt ds
    have hp := power ds.length (by omega)
    dsimp only
    rw [hval]
    omega
  · rename_i hl
    have hhigh := accumulate_slice h (n := last - 17) (i := 0) (by omega) (by omega)
    have hlow := accumulate_slice h (n := 16) (i := last - 16) (by omega) (by omega)
    rw [List.drop_zero, show last - 17 + 1 = last - 16 by omega] at hhigh
    rw [show last - 16 + 1 = last - 15 by omega,
      List.take_of_length_le (by rw [List.length_drop]; omega)] at hlow
    have hsum := ofDigits_append (ds.take (last - 16)) (ds.drop (last - 16))
    have hdrop : (ds.drop (last - 16)).length = 17 := by rw [List.length_drop]; omega
    have htake : (ds.take (last - 16)).length = last - 16 := by rw [List.length_take]; omega
    rw [List.take_append_drop, hdrop] at hsum
    have hb1 := ofDigits_lt (ds.take (last - 16))
    have hb2 := ofDigits_lt (ds.drop (last - 16))
    rw [htake] at hb1
    rw [hdrop] at hb2
    have hp := power (last - 16) (by omega)
    dsimp only
    rw [hhigh, hlow]
    omega

/-- The product is exact. -/
theorem mul64x64_spec (left right : Nat) (hl : left < 2 ^ 64) (hr : right < 2 ^ 64) :
    (mul64x64 left right).1 * 2 ^ 64 + (mul64x64 left right).2 = left * right ∧
      (mul64x64 left right).2 < 2 ^ 64 := by
  unfold mul64x64
  split
  · rename_i h
    rw [h.1]
    simp
  · have ha : left >>> 32 = left / 4294967296 := Nat.shiftRight_eq_div_pow _ _
    have hc : right >>> 32 = right / 4294967296 := Nat.shiftRight_eq_div_pow _ _
    have hb : u32 left = left % 4294967296 := rfl
    have hd : u32 right = right % 4294967296 := rfl
    have hleft : left = left / 4294967296 * 4294967296 + left % 4294967296 := by omega
    have hright : right = right / 4294967296 * 4294967296 + right % 4294967296 := by omega
    have ha32 : left / 4294967296 ≤ 4294967295 := by omega
    have hb32 : left % 4294967296 ≤ 4294967295 := by omega
    have hc32 : right / 4294967296 ≤ 4294967295 := by omega
    have hd32 : right % 4294967296 ≤ 4294967295 := by omega
    simp only [ha, hb, hc, hd]
    generalize left / 4294967296 = a at *
    generalize left % 4294967296 = b at *
    generalize right / 4294967296 = c at *
    generalize right % 4294967296 = d at *
    -- the four partial products as numbers of their own
    have hac := Nat.mul_le_mul ha32 hc32
    have had := Nat.mul_le_mul ha32 hd32
    have hbc := Nat.mul_le_mul hb32 hc32
    have hbd := Nat.mul_le_mul hb32 hd32
    have hprod : left * right =
        a * c * 18446744073709551616 + (a * d + b * c) * 4294967296 + b * d := by
      rw [hleft, hright]
      ring
    rw [hprod]
    generalize a * c = p at *
    generalize a * d = m at *
    generalize b * c = m2 at *
    generalize b * d = l at *
    simp only [Nat.shiftRight_eq_div_pow, Nat.shiftLeft_eq]
    unfold u64 u32
    omega

theorem joinHalves_spec {high low : Nat} (hh : high < 10 ^ 17) (hl : low < 10 ^ 17) :
    (joinHalves high low).1 * 2 ^ 64 + (joinHalves high low).2 = high * 10 ^ 17 + low ∧
      (joinHalves high low).2 < 2 ^ 64 := by
  have h17 : (10 : Nat) ^ 17 = 100000000000000000 := by norm_num
  rw [h17] at *
  obtain ⟨hprod, hlow⟩ := mul64x64_spec high 100000000000000000
    (by omega) (by omega)
  unfold joinHalves
  rcases hm : mul64x64 high 100000000000000000 with ⟨ph, pl⟩
  rw [hm] at hprod hlow
  dsimp only at hprod hlow ⊢
  have hph : ph < 1125899906842624 := by omega
  have hnext : u64 (ph + 1) = ph + 1 := Nat.mod_eq_of_lt (by omega)
  rw [hnext]
  unfold u64
  split <;> omega

/-- Sign, exponent and coefficient side by side. -/
theorem encodeDecimal_words (isNegative : Bool) {x : Int} (high low : Nat)
    (hlo : bsonDecimal128ExponentMin ≤ x) (hhi : x ≤ bsonDecimal128ExponentMax)
    (hh : high < 2 ^ 49) (hl : low < 2 ^ 64) :
    (encodeDecimal isNegative x high low).high.toNat =
        (if isNegative then 2 ^ 63 else 0) + (x + 6176).toNat * 2 ^ 49 + high ∧
      (encodeDecimal isNegative x high low).low.toNat = low := by
  unfold bsonDecimal128ExponentMin at hlo
  unfold bsonDecimal128ExponentMax at hhi
  have hbiased : ofInt32 (x + bsonDecimal128ExponentBias) % 65536 = (x + 6176).toNat := by
    unfold bsonDecimal128ExponentBias ofInt32
    omega
  have hlayout : (high >>> 49) &&& 1 ≠ 1 := by
    rw [Nat.shiftRight_eq_div_pow, show high / 2 ^ 49 = 0 by omega]
    decide
  have hexp : (x + 6176).toNat &&& 0x3fff = (x + 6176).toNat := by
    rw [show (0x3fff : Nat) = 2 ^ 14 - 1 from rfl, mask]
    omega
  have hcoef : high &&& 0x1ffffffffffff = high := by
    rw [show (0x1ffffffffffff : Nat) = 2 ^ 49 - 1 from rfl, mask]
    omega
  have hword : ((x + 6176).toNat <<< 49) ||| high = (x + 6176).toNat * 2 ^ 49 + high := by
    rw [← Nat.shiftLeft_add_eq_or_of_lt hh, Nat.shiftLeft_eq]
  have hsign : ((x + 6176).toNat * 2 ^ 49 + high) ||| 0x8000000000000000 =
      2 ^ 63 + ((x + 6176).toNat * 2 ^ 49 + high) := by
    have hlt : (x + 6176).toNat * 2 ^ 49 + high < 2 ^ 63 := by omega
    have h := Nat.shiftLeft_add_eq_or_of_lt hlt 1
    rw [Nat.or_comm, show (0x8000000000000000 : Nat) = 1 <<< 63 from rfl, ← h]
    rfl
  simp only [encodeDecimal, hbiased, if_neg hlayout, hexp, hcoef, hword, BitVec.toNat_ofNat]
  cases isNegative with
  | false =>
    simp only [Bool.false_eq_true, if_false]
    omega
  | true =>
    simp only [if_true, hsign]
    omega

/-- Stored digits put together with an exponent in range. -/
def encodeValue (isNegative : Bool) (x : Int) (v : Nat) : BsonDecimal128 :=
  encodeDecimal isNegative x (v / 2 ^ 64) (v % 2 ^ 64)

theorem pattern_encodeValue (isNegative : Bool) {x : Int} {v : Nat}
    (hlo : bsonDecimal128ExponentMin ≤ x) (hhi : x ≤ bsonDecimal128ExponentMax)
    (hv : v < 2 ^ 113) :
    (encodeValue isNegative x v).pattern =
      (if isNegative then 2 ^ 127 else 0) + (x + 6176).toNat * 2 ^ 113 + v := by
  obtain ⟨hhigh, hlow⟩ := encodeDecimal_words isNegative
    (v / 2 ^ 64) (v % 2 ^ 64) hlo hhi (by omega) (Nat.mod_lt _ (by decide))
  unfold BsonDecimal128.pattern encodeValue
  rw [hhigh, hlow]
  cases isNegative with
  | false =>
    simp only [Bool.false_eq_true, if_false]
    omega
  | true =>
    simp only [if_true]
    omega

theorem coefficientLimit_lt : coefficientLimit < 2 ^ 113 := by
  unfold coefficientLimit
  norm_num

/-- The pattern stands for what was put together. -/
theorem bidValue_encodeValue (isNegative : Bool) {x : Int} {v : Nat}
    (hlo : bsonDecimal128ExponentMin ≤ x) (hhi : x ≤ bsonDecimal128ExponentMax)
    (hv : v < coefficientLimit) :
    bidValue (encodeValue isNegative x v).pattern = .finite isNegative v x := by
  have hlimit := coefficientLimit_lt
  have hp := pattern_encodeValue isNegative hlo hhi (v := v) (by omega)
  unfold bsonDecimal128ExponentMin at hlo
  unfold bsonDecimal128ExponentMax at hhi
  generalize (encodeValue isNegative x v).pattern = p at hp
  have hneg : (bits p 127 1 == 1) = isNegative := by
    unfold bits
    cases isNegative <;> simp only [Bool.false_eq_true, if_false, if_true] at hp
    · rw [beq_eq_false_iff_ne]
      omega
    · rw [beq_iff_eq]
      omega
  have hlayout : bits p 125 2 ≠ 3 := by
    unfold bits
    cases isNegative <;> simp only [Bool.false_eq_true, if_false, if_true] at hp <;> omega
  have hexp : bits p 113 14 = (x + 6176).toNat := by
    unfold bits
    cases isNegative <;> simp only [Bool.false_eq_true, if_false, if_true] at hp <;> omega
  have hcoef : bits p 0 113 = v := by
    unfold bits
    cases isNegative <;> simp only [Bool.false_eq_true, if_false, if_true] at hp <;> omega
  have hx : (((x + 6176).toNat : Nat) : Int) - 6176 = x := by omega
  rw [bidValue_finite (finite_of_layout hlayout), hneg, bidFields, if_neg hlayout, hexp, hcoef,
    if_pos hv, hx]

end LibBson.Source
