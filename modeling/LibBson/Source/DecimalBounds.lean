import LibBson.Source.DecimalAccess

/-!
# Where the accesses of `bson_decimal128_from_string` lie

The string is read up to its NUL and no further, whatever it is. Of `digits` the
index 34 is reached: the loop that shifts the exponent up lets `last_digit` become
34, one more than the last index, and the encoding reads up to `last_digit`.
-/

set_option autoImplicit false

namespace LibBson.Source
open LibBson.Library LibBson.Spec Logged

/-! ## Scanning -/

theorem dec128IstreqLog_below (p : Nat) (a b : Bytes) :
    (dec128IstreqLog p a b).TextBelow (p + a.length + 1) ∧
      (dec128IstreqLog p a b).ArrayBelow 34 := by
  induction a generalizing p b with
  | nil => cases b <;> simp [dec128IstreqLog]
  | cons x a ih =>
    cases b with
    | nil =>
      constructor
      · simp only [dec128IstreqLog, textBelow_bind, textBelow_char, textBelow_pure, and_true]
        omega
      · simp [dec128IstreqLog]
    | cons y b =>
      obtain ⟨htext, harray⟩ := ih (p + 1) b
      rw [show p + 1 + a.length + 1 = p + (x :: a).length + 1 by simp; omega] at htext
      simp only [dec128IstreqLog, textBelow_bind, textBelow_char, textBelow_ite, arrayBelow_bind,
        arrayBelow_char, arrayBelow_ite, textBelow_pure, arrayBelow_pure, implies_true, and_true,
        true_and]
      exact ⟨⟨by omega, fun _ => htext⟩, fun _ => harray⟩

theorem readWordLog_below (p : Nat) (str : Bytes) (isNegative : Bool) :
    (readWordLog p str isNegative).TextBelow (p + str.length + 1) ∧
      (readWordLog p str isNegative).ArrayBelow 34 := by
  have hword := dec128IstreqLog_below p str
  simp only [readWordLog, textBelow_bind, textBelow_ite, arrayBelow_bind, arrayBelow_ite,
    textBelow_pure, arrayBelow_pure, implies_true, and_true, true_and]
  exact ⟨⟨(hword _).1, fun _ => ⟨(hword _).1, fun _ => (hword _).1⟩⟩,
    ⟨(hword _).2, fun _ => ⟨(hword _).2, fun _ => (hword _).2⟩⟩⟩

theorem readDigitsLog_below (p : Nat) (str : Bytes) (s : DigitScan) :
    (readDigitsLog p str s).TextBelow (p + str.length + 1) ∧
      (readDigitsLog p str s).ArrayBelow 34 ∧
      ∀ t q tail, (readDigitsLog p str s).val = some (t, q, tail) →
        q + tail.length = p + str.length := by
  induction str generalizing p s with
  | nil =>
    refine ⟨by simp [readDigitsLog], by simp [readDigitsLog], ?_⟩
    intro t q tail h
    simp only [readDigitsLog, val_bind, val_pure, Option.some.injEq, Prod.mk.injEq] at h
    obtain ⟨-, rfl, rfl⟩ := h
    rfl
  | cons c rest ih =>
    have hlen : p + 1 + rest.length = p + (c :: rest).length := by simp; omega
    have hnext : ∀ s', (readDigitsLog (p + 1) rest s').TextBelow (p + (c :: rest).length + 1) ∧
        (readDigitsLog (p + 1) rest s').ArrayBelow 34 ∧
        ∀ t q tail, (readDigitsLog (p + 1) rest s').val = some (t, q, tail) →
          q + tail.length = p + (c :: rest).length := by
      intro s'
      rw [← hlen]
      exact ih (p + 1) s'
    simp only [readDigitsLog, textBelow_bind, textBelow_char, textBelow_ite, textBelow_pure,
      textBelow_onlyIf, textBelow_slot, arrayBelow_bind, arrayBelow_char, arrayBelow_ite,
      arrayBelow_pure, arrayBelow_onlyIf, arrayBelow_slot, val_bind, val_ite, val_pure,
      implies_true, and_true, true_and]
    refine ⟨⟨by omega, fun _ => fun _ => (hnext _).1, fun _ => fun _ => (hnext _).1⟩,
      ⟨fun _ => fun _ => (hnext _).2.1, fun _ => fun _ => ⟨fun h => h.1, (hnext _).2.1⟩⟩, ?_⟩
    intro t q tail h
    split_ifs at h
    · exact (hnext _).2.2 t q tail h
    · exact (hnext _).2.2 t q tail h
    · simp only [Option.some.injEq, Prod.mk.injEq] at h
      obtain ⟨-, rfl, rfl⟩ := h
      rfl

theorem readExponentLog_below (wide : Int → BitVec 32) (p : Nat) (str : Bytes) :
    (readExponentLog wide p str).TextBelow (p + str.length + 1) ∧
      (readExponentLog wide p str).ArrayBelow 34 := by
  cases str with
  | nil => simp [readExponentLog]
  | cons c rest =>
    simp only [readExponentLog, textBelow_bind, textBelow_char, textBelow_ite, textBelow_pure,
      textBelow_chars, arrayBelow_bind, arrayBelow_char, arrayBelow_ite, arrayBelow_pure,
      arrayBelow_chars, implies_true, and_true]
    refine ⟨by simp only [List.length_cons]; omega, fun _ => ?_⟩
    intro i hi
    obtain ⟨j, hj, rfl⟩ := List.mem_map.mp hi
    have hlt := List.mem_range.mp hj
    simp only [List.length_cons]
    omega

/-! ## The digits that were read -/

/-- As long as a significant digit is left the scan stays in the text. -/
theorem dropTrailingZerosLog_below {string : Bytes} {start k n : Nat}
    (h : dropTrailingZeros string start k ≠ 0) (hn : start + k ≤ n) :
    (dropTrailingZerosLog string start k).TextBelow n ∧
      (dropTrailingZerosLog string start k).ArrayBelow 34 := by
  induction k with
  | zero => exact absurd rfl h
  | succ k ih =>
    simp only [dropTrailingZerosLog, textBelow_bind, textBelow_char, textBelow_ite, textBelow_pure,
      arrayBelow_bind, arrayBelow_char, arrayBelow_ite, arrayBelow_pure, implies_true, and_true,
      true_and]
    rw [dropTrailingZeros] at h
    refine ⟨⟨by omega, fun hz => ?_⟩, fun hz => ?_⟩
    · rw [if_pos hz] at h
      exact (ih h (by omega)).1
    · rw [if_pos hz] at h
      exact (ih h (by omega)).2

section Shift

variable (string : Bytes) (signAndRadix : Nat) (digit : Nat → Nat) (stored significant : Nat)

/-- Shifting down only lowers the two indices it looks up. -/
theorem shiftDownLog_below (n k fuel : Nat) (x : Int) (last ndigits : Nat)
    (hn : ndigits + signAndRadix ≤ n) (hk : last < k) :
    (shiftDownLog string signAndRadix digit stored significant fuel x last ndigits).TextBelow n ∧
      (shiftDownLog string signAndRadix digit stored significant fuel x last ndigits).ArrayBelow
        k := by
  induction fuel generalizing x last ndigits with
  | zero => simp [shiftDownLog]
  | succ fuel ih =>
    simp only [shiftDownLog, textBelow_bind, textBelow_char, textBelow_ite, textBelow_pure,
      textBelow_slot, arrayBelow_bind, arrayBelow_char, arrayBelow_ite, arrayBelow_pure,
      arrayBelow_slot, implies_true, and_true, true_and]
    constructor
    · intro _ _
      exact ⟨fun hs => ⟨by omega, fun _ _ => (ih (x + 1) last (ndigits - 1) (by omega) hk).1⟩,
        fun _ _ _ => (ih (x + 1) (last - 1) ndigits hn (by omega)).1⟩
    · intro _ _
      exact ⟨fun hs _ _ => (ih (x + 1) last (ndigits - 1) (by omega) hk).2,
        fun _ => ⟨hk, fun _ _ => (ih (x + 1) (last - 1) ndigits hn (by omega)).2⟩⟩

variable {string signAndRadix digit stored significant} in
theorem shiftDown_le {fuel : Nat} {x y : Int} {last ndigits l : Nat}
    (h : shiftDown string signAndRadix digit stored significant fuel x last ndigits = some (y, l)) :
    l ≤ last := by
  induction fuel generalizing x last ndigits with
  | zero =>
    simp only [shiftDown, Option.some.injEq, Prod.mk.injEq] at h
    omega
  | succ fuel ih =>
    rw [shiftDown] at h
    split_ifs at h with h1 h2 h3 h4 h5 h6 h7 h8
    · simp only [Option.some.injEq, Prod.mk.injEq] at h
      omega
    · exact ih h
    · exact Nat.le_trans (ih h) (Nat.sub_le last 1)
    · simp only [Option.some.injEq, Prod.mk.injEq] at h
      omega

/-- At the largest exponent nothing is shifted: it stops, or gives up over a digit that
is not stored. -/
theorem shiftDownLog_max (n fuel last ndigits : Nat)
    (hn : ndigits + signAndRadix ≤ n) (hlast : last ≠ 0) (hfuel : ndigits - stored ≤ fuel) :
    (shiftDownLog string signAndRadix digit stored significant fuel bsonDecimal128ExponentMax last
        ndigits).TextBelow n ∧
      (shiftDownLog string signAndRadix digit stored significant fuel bsonDecimal128ExponentMax last
        ndigits).ArrayBelow 34 ∧
      (shiftDownLog string signAndRadix digit stored significant fuel bsonDecimal128ExponentMax last
          ndigits).val =
        if stored < ndigits then none else some (bsonDecimal128ExponentMax, last) := by
  have hmin : ¬ bsonDecimal128ExponentMax < bsonDecimal128ExponentMin := by decide
  cases fuel with
  | zero => simp [shiftDownLog, show ¬ stored < ndigits by omega]
  | succ fuel =>
    by_cases hs : stored < ndigits
    · simp only [shiftDownLog, hs, or_true, if_true, if_neg hlast, lt_irrefl, if_false, ite_self,
        textBelow_bind, textBelow_char, textBelow_pure, and_true, arrayBelow_bind, arrayBelow_char,
        arrayBelow_pure, val_bind, val_pure]
      omega
    · simp [shiftDownLog, hs, hmin]

end Shift

theorem accumulateLog_below (digit : Nat → Nat) (n i acc k m : Nat) :
    (accumulateLog digit n i acc).TextBelow m ∧
      ((accumulateLog digit n i acc).ArrayBelow k ↔ n = 0 ∨ i + n ≤ k) := by
  induction n generalizing i acc with
  | zero => simp [accumulateLog]
  | succ n ih =>
    simp only [accumulateLog, textBelow_bind, textBelow_slot, arrayBelow_bind, arrayBelow_slot,
      (ih _ _).2, true_and]
    refine ⟨(ih _ _).1, ?_⟩
    omega

/-- The encoding reads the digits up to `last`. -/
theorem significandHalvesLog_below (digit : Nat → Nat) (significant last m : Nat) :
    (significandHalvesLog digit significant last).TextBelow m ∧
      ((significandHalvesLog digit significant last).ArrayBelow 34 ↔
        significant = 0 ∨ last < 34) := by
  have hacc := fun n i acc => accumulateLog_below digit n i acc 34 m
  simp only [significandHalvesLog, textBelow_ite, textBelow_bind, textBelow_slot, textBelow_pure,
    arrayBelow_ite, arrayBelow_bind, arrayBelow_slot, arrayBelow_pure, (hacc _ _ _).1,
    (hacc _ _ _).2, implies_true, and_true, true_and]
  by_cases hz : significant = 0
  · simp [hz]
  · by_cases h17 : last < 17
    · simp [hz, h17]
      omega
    · simp [hz, h17]
      omega

theorem roundLog_below (string : Bytes) (isNegative : Bool)
    (signAndRadix firstNonzero significant last n : Nat) (digit : Nat → Nat) (x : Int)
    (hn : firstNonzero + significant + signAndRadix ≤ n) :
    (roundLog string isNegative signAndRadix firstNonzero significant digit x last).TextBelow n ∧
      ((roundLog string isNegative signAndRadix firstNonzero significant digit x last).ArrayBelow 34 ↔
        (last + 1 < significant ∧
          string.getD (firstNonzero + last + signAndRadix + 1) 0 ≠ 48) ∨
        significant = 0 ∨ last < 34) := by
  obtain ⟨htext, harray⟩ := significandHalvesLog_below digit significant last n
  simp only [roundLog, textBelow_bind, textBelow_onlyIf, textBelow_char, textBelow_ite,
    textBelow_pure, arrayBelow_bind, arrayBelow_onlyIf, arrayBelow_char, arrayBelow_ite,
    arrayBelow_pure, htext, harray, implies_true, and_true, true_and]
  constructor
  · intro h
    omega
  · constructor
    · intro h
      by_cases hoff : last + 1 < significant ∧
          string.getD (firstNonzero + last + signAndRadix + 1) 0 ≠ 48
      · exact Or.inl hoff
      · exact Or.inr (h hoff)
    · intro h hoff
      rcases h with h | h
      · exact absurd h hoff
      · exact h

/-! ## The whole string -/

/-- What needs a 35th digit: a number whose exponent can only be brought into the
range by 34 digits behind its first one. -/
def NeedsDigit35 (wide : Int → BitVec 32) (string : Bytes) : Prop :=
  ∃ (n : Numeral) (spaces : Bytes), string = spacedText n spaces ∧
    (∀ c ∈ spaces, isspace c = true) ∧ fromNonzero n.digits ≠ [] ∧
    bsonDecimal128ExponentMax < adjusted wide n ∧
    ((fromNonzero n.digits).length : Int) + (adjusted wide n - bsonDecimal128ExponentMax) = 35

/-- For a zero nothing is looked up. -/
theorem shiftDownLog_zero (string : Bytes) (signAndRadix : Nat) (digit : Nat → Nat) (fuel n k : Nat)
    {x : Int} {last : Nat} (h : x < bsonDecimal128ExponentMin → last = 0) :
    (shiftDownLog string signAndRadix digit 1 0 fuel x last 1).TextBelow n ∧
      (shiftDownLog string signAndRadix digit 1 0 fuel x last 1).ArrayBelow k := by
  cases fuel with
  | zero => simp [shiftDownLog]
  | succ fuel =>
    rw [shiftDownLog]
    by_cases hx : x < bsonDecimal128ExponentMin
    · rw [if_pos (Or.inl hx), if_pos (h hx), if_pos rfl]
      simp
    · rw [if_neg (by simpa using hx)]
      simp

section Scan

variable (stray : Nat → BitVec 16) (string : Bytes) (isNegative includesSign sawRadix : Bool)

/-- A zero: one entry is set, none is looked up. -/
theorem encodeScanLog_zero {ds : List (Fin 10)} (f : Nat) (e : Int) (n : Nat)
    (h : fromNonzero ds = []) (hn : includesSign.toNat + sawRadix.toNat ≤ n) :
    (encodeScanLog stray string isNegative includesSign (scanOf sawRadix ds f) e).TextBelow n ∧
      (encodeScanLog stray string isNegative includesSign (scanOf sawRadix ds f) e).ArrayBelow
        34 := by
  have hscan : (scanOf sawRadix ds f).digits = [] := by simp [scanOf, h]
  have hfirst : (scanOf sawRadix ds f).firstNonzero = 0 := if_pos h
  generalize hx : adjustExponent e (scanOf sawRadix ds f).radixPosition = x
  obtain ⟨last, hup, hlast⟩ := shiftUp_zero (x - bsonDecimal128ExponentMax).toNat x 0 le_rfl
  have hmin : min x bsonDecimal128ExponentMax < bsonDecimal128ExponentMin → last = 0 := by
    intro hlt
    apply hlast
    unfold bsonDecimal128ExponentMax bsonDecimal128ExponentMin at *
    omega
  have hsig : (significantLog string (includesSign.toNat + (scanOf sawRadix ds f).sawRadix.toNat)
      (scanOf sawRadix ds f)).val = 0 := by
    rw [val_significantLog, if_pos hscan]
  have hdown := fun fuel => shiftDownLog_zero string
    (includesSign.toNat + (scanOf sawRadix ds f).sawRadix.toNat) (digitAt stray []) fuel n 34 hmin
  have hround := fun digit y l => roundLog_below string isNegative
    (includesSign.toNat + (scanOf sawRadix ds f).sawRadix.toNat) 0 0 l n digit y
    (by rw [Nat.zero_add]; exact hn)
  simp only [encodeScanLog, textBelow_bind, arrayBelow_bind, hsig, hx]
  simp only [hscan, if_true, Nat.sub_self, hup, textBelow_bind, arrayBelow_bind, hdown, true_and]
  refine ⟨⟨?_, ?_⟩, ?_, ?_⟩
  · rw [significantLog, if_pos hscan]
    simp
  · generalize (shiftDownLog _ _ _ _ _ _ _ _ _).val = r
    cases r with
    | none => simp
    | some r =>
      rw [hfirst]
      exact (hround _ _ _).1
  · rw [significantLog, if_pos hscan]
    simp
  · generalize (shiftDownLog _ _ _ _ _ _ _ _ _).val = r
    cases r with
    | none => simp
    | some r =>
      rw [hfirst]
      exact (hround _ _ _).2.mpr (Or.inr (Or.inl rfl))

/-- A number: only the 35th digit is looked up out of bounds. -/
theorem encodeScanLog_digits {ds : List (Fin 10)} (f : Nat) (e : Int) (n : Nat)
    (h : fromNonzero ds ≠ []) (hn : ds.length + (includesSign.toNat + sawRadix.toNat) ≤ n)
    (hpos : dropTrailingZeros string
      (ds.length - (fromNonzero ds).length + (includesSign.toNat + sawRadix.toNat))
      (fromNonzero ds).length ≠ 0) :
    (encodeScanLog stray string isNegative includesSign (scanOf sawRadix ds f) e).TextBelow n ∧
      ((encodeScanLog stray string isNegative includesSign (scanOf sawRadix ds f) e).ArrayBelow
        34 ↔
        ¬ (bsonDecimal128ExponentMax < adjustExponent e f ∧
          ((fromNonzero ds).length : Int) + (adjustExponent e f - bsonDecimal128ExponentMax) =
            35)) := by
  have hne : (scanOf sawRadix ds f).digits ≠ [] := by simpa [scanOf] using h
  have hlen : (scanOf sawRadix ds f).digits.length = min (fromNonzero ds).length 34 := by
    rw [scanOf, List.length_map, List.length_take, Nat.min_comm]
  have hfirst : (scanOf sawRadix ds f).firstNonzero = ds.length - (fromNonzero ds).length :=
    if_neg h
  have hnd : (scanOf sawRadix ds f).ndigits = (fromNonzero ds).length := rfl
  have hradix : (scanOf sawRadix ds f).sawRadix = sawRadix := rfl
  have hf : (scanOf sawRadix ds f).radixPosition = f := rfl
  have hd : 0 < (fromNonzero ds).length := List.length_pos_iff.mpr h
  have hle : (fromNonzero ds).length ≤ ds.length := (List.dropWhile_suffix _).length_le
  have hdrop := dropTrailingZerosLog_below (n := n) hpos (by omega)
  have hsigle := dropTrailingZeros_le string
    (ds.length - (fromNonzero ds).length + (includesSign.toNat + sawRadix.toNat))
    (fromNonzero ds).length
  have hsig : (significantLog string (includesSign.toNat + sawRadix.toNat)
      (scanOf sawRadix ds f)) = dropTrailingZerosLog string
        (ds.length - (fromNonzero ds).length + (includesSign.toNat + sawRadix.toNat))
        (fromNonzero ds).length := by
    rw [significantLog, if_neg hne, hfirst, hnd]
  have hstored : 0 < min (fromNonzero ds).length 34 ∧ min (fromNonzero ds).length 34 ≤ 34 := by
    omega
  simp only [encodeScanLog, hradix, hlen, hfirst, hnd, hf, if_neg hne, hsig, textBelow_bind,
    arrayBelow_bind, hdrop, val_dropTrailingZerosLog, true_and]
  generalize adjustExponent e f = x
  generalize dropTrailingZeros string _ _ = significant at *
  have hround := fun y l => roundLog_below string isNegative
    (includesSign.toNat + sawRadix.toNat) (ds.length - (fromNonzero ds).length) significant l n
    (digitAt stray (scanOf sawRadix ds f).digits) y (by omega)
  have hmax : bsonDecimal128ExponentMax = 6111 := rfl
  rw [shiftUp_spec hpos _ _ _ le_rfl]
  by_cases hup : x ≤ bsonDecimal128ExponentMax ∨
      min (fromNonzero ds).length 34 - 1 + (x - bsonDecimal128ExponentMax).toNat ≤ 34
  · rw [if_pos hup]
    dsimp only
    rw [textBelow_bind, arrayBelow_bind]
    by_cases hx : x ≤ bsonDecimal128ExponentMax
    · -- the last index is that of a stored digit, and only goes down
      have hzero : (x - bsonDecimal128ExponentMax).toNat = 0 := by omega
      rw [hzero, Nat.add_zero]
      have hdown := fun fuel => shiftDownLog_below string (includesSign.toNat + sawRadix.toNat)
        (digitAt stray (scanOf sawRadix ds f).digits) (min (fromNonzero ds).length 34) significant n
        34 fuel (min x bsonDecimal128ExponentMax) (min (fromNonzero ds).length 34 - 1)
        (fromNonzero ds).length (by omega) (by omega)
      simp only [hdown, true_and, val_shiftDownLog]
      generalize hres : shiftDown _ _ _ _ _ _ _ _ _ = r
      cases r with
      | none => simp; omega
      | some r =>
        obtain ⟨y, l⟩ := r
        have hl := shiftDown_le hres
        dsimp only
        refine ⟨(hround y l).1, ?_⟩
        rw [(hround y l).2]
        constructor
        · intro _ hbad
          omega
        · intro _
          exact Or.inr (Or.inr (by omega))
    · have hmin : min x bsonDecimal128ExponentMax = bsonDecimal128ExponentMax := by omega
      rw [hmin]
      obtain ⟨htext, harray, hval⟩ := shiftDownLog_max string (includesSign.toNat + sawRadix.toNat)
        (digitAt stray (scanOf sawRadix ds f).digits) (min (fromNonzero ds).length 34) significant n
        ((bsonDecimal128ExponentMin - bsonDecimal128ExponentMax).toNat +
          ((fromNonzero ds).length - min (fromNonzero ds).length 34))
        (min (fromNonzero ds).length 34 - 1 + (x - bsonDecimal128ExponentMax).toNat)
        (fromNonzero ds).length (by omega) (by omega) (by omega)
      rw [hval]
      simp only [htext, harray, true_and]
      by_cases hmore : min (fromNonzero ds).length 34 < (fromNonzero ds).length
      · rw [if_pos hmore]
        simp; omega
      · rw [if_neg hmore]
        dsimp only
        refine ⟨(hround _ _).1, ?_⟩
        rw [(hround _ _).2]
        constructor
        · intro hor
          rcases hor with hor | hor | hor
          · omega
          · exact absurd hor hpos
          · omega
        · intro hgood
          exact Or.inr (Or.inr (by omega))
  · rw [if_neg hup]
    simp; omega

end Scan

/-! ## From the string -/

theorem readSign_eq (string : Bytes) :
    ∃ sign, string = signText sign ++ (readSign string).2.2 ∧
      (readSign string).2.1 = sign.isSome := by
  cases string with
  | nil => exact ⟨none, rfl, rfl⟩
  | cons c rest =>
    by_cases h43 : c = 43
    · subst h43
      exact ⟨some false, rfl, rfl⟩
    · by_cases h45 : c = 45
      · subst h45
        exact ⟨some true, rfl, rfl⟩
      · have hsign : readSign (c :: rest) = (false, false, c :: rest) := by
          simp only [readSign]
          rw [if_neg (by simp [h43, h45])]
        exact ⟨none, by rw [hsign]; rfl, by rw [hsign]; rfl⟩

/-- How a numeral is read, up to its exponent. -/
theorem read_spaced (wide : Int → BitVec 32) (n : Numeral) {spaces : Bytes}
    (hs : ∀ c ∈ spaces, isspace c = true) :
    ∃ str tail, readSign (spacedText n spaces) = (n.negative, n.sign.isSome, str) ∧
      (isdigit (str.headD 0) = true ∨ str.headD 0 = 46) ∧
      readDigits str DigitScan.new =
        some (scanOf n.fraction.isSome n.digits (n.fraction.getD []).length, tail) ∧
      ¬ (n.fraction.isSome = true ∧ n.digits.length = 0) ∧
      readExponent wide tail = some (toInt32 wide n.power) := by
  obtain ⟨c, rest, hcr, hc⟩ := spaced_head n spaces
  have hsign : c ≠ 43 ∧ c ≠ 45 := by
    obtain hc | rfl := hc
    · obtain ⟨d, rfl⟩ := isdigit_iff.mp hc
      exact ⟨digit_ne (by decide) d, digit_ne (by decide) d⟩
    · decide
  have htext : spacedText n spaces = signText n.sign ++ c :: rest := by rw [spacedText, hcr]
  have hread : readSign (spacedText n spaces) = (n.negative, n.sign.isSome, c :: rest) := by
    rw [htext, Numeral.negative]
    rcases n.sign with - | - | -
    · simp only [signText, List.nil_append, readSign]
      rw [if_neg (by simp [hsign])]
      rfl
    · rfl
    · rfl
  refine ⟨c :: rest, spacedExponent spaces n.exponent, hread, hc, ?_, ?_,
    readExponent_spaced wide n.exponent hs⟩
  · rw [← hcr]
    exact readDigits_mantissa _ _ (spacedExponent_head spaces n.exponent)
  · rintro ⟨-, h0⟩
    exact n.nonempty (List.length_eq_zero_iff.mp h0)

section Text

variable (wide : Int → BitVec 32) (stray : Nat → BitVec 16)

/-- A numeral that was read: the accesses of what is done with its digits. -/
theorem encodeScanLog_below (n : Numeral) (spaces : Bytes) (m : Nat)
    (hm : (spacedText n spaces).length ≤ m) :
    let r := encodeScanLog stray (spacedText n spaces) n.negative n.sign.isSome
      (scanOf n.fraction.isSome n.digits (n.fraction.getD []).length) (toInt32 wide n.power)
    r.TextBelow m ∧
      (r.ArrayBelow 34 ↔
        ¬ (fromNonzero n.digits ≠ [] ∧ bsonDecimal128ExponentMax < adjusted wide n ∧
          ((fromNonzero n.digits).length : Int) + (adjusted wide n - bsonDecimal128ExponentMax) =
            35)) := by
  intro r
  have hlen : n.digits.length + (n.sign.isSome.toNat + n.fraction.isSome.toNat) ≤ m := by
    have hfraction : (Numeral.fractionText n.fraction).length =
        (n.fraction.getD []).length + n.fraction.isSome.toNat := by
      cases n.fraction <;> simp [Numeral.fractionText]
    have hall := hm
    rw [spacedText, List.length_append, List.length_append, List.length_append, signText_length,
      hfraction, digitText_length] at hall
    rw [Numeral.digits, List.length_append]
    omega
  by_cases h : fromNonzero n.digits = []
  · obtain ⟨htext, harray⟩ := encodeScanLog_zero stray (spacedText n spaces) n.negative
      n.sign.isSome n.fraction.isSome (n.fraction.getD []).length (toInt32 wide n.power) m h
      (by omega)
    exact ⟨htext, ⟨fun _ hbad => hbad.1 h, fun _ => harray⟩⟩
  · obtain ⟨htext, harray⟩ := encodeScanLog_digits stray (spacedText n spaces) n.negative
      n.sign.isSome n.fraction.isSome (n.fraction.getD []).length (toInt32 wide n.power) m h hlen
      (dropTrailingZeros_pos n spaces h)
    refine ⟨htext, harray.trans (not_congr ?_)⟩
    exact ⟨fun hbad => ⟨h, hbad⟩, fun hbad => hbad.2⟩

theorem readNumberLog_below (string : Bytes)
    (hhead : isdigit ((readSign string).2.2.headD 0) = true ∨ (readSign string).2.2.headD 0 = 46) :
    let r := readNumberLog wide stray string (readSign string).2.1.toNat (readSign string).2.2
      (readSign string).1 (readSign string).2.1
    r.TextBelow (string.length + 1) ∧ (r.ArrayBelow 34 ↔ ¬ NeedsDigit35 wide string) := by
  obtain ⟨sign, hstring, hincl⟩ := readSign_eq string
  have hlen : string.length = (readSign string).2.1.toNat + (readSign string).2.2.length := by
    have hall := congrArg List.length hstring
    rw [List.length_append, signText_length, ← hincl] at hall
    exact hall
  obtain ⟨hdtext, hdarray, hdend⟩ := readDigitsLog_below (readSign string).2.1.toNat
    (readSign string).2.2 DigitScan.new
  have hdval := val_readDigitsLog (readSign string).2.1.toNat (readSign string).2.2 DigitScan.new
  rw [← hlen] at hdtext hdend
  simp only [readNumberLog, textBelow_bind, arrayBelow_bind, hdtext, hdarray, true_and]
  generalize (readDigitsLog (readSign string).2.1.toNat (readSign string).2.2 DigitScan.new).val = v
    at hdend hdval
  -- a numeral is read to its end: where the run stops before, the string is none
  have hspaced : NeedsDigit35 wide string → ∃ n tail x,
      v.map (fun r => (r.1, r.2.2)) = some (scanOf (Option.isSome (Numeral.fraction n)) n.digits
        (n.fraction.getD []).length, tail) ∧
      ¬ (n.fraction.isSome = true ∧ n.digits.length = 0) ∧ readExponent wide tail = some x := by
    rintro ⟨n, spaces, hs, hspaces, -⟩
    obtain ⟨str, tail, hsign, -, hread, hne, hexp⟩ := read_spaced wide n hspaces
    rw [← hs] at hsign
    rw [hsign] at hdval
    exact ⟨n, tail, _, hdval.trans hread, hne, hexp⟩
  cases v with
  | none =>
    refine ⟨textBelow_pure _ _, fun _ hneeds => ?_, fun _ => arrayBelow_pure _ _⟩
    obtain ⟨n, tail, x, hv, -⟩ := hspaced hneeds
    cases hv
  | some v =>
    obtain ⟨t, q, tail⟩ := v
    have hq := hdend t q tail rfl
    obtain ⟨hetext, hearray⟩ := readExponentLog_below wide q tail
    rw [hq] at hetext
    dsimp only
    by_cases hnone : t.sawRadix = true ∧ t.ndigitsRead = 0
    · rw [if_pos hnone]
      refine ⟨textBelow_pure _ _, fun _ hneeds => ?_, fun _ => arrayBelow_pure _ _⟩
      obtain ⟨n, tail', x, hv, hne, -⟩ := hspaced hneeds
      obtain ⟨rfl, -⟩ := Prod.mk.inj (Option.some.inj hv)
      exact hne hnone
    · rw [if_neg hnone]
      simp only [textBelow_bind, arrayBelow_bind, hetext, hearray, true_and, val_readExponentLog]
      cases he : readExponent wide tail with
      | none =>
        refine ⟨textBelow_pure _ _, fun _ hneeds => ?_, fun _ => arrayBelow_pure _ _⟩
        obtain ⟨n, tail', x, hv, -, hexp⟩ := hspaced hneeds
        obtain ⟨-, rfl⟩ := Prod.mk.inj (Option.some.inj hv)
        rw [he] at hexp
        cases hexp
      | some x =>
        obtain ⟨n, spaces, hs, hspaces⟩ := numeral_of_read sign hhead hdval.symm hnone he
        rw [← hstring] at hs
        obtain ⟨str, tail', hsign, -, hread, -, hexp⟩ := read_spaced wide n hspaces
        rw [← hs] at hsign
        rw [hsign] at hdval ⊢
        have hscan := hdval.trans hread
        obtain ⟨rfl, rfl⟩ := Prod.mk.inj (Option.some.inj hscan)
        rw [he] at hexp
        obtain rfl := Option.some.inj hexp
        obtain ⟨htext, harray⟩ := encodeScanLog_below wide stray n spaces (string.length + 1)
          (by rw [← hs]; omega)
        rw [← hs] at htext harray
        refine ⟨htext, harray.trans (not_congr ?_)⟩
        constructor
        · rintro ⟨hd, hmax, h35⟩
          exact ⟨n, spaces, hs, hspaces, hd, hmax, h35⟩
        · intro hneeds
          -- any numeral the string is the text of is read to the same digits and exponent
          by_contra hno
          have hgood := harray.mpr hno
          obtain ⟨n', spaces', hs', hspaces', hd, hmax, h35⟩ := hneeds
          obtain ⟨str', tail'', hsign', -, hread', -, hexp'⟩ := read_spaced wide n' hspaces'
          rw [← hs', hsign] at hsign'
          simp only [Prod.mk.injEq] at hsign'
          obtain ⟨hneg, hincl', rfl⟩ := hsign'
          rw [hread] at hread'
          obtain ⟨hsc, rfl⟩ := Prod.mk.inj (Option.some.inj hread')
          rw [he] at hexp'
          have hx := Option.some.inj hexp'
          obtain ⟨-, harray'⟩ := encodeScanLog_below wide stray n' spaces' (string.length + 1)
            (by rw [← hs']; omega)
          rw [← hs', ← hneg, ← hincl', ← hsc, ← hx] at harray'
          exact harray'.mp hgood ⟨hd, hmax, h35⟩

/-- What is returned is written without an access. -/
theorem verdict_below (m : Nat) (r : Option BsonDecimal128) :
    (match r with
      | some dec => (pure (true, dec) : Logged (Bool × BsonDecimal128))
      | none => pure (false, decimalNan)).TextBelow m ∧
    (match r with
      | some dec => (pure (true, dec) : Logged (Bool × BsonDecimal128))
      | none => pure (false, decimalNan)).ArrayBelow 34 := by
  cases r <;> simp

/-- Where the accesses lie, for every string. -/
theorem bsonDecimal128FromStringLog_below (string : Bytes) :
    (bsonDecimal128FromStringLog wide stray string).TextBelow (string.length + 1) ∧
      ((bsonDecimal128FromStringLog wide stray string).ArrayBelow 34 ↔
        ¬ NeedsDigit35 wide string) := by
  obtain ⟨sign, hstring, hincl⟩ := readSign_eq string
  have hlen : string.length = (readSign string).2.1.toNat + (readSign string).2.2.length := by
    have hall := congrArg List.length hstring
    rw [List.length_append, signText_length, ← hincl] at hall
    exact hall
  have hp : (readSign string).2.1.toNat < string.length + 1 := by omega
  simp only [bsonDecimal128FromStringLog, textBelow_bind, arrayBelow_bind, textBelow_char,
    arrayBelow_char, textBelow_ite, arrayBelow_ite, true_and]
  by_cases hhead : isdigit ((readSign string).2.2.headD 0) = true ∨
      (readSign string).2.2.headD 0 = 46
  · obtain ⟨htext, harray⟩ := readNumberLog_below wide stray string hhead
    refine ⟨⟨by omega, hp, fun _ => ⟨htext, (verdict_below _ _).1⟩, fun h => absurd hhead h⟩, ?_⟩
    rw [← harray]
    constructor
    · intro h
      exact (h.1 hhead).1
    · intro h
      exact ⟨fun _ => ⟨h, (verdict_below (string.length + 1) _).2⟩, fun hn => absurd hhead hn⟩
  · obtain ⟨htext, harray⟩ := readWordLog_below (readSign string).2.1.toNat (readSign string).2.2
      (readSign string).1
    rw [← hlen] at htext
    refine ⟨⟨by omega, hp, fun h => absurd h hhead, fun _ => htext⟩, ?_⟩
    constructor
    · rintro - ⟨n, spaces, hs, hspaces, -⟩
      obtain ⟨str, tail, hsign, hbegin, -⟩ := read_spaced wide n hspaces
      rw [← hs] at hsign
      rw [hsign] at hhead
      exact hhead hbegin
    · intro _
      exact ⟨fun h => absurd h hhead, fun _ => harray⟩

end Text

end LibBson.Source
