import LibBson.Library.Logged
import LibBson.Source.DecimalAccept

/-!
# The accesses of `bson_decimal128_from_string`

Source: bson-decimal128.c:389-707. Each function here makes the value of the
function it is named after and logs the offsets at which `string` is read and the
indices at which `digits` is read or written. A pointer into the string is its
offset `p` and the text from there on; at the end of the text it reads the NUL.
-/

set_option autoImplicit false

namespace LibBson.Source
open LibBson.Library LibBson.Spec Logged

/-- `_dec128_istreq (string + p, b)` reads up to the first difference or the NUL. -/
def dec128IstreqLog : Nat → Bytes → Bytes → Logged Bool
  | p, [], [] => do
    char p
    pure true
  | p, a :: as, b :: bs => do
    char p
    if dec128Tolower a = dec128Tolower b then dec128IstreqLog (p + 1) as bs else pure false
  | p, [], _ :: _ => do
    char p
    pure false
  | p, _ :: _, [] => do
    char p
    pure false

def readDigitsLog : Nat → Bytes → DigitScan → Logged (Option (DigitScan × Nat × Bytes))
  | p, [], s => do
    char p
    pure (some (s, p, []))
  | p, c :: rest, s => do
    char p
    if c = 46 then
      if s.sawRadix then pure none else readDigitsLog (p + 1) rest { s with sawRadix := true }
    else if isdigit c then do
      -- `*(digits_insert++) = *(str_read) - '0'`
      onlyIf (s.digits.length < 34 ∧ (c ≠ 48 ∨ s.foundNonzero)) (slot s.digits.length)
      readDigitsLog (p + 1) rest (s.take c)
    else pure (some (s, p, c :: rest))

/-- `string[i]` with `i` of type `size_t`. At no significant digit the loop would go on
below the first one; that it never gets there is proved. -/
def dropTrailingZerosLog (string : Bytes) («at» : Nat) : Nat → Logged Nat
  | 0 => do
    char (u64sub «at» 1)
    pure 0
  | significantDigits + 1 => do
    char («at» + significantDigits)
    if string.getD («at» + significantDigits) 0 = 48 then
      dropTrailingZerosLog string «at» significantDigits
    else pure (significantDigits + 1)

section Shift

variable (string : Bytes) (signAndRadix : Nat) (digit : Nat → Nat)
  (ndigitsStored significantDigits : Nat)

def shiftDownLog : Nat → Int → Nat → Nat → Logged (Option (Int × Nat))
  | 0, exponent, lastDigit, _ => pure (some (exponent, lastDigit))
  | fuel + 1, exponent, lastDigit, ndigits =>
    if exponent < bsonDecimal128ExponentMin ∨ ndigitsStored < ndigits then
      if lastDigit = 0 then
        if significantDigits = 0 then pure (some (bsonDecimal128ExponentMin, lastDigit))
        else pure none
      else if ndigitsStored < ndigits then do
        char (ndigits - 1 + signAndRadix)
        if string.getD (ndigits - 1 + signAndRadix) 0 ≠ 48 ∧ significantDigits ≠ 0 then pure none
        else if exponent < bsonDecimal128ExponentMax then
          shiftDownLog fuel (exponent + 1) lastDigit (ndigits - 1)
        else pure none
      else do
        slot lastDigit
        if digit lastDigit ≠ 0 then pure none
        else if exponent < bsonDecimal128ExponentMax then
          shiftDownLog fuel (exponent + 1) (lastDigit - 1) ndigits
        else pure none
    else pure (some (exponent, lastDigit))

end Shift

def accumulateLog (digit : Nat → Nat) : Nat → Nat → Nat → Logged Nat
  | 0, _, acc => pure acc
  | n + 1, i, acc => do
    slot i
    accumulateLog digit n (i + 1) (u64 (u64 (acc * 10) + digit i))

def significandHalvesLog (digit : Nat → Nat) (significantDigits lastDigit : Nat) :
    Logged (Nat × Nat) :=
  if significantDigits = 0 then pure (0, 0)
  else if lastDigit < 17 then do
    slot 0
    let low ← accumulateLog digit lastDigit 1 (digit 0)
    pure (0, low)
  else do
    slot 0
    let high ← accumulateLog digit (lastDigit - 17) 1 (digit 0)
    slot (lastDigit - 16)
    let low ← accumulateLog digit 16 (lastDigit - 15) (digit (lastDigit - 16))
    pure (high, low)

section Read

variable (wide : Int → BitVec 32) (stray : Nat → BitVec 16)

/-- `sscanf` reads at most to the NUL, as does the test behind it. -/
def readExponentLog (p : Nat) (str : Bytes) : Logged (Option Int) := do
  char p
  match str with
  | [] => pure (some 0)
  | c :: rest =>
    if c = 101 ∨ c = 69 then do
      chars ((List.range (rest.length + 1)).map (p + 1 + ·))
      pure (readExponent wide (c :: rest))
    else pure none

/-- The rounding and the encoding, from the shifted significand on. -/
def roundLog (string : Bytes) (isNegative : Bool) (signAndRadix firstNonzero significantDigits : Nat)
    (digit : Nat → Nat) (exponent : Int) (lastDigit : Nat) : Logged (Option BsonDecimal128) := do
  onlyIf (lastDigit + 1 < significantDigits) (char (firstNonzero + lastDigit + signAndRadix + 1))
  if lastDigit + 1 < significantDigits ∧
      string.getD (firstNonzero + lastDigit + signAndRadix + 1) 0 ≠ 48 then
    pure none
  else do
    let halves ← significandHalvesLog digit significantDigits lastDigit
    let words := joinHalves halves.1 halves.2
    pure (some (encodeDecimal isNegative exponent words.1 words.2))

/-- `digits[0] = 0` for a zero, else the trailing zeros. -/
def significantLog (string : Bytes) (signAndRadix : Nat) (s : DigitScan) : Logged Nat :=
  if s.digits = [] then do
    slot 0
    pure 0
  else dropTrailingZerosLog string (s.firstNonzero + signAndRadix) s.ndigits

def encodeScanLog (string : Bytes) (isNegative includesSign : Bool) (s : DigitScan)
    (exponent : Int) : Logged (Option BsonDecimal128) := do
  let signAndRadix := includesSign.toNat + s.sawRadix.toNat
  let ndigitsStored := if s.digits = [] then 1 else s.digits.length
  let ndigits := if s.digits = [] then 1 else s.ndigits
  let significantDigits ← significantLog string signAndRadix s
  let exponent := adjustExponent exponent s.radixPosition
  match shiftUp significantDigits (exponent - bsonDecimal128ExponentMax).toNat exponent
      (ndigitsStored - 1) with
  | none => pure none
  | some (exponent, lastDigit) => do
    let digit := digitAt stray s.digits
    let fuel := (bsonDecimal128ExponentMin - exponent).toNat + (ndigits - ndigitsStored)
    let shifted ← shiftDownLog string signAndRadix digit ndigitsStored significantDigits fuel
      exponent lastDigit ndigits
    match shifted with
    | none => pure none
    | some (exponent, lastDigit) =>
      roundLog string isNegative signAndRadix s.firstNonzero significantDigits digit exponent
        lastDigit

def readNumberLog (string : Bytes) (p : Nat) (str : Bytes) (isNegative includesSign : Bool) :
    Logged (Option BsonDecimal128) := do
  let scanned ← readDigitsLog p str DigitScan.new
  match scanned with
  | none => pure none
  | some (s, p, str) =>
    if s.sawRadix ∧ s.ndigitsRead = 0 then pure none
    else do
      let exponent ← readExponentLog wide p str
      match exponent with
      | none => pure none
      | some exponent => encodeScanLog stray string isNegative includesSign s exponent

/-- The sign, what stands behind it, and its offset. -/
def readSign (string : Bytes) : Bool × Bool × Bytes :=
  match string with
  | c :: rest => if c = 43 ∨ c = 45 then (c == 45, true, rest) else (false, false, string)
  | [] => (false, false, [])

/-- No number: the words for infinity and NaN in turn. -/
def readWordLog (p : Nat) (str : Bytes) (isNegative : Bool) : Logged (Bool × BsonDecimal128) := do
  let inf ← dec128IstreqLog p str (ascii "inf")
  if inf then pure (true, decimalInf isNegative)
  else do
    let infinity ← dec128IstreqLog p str (ascii "infinity")
    if infinity then pure (true, decimalInf isNegative)
    else do
      let nan ← dec128IstreqLog p str (ascii "nan")
      pure (if nan then (true, decimalNan) else (false, decimalNan))

def bsonDecimal128FromStringLog (string : Bytes) : Logged (Bool × BsonDecimal128) := do
  char 0
  let (isNegative, includesSign, str) := readSign string
  let p := includesSign.toNat
  char p
  if isdigit (str.headD 0) ∨ str.headD 0 = 46 then do
    let dec ← readNumberLog wide stray string p str isNegative includesSign
    match dec with
    | some dec => pure (true, dec)
    | none => pure (false, decimalNan)
  else readWordLog p str isNegative

end Read

/-! ## The values -/

theorem val_dec128IstreqLog (p : Nat) (a b : Bytes) :
    (dec128IstreqLog p a b).val = dec128Istreq a b := by
  induction a generalizing p b with
  | nil => cases b <;> rfl
  | cons x a ih =>
    cases b with
    | nil => rfl
    | cons y b =>
      simp only [dec128IstreqLog, val_bind, val_ite, ih, val_pure, dec128Istreq]
      by_cases h : dec128Tolower x = dec128Tolower y <;> simp [h]

theorem val_readDigitsLog (p : Nat) (str : Bytes) (s : DigitScan) :
    ((readDigitsLog p str s).val.map fun r => (r.1, r.2.2)) = readDigits str s := by
  induction str generalizing p s with
  | nil => rfl
  | cons c rest ih =>
    simp only [readDigitsLog, readDigits, val_bind, val_ite]
    by_cases hdot : c = 46
    · rw [if_pos hdot, if_pos hdot]
      cases s.sawRadix with
      | true => rfl
      | false => exact ih _ _
    · rw [if_neg hdot, if_neg hdot]
      by_cases hd : isdigit c = true
      · rw [if_pos hd, if_pos hd]
        exact ih _ _
      · rw [if_neg hd, if_neg hd]
        rfl

theorem val_dropTrailingZerosLog (string : Bytes) (start n : Nat) :
    (dropTrailingZerosLog string start n).val = dropTrailingZeros string start n := by
  induction n with
  | zero => rfl
  | succ n ih =>
    simp only [dropTrailingZerosLog, dropTrailingZeros, val_bind, val_ite, ih, val_pure]

theorem val_shiftDownLog (string : Bytes) (signAndRadix : Nat) (digit : Nat → Nat)
    (stored significant fuel : Nat) (x : Int) (last ndigits : Nat) :
    (shiftDownLog string signAndRadix digit stored significant fuel x last ndigits).val =
      shiftDown string signAndRadix digit stored significant fuel x last ndigits := by
  induction fuel generalizing x last ndigits with
  | zero => rfl
  | succ fuel ih =>
    simp only [shiftDownLog, shiftDown, val_bind, val_ite, ih, val_pure]

theorem val_accumulateLog (digit : Nat → Nat) (n i acc : Nat) :
    (accumulateLog digit n i acc).val = accumulate digit n i acc := by
  induction n generalizing i acc with
  | zero => rfl
  | succ n ih => simp only [accumulateLog, accumulate, val_bind, ih]

theorem val_significandHalvesLog (digit : Nat → Nat) (significant last : Nat) :
    (significandHalvesLog digit significant last).val =
      significandHalves digit significant last := by
  simp only [significandHalvesLog, significandHalves, val_bind, val_ite, val_pure,
    val_accumulateLog]

section Values

variable (wide : Int → BitVec 32) (stray : Nat → BitVec 16) (string : Bytes)

theorem val_readExponentLog (p : Nat) (str : Bytes) :
    (readExponentLog wide p str).val = readExponent wide str := by
  cases str with
  | nil => rfl
  | cons c rest =>
    simp only [readExponentLog, val_bind, val_ite, val_pure]
    by_cases hc : c = 101 ∨ c = 69
    · rw [if_pos hc]
    · rw [if_neg hc, readExponent, if_neg hc]

theorem val_roundLog (isNegative : Bool) (signAndRadix firstNonzero significant : Nat)
    (digit : Nat → Nat) (x : Int) (last : Nat) :
    (roundLog string isNegative signAndRadix firstNonzero significant digit x last).val =
      if last + 1 < significant ∧
          string.getD (firstNonzero + last + signAndRadix + 1) 0 ≠ 48 then
        none
      else
        let (significandHigh, significandLow) := significandHalves digit significant last
        let (high, low) := joinHalves significandHigh significandLow
        some (encodeDecimal isNegative x high low) := by
  simp only [roundLog, val_bind, val_ite, val_pure, val_significandHalvesLog]

theorem val_significantLog (signAndRadix : Nat) (s : DigitScan) :
    (significantLog string signAndRadix s).val =
      if s.digits = [] then 0
      else dropTrailingZeros string (s.firstNonzero + signAndRadix) s.ndigits := by
  simp only [significantLog, val_ite, val_bind, val_pure, val_dropTrailingZerosLog]

theorem val_encodeScanLog (isNegative includesSign : Bool) (s : DigitScan) (e : Int) :
    (encodeScanLog stray string isNegative includesSign s e).val =
      encodeScan stray string isNegative includesSign s e := by
  simp only [encodeScanLog, encodeScan, val_bind, val_significantLog]
  generalize hup : shiftUp _ _ _ _ = up
  cases up with
  | none => rfl
  | some up =>
    simp only [val_bind, val_shiftDownLog]
    generalize shiftDown _ _ _ _ _ _ _ _ _ = down
    cases down with
    | none => rfl
    | some down => exact val_roundLog _ _ _ _ _ _ _ _

theorem val_readNumberLog (p : Nat) (str : Bytes) (isNegative includesSign : Bool) :
    (readNumberLog wide stray string p str isNegative includesSign).val =
      readNumber wide stray string str isNegative includesSign := by
  have hread := val_readDigitsLog p str DigitScan.new
  simp only [readNumberLog, readNumber, val_bind]
  rw [← hread]
  cases (readDigitsLog p str DigitScan.new).val with
  | none => rfl
  | some r =>
    obtain ⟨s, q, tail⟩ := r
    simp only [Option.map_some, val_ite, val_bind, val_readExponentLog]
    by_cases hnone : s.sawRadix = true ∧ s.ndigitsRead = 0
    · rw [if_pos hnone, if_pos hnone]
      rfl
    · rw [if_neg hnone, if_neg hnone]
      cases readExponent wide tail with
      | none => rfl
      | some x => exact val_encodeScanLog _ _ _ _ _ _

theorem val_readWordLog (p : Nat) (str : Bytes) (isNegative : Bool) :
    (readWordLog p str isNegative).val =
      if dec128Istreq str (ascii "inf") || dec128Istreq str (ascii "infinity") then
        (true, decimalInf isNegative)
      else if dec128Istreq str (ascii "nan") then (true, decimalNan)
      else (false, decimalNan) := by
  simp only [readWordLog, val_bind, val_ite, val_pure, val_dec128IstreqLog]
  cases dec128Istreq str (ascii "inf") <;> simp

/-- The logged computation makes the value of the function. -/
theorem val_bsonDecimal128FromStringLog :
    (bsonDecimal128FromStringLog wide stray string).val =
      bsonDecimal128FromString wide stray string := by
  have hsign : bsonDecimal128FromString wide stray string =
      if isdigit ((readSign string).2.2.headD 0) ∨ (readSign string).2.2.headD 0 = 46 then
        match readNumber wide stray string (readSign string).2.2 (readSign string).1
          (readSign string).2.1 with
        | some dec => (true, dec)
        | none => (false, decimalNan)
      else if dec128Istreq (readSign string).2.2 (ascii "inf") ||
          dec128Istreq (readSign string).2.2 (ascii "infinity") then
        (true, decimalInf (readSign string).1)
      else if dec128Istreq (readSign string).2.2 (ascii "nan") then (true, decimalNan)
      else (false, decimalNan) := rfl
  rw [hsign]
  simp only [bsonDecimal128FromStringLog, val_bind, val_ite, val_readNumberLog, val_readWordLog]
  congr 1
  cases readNumber wide stray string (readSign string).2.2 (readSign string).1
    (readSign string).2.1 <;> rfl

end Values

end LibBson.Source
