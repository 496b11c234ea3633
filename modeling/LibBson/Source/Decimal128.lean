import LibBson.Library.Ascii
import LibBson.Library.Word

/-!
# Decimal128 to text and back

Source: bson-decimal128.c:76-307, 329-398, 441-738, bson-string.c:596-624. The
array `significand` keeps the list of the indices it is accessed at. The
function `sscanf` reads an `int`; what it yields for a number that is no `int`
the C standard leaves open, as it leaves open what lies behind `digits[33]`:
both are parameters.
-/

set_option autoImplicit false

namespace LibBson.Source
open LibBson.Library

/-- `bson_decimal128_t` -/
structure BsonDecimal128 where
  high : BitVec 64
  low : BitVec 64
  deriving DecidableEq, Repr

def bsonDecimal128String : Nat := 43
def bsonDecimal128Inf : Bytes := ascii "Infinity"
def bsonDecimal128Nan : Bytes := ascii "NaN"
def bsonDecimal128ExponentMax : Int := 6111
def bsonDecimal128ExponentMin : Int := -6176
def bsonDecimal128ExponentBias : Int := 6176
def bsonDecimal128MaxDigits : Nat := 34

/-! ## Division -/

/-- The loop over `value.parts`, from the high word to the low one. -/
def divideParts : List Nat → Nat → List Nat × Nat
  | [], rem => ([], rem)
  | part :: parts, rem =>
    let rem := u64 (u64 (rem <<< 32) + part)
    let (rest, last) := divideParts parts (rem % 1000000000)
    (u32 (rem / 1000000000) :: rest, last)

/-- `_bson_uint128_divide1B`: quotient and remainder. -/
def bsonUint128Divide1B (value : List Nat) : List Nat × Nat :=
  if value.all (· == 0) then (value, 0)
  else
    let (quotient, rem) := divideParts value 0
    (quotient, u32 rem)

/-! ## The significand array -/

structure Significand where
  words : List Nat
  accessed : List Nat

namespace Significand

/-- `uint32_t significand[36] = {0}` -/
def new : Significand := { words := List.replicate 36 0, accessed := [] }

def store (s : Significand) (i v : Nat) : Significand :=
  { words := s.words.set i v, accessed := i :: s.accessed }

/-- The `j` loop: nine digits from the entry `base` on, the last one first. -/
def storeDigits (base : Nat) : Nat → Nat → Significand → Significand
  | 0, _, s => s
  | j + 1, leastDigits, s =>
    storeDigits base j (leastDigits / 10) (s.store (base + j) (leastDigits % 10))

/-- The `k` loop over the groups of nine digits. -/
def storeGroups : Nat → List Nat → Significand → Significand
  | 0, _, s => s
  | k + 1, significand128, s =>
    let (significand128, leastDigits) := bsonUint128Divide1B significand128
    storeGroups k significand128
      (if leastDigits = 0 then s else s.storeDigits (k * 9) 9 leastDigits)

/-- The first entry at or after `i` that is not zero, and the entries read. -/
def skipZeros : List Nat → Nat → Nat × List Nat
  | 0 :: words, i =>
    let (found, accessed) := skipZeros words (i + 1)
    (found, i :: accessed)
  | _, i => (i, [i])

end Significand

/-! ## Printing -/

/-- The text up to `str_out`, and the array with its read pointer. -/
structure Printing where
  out : Bytes
  significand : Significand
  significandRead : Nat

/-- What the caller gets: the text, and how many octets of `str` were written. -/
structure Printed where
  str : Bytes
  written : Nat
  accessed : List Nat
  deriving DecidableEq

namespace Printing

def put (p : Printing) (bs : Bytes) : Printing := { p with out := p.out ++ bs }

/-- `*(str_out++) = *(significand_read++) + '0'` -/
def putDigit (p : Printing) : Printing :=
  { out := p.out ++ [UInt8.ofNat (p.significand.words.getD p.significandRead 0 + 48)]
    significand :=
      { p.significand with accessed := p.significandRead :: p.significand.accessed }
    significandRead := p.significandRead + 1 }

/-- `n` digits, as long as `str_out - str` is below the limit. -/
def putDigits (limit : Nat) : Nat → Printing → Printing
  | 0, p => p
  | n + 1, p => if p.out.length < limit then putDigits limit n p.putDigit else p

/-- The terminating NUL. -/
def finish (p : Printing) : Printed :=
  { str := p.out, written := p.out.length + 1, accessed := p.significand.accessed }

/-- `%+d` -/
def signedDecimal (x : Int) : Bytes := (if x < 0 then 45 else 43) :: decimal x.natAbs

/-- `bson_snprintf (str_out, size, "%+d", x)`, which always writes `str_out[size - 1]`. -/
def bsonSnprintf (size : Nat) (x : Int) (p : Printing) : Printed :=
  { str := p.out ++ (signedDecimal x).take (size - 1)
    written := p.out.length + size
    accessed := p.significand.accessed }

/-- Scientific format: d.dddE+dd or dE+dd, the exponent always with its sign. -/
def scientific (significandDigits : Nat) (scientificExponent : Int) (p : Printing) : Printed :=
  let p := p.putDigit
  let significandDigits := significandDigits - 1
  let p := if significandDigits ≠ 0 then p.put [46] else p
  let p := putDigits 36 significandDigits p
  (p.put [69]).bsonSnprintf 6 scientificExponent

/-- Regular format: ddd.ddd -/
def regular (significandDigits : Nat) (exponent : Int) (p : Printing) : Printed :=
  if 0 ≤ exponent then (putDigits 36 significandDigits p).finish
  else
    let radixPosition := i32 (ofInt32 (significandDigits + exponent))
    let p :=
      if 0 < radixPosition then putDigits bsonDecimal128String radixPosition.toNat p
      else p.put [48]
    let p := p.put [46]
    -- `while (radix_position++ < 0)`
    let p := p.put (List.replicate (-radixPosition).toNat 48)
    let radixPosition := max radixPosition 0 + 1
    (putDigits bsonDecimal128String
      (u32sub significandDigits (max (radixPosition - 1) 0).toNat) p).finish

end Printing

/-- Biased exponent and most significant bits of the significand, from the high word. -/
def decodeCombination (high : Nat) : Nat × Nat :=
  if ((high >>> 26) &&& 0x1f) >>> 3 = 3 then
    ((high >>> 15) &&& 0x3fff, 0x8 + ((high >>> 14) &&& 0x1))
  else ((high >>> 17) &&& 0x3fff, (high >>> 14) &&& 0x7)

/-- A number: `str` holds the sign, `significand128` is in words from high to low. -/
def printFinite (str : Bytes) (exponent : Int) (significand128 : List Nat) : Printed :=
  let isZero := significand128.all (· == 0) || decide (1 <<< 17 ≤ significand128.headD 0)
  let significand :=
    if isZero then Significand.new.store 0 0
    else Significand.new.storeGroups 4 significand128
  let (significandRead, accessed) :=
    if isZero then (0, []) else Significand.skipZeros significand.words 0
  let significandDigits := if isZero then 1 else 36 - significandRead
  let p : Printing :=
    { out := str
      significand := { significand with accessed := accessed ++ significand.accessed }
      significandRead := significandRead }
  let scientificExponent := i32 (ofInt32 ((significandDigits : Int) - 1 + exponent))
  if scientificExponent < -6 ∨ 0 < exponent then
    p.scientific significandDigits scientificExponent
  else p.regular significandDigits exponent

def bsonDecimal128ToString (dec : BsonDecimal128) : Printed :=
  let str : Bytes := if dec.high.toInt < 0 then [45] else []
  let low := u32 dec.low.toNat
  let midl := u32 (dec.low.toNat >>> 32)
  let midh := u32 dec.high.toNat
  let high := u32 (dec.high.toNat >>> 32)
  let combination := (high >>> 26) &&& 0x1f
  if combination = 30 then
    let str := str ++ bsonDecimal128Inf
    { str := str, written := str.length + 1, accessed := [] }
  else if combination = 31 then
    -- written to `str`, which erases the sign; the sign was written before
    { str := bsonDecimal128Nan
      written := max str.length (bsonDecimal128Nan.length + 1)
      accessed := [] }
  else
    let (biasedExponent, significandMsb) := decodeCombination high
    printFinite str (i32 (u32sub biasedExponent 6176))
      [(high &&& 0x3fff) + ((significandMsb &&& 0xf) <<< 14), midh, midl, low]

/-! ## Reading -/

def isdigit (c : UInt8) : Bool := decide (48 ≤ c ∧ c ≤ 57)

/-- `isspace` -/
def isspace (c : UInt8) : Bool := decide (c = 32 ∨ (9 ≤ c ∧ c ≤ 13))

def dec128Tolower (c : UInt8) : UInt8 := if 65 ≤ c ∧ c ≤ 90 then c + 32 else c

/-- `_dec128_istreq`: equal but for the case of letters. -/
def dec128Istreq : Bytes → Bytes → Bool
  | [], [] => true
  | a :: as, b :: bs => dec128Tolower a == dec128Tolower b && dec128Istreq as bs
  | _, _ => false

/-- The state of the loop that reads digits; `digits` holds the stored ones. -/
structure DigitScan where
  sawRadix : Bool
  foundNonzero : Bool
  firstNonzero : Nat
  digits : List Nat
  ndigits : Nat
  radixPosition : Nat
  ndigitsRead : Nat

namespace DigitScan

def new : DigitScan :=
  { sawRadix := false, foundNonzero := false, firstNonzero := 0, digits := [], ndigits := 0
    radixPosition := 0, ndigitsRead := 0 }

/-- One turn of the loop at a digit. -/
def take (c : UInt8) (s : DigitScan) : DigitScan :=
  let s :=
    if s.digits.length < 34 ∧ (c ≠ 48 ∨ s.foundNonzero) then
      { s with
        firstNonzero := if s.foundNonzero then s.firstNonzero else s.ndigitsRead
        foundNonzero := true
        digits := s.digits ++ [c.toNat - 48] }
    else s
  { s with
    ndigits := if s.foundNonzero then s.ndigits + 1 else s.ndigits
    radixPosition := if s.sawRadix then s.radixPosition + 1 else s.radixPosition
    ndigitsRead := s.ndigitsRead + 1 }

end DigitScan

/-- The loop over digits and radix, `none` at a second radix. -/
def readDigits : Bytes → DigitScan → Option (DigitScan × Bytes)
  | [], s => some (s, [])
  | c :: rest, s =>
    if c = 46 then
      if s.sawRadix then none else readDigits rest { s with sawRadix := true }
    else if isdigit c then readDigits rest (s.take c)
    else some (s, c :: rest)

/-- The number written with the digits of `ds`. -/
def scanNumber (ds : Bytes) : Nat := ds.foldl (fun n c => n * 10 + (c.toNat - 48)) 0

/-- `sscanf (str, "%d%n", ..)`: the number and what is left, `none` where it is missing. -/
def sscanf (wide : Int → BitVec 32) (str : Bytes) : Option (Int × Bytes) :=
  let str := str.dropWhile isspace
  let (negative, str) :=
    match str with
    | c :: rest => if c = 45 then (true, rest) else if c = 43 then (false, rest) else (false, str)
    | [] => (false, [])
  let digits := str.takeWhile isdigit
  if digits = [] then none
  else
    let x : Int := if negative then -(scanNumber digits : Int) else scanNumber digits
    some (if -2147483648 ≤ x ∧ x ≤ 2147483647 then x else (wide x).toInt,
      str.dropWhile isdigit)

/-- `digits[i]`, with what follows the array in memory. -/
def digitAt (stray : Nat → BitVec 16) (digits : List Nat) (i : Nat) : Nat :=
  if i < bsonDecimal128MaxDigits then digits.getD i 0 else (stray i).toNat

/-- The loop that takes trailing zeros off `significant_digits`; the character
at `string[at + 1]`, a digit other than zero or the radix behind it, ends it. -/
def dropTrailingZeros (string : Bytes) («at» : Nat) : Nat → Nat
  | 0 => 0
  | significantDigits + 1 =>
    if string.getD («at» + significantDigits) 0 = 48 then
      dropTrailingZeros string «at» significantDigits
    else significantDigits + 1

/-- Correction of the exponent by the radix position, with its overflow prevention. -/
def adjustExponent (exponent : Int) (radixPosition : Nat) : Int :=
  if ofInt64 exponent ≤ radixPosition ∧ 1 <<< 14 < u64sub radixPosition (ofInt64 exponent) then
    bsonDecimal128ExponentMin
  else i32 (ofInt32 (exponent - radixPosition))

/-- Shift exponent to significand and decrease. -/
def shiftUp (significantDigits : Nat) : Nat → Int → Nat → Option (Int × Nat)
  | 0, exponent, lastDigit => some (exponent, lastDigit)
  | fuel + 1, exponent, lastDigit =>
    if bsonDecimal128ExponentMax < exponent then
      if bsonDecimal128MaxDigits < lastDigit + 1 then
        -- the value is zero, or this is an overflow
        if significantDigits = 0 then some (bsonDecimal128ExponentMax, lastDigit + 1) else none
      else shiftUp significantDigits fuel (exponent - 1) (lastDigit + 1)
    else some (exponent, lastDigit)

section Shift

variable (string : Bytes) (signAndRadix : Nat) (digit : Nat → Nat)
  (ndigitsStored significantDigits : Nat)

/-- Shift last digit: first the digits that are not stored, then the stored ones. -/
def shiftDown : Nat → Int → Nat → Nat → Option (Int × Nat)
  | 0, exponent, lastDigit, _ => some (exponent, lastDigit)
  | fuel + 1, exponent, lastDigit, ndigits =>
    if exponent < bsonDecimal128ExponentMin ∨ ndigitsStored < ndigits then
      if lastDigit = 0 then
        if significantDigits = 0 then some (bsonDecimal128ExponentMin, lastDigit) else none
      else if ndigitsStored < ndigits then
        if string.getD (ndigits - 1 + signAndRadix) 0 ≠ 48 ∧ significantDigits ≠ 0 then none
        else if exponent < bsonDecimal128ExponentMax then
          shiftDown fuel (exponent + 1) lastDigit (ndigits - 1)
        else none
      else if digit lastDigit ≠ 0 then none
      else if exponent < bsonDecimal128ExponentMax then
        shiftDown fuel (exponent + 1) (lastDigit - 1) ndigits
      else none
    else some (exponent, lastDigit)

end Shift

/-- `n` digits from the index `i` on, appended to `acc`. -/
def accumulate (digit : Nat → Nat) : Nat → Nat → Nat → Nat
  | 0, _, acc => acc
  | n + 1, i, acc => accumulate digit n (i + 1) (u64 (u64 (acc * 10) + digit i))

/-- High and low 17 digits of the significand. -/
def significandHalves (digit : Nat → Nat) (significantDigits lastDigit : Nat) : Nat × Nat :=
  if significantDigits = 0 then (0, 0)
  else if lastDigit < 17 then (0, accumulate digit lastDigit 1 (digit 0))
  else
    (accumulate digit (lastDigit - 17) 1 (digit 0),
      accumulate digit 16 (lastDigit - 15) (digit (lastDigit - 16)))

/-- `_mul_64x64`: high and low word of the product. -/
def mul64x64 (left right : Nat) : Nat × Nat :=
  if left = 0 ∧ right = 0 then (0, 0)
  else
    let leftHigh := left >>> 32
    let leftLow := u32 left
    let rightHigh := right >>> 32
    let rightLow := u32 right
    let productHigh := u64 (leftHigh * rightHigh)
    let productMid := u64 (leftHigh * rightLow)
    let productMid2 := u64 (leftLow * rightHigh)
    let productLow := u64 (leftLow * rightLow)
    let productHigh := u64 (productHigh + productMid >>> 32)
    let productMid := u64 (u32 productMid + productMid2 + productLow >>> 32)
    (u64 (productHigh + productMid >>> 32), u64 (u64 (productMid <<< 32) + u32 productLow))

/-- The halves put together as one number of 128 bits. -/
def joinHalves (significandHigh significandLow : Nat) : Nat × Nat :=
  let (high, low) := mul64x64 significandHigh 100000000000000000
  let sum := u64 (low + significandLow)
  (if sum < significandLow then u64 (high + 1) else high, sum)

/-- Encode combination, exponent, significand and sign. -/
def encodeDecimal (isNegative : Bool) (exponent : Int) (high low : Nat) : BsonDecimal128 :=
  let biasedExponent := ofInt32 (exponent + bsonDecimal128ExponentBias) % 65536
  let word :=
    if (high >>> 49) &&& 1 = 1 then
      (3 <<< 61) ||| ((biasedExponent &&& 0x3fff) <<< 47) ||| (high &&& 0x7fffffffffff)
    else ((biasedExponent &&& 0x3fff) <<< 49) ||| (high &&& 0x1ffffffffffff)
  let word := if isNegative then word ||| 0x8000000000000000 else word
  { high := BitVec.ofNat 64 word, low := BitVec.ofNat 64 low }

/-- `BSON_DECIMAL128_SET_NAN` -/
def decimalNan : BsonDecimal128 := { high := 0x7c00000000000000#64, low := 0#64 }

/-- `BSON_DECIMAL128_SET_INF` -/
def decimalInf (isNegative : Bool) : BsonDecimal128 :=
  { high := if isNegative then 0xf800000000000000#64 else 0x7800000000000000#64, low := 0#64 }

section Read

variable (wide : Int → BitVec 32) (stray : Nat → BitVec 16)

/-- What follows the digits: the exponent if there is one, then the end. -/
def readExponent (str : Bytes) : Option Int :=
  match str with
  | [] => some 0
  | c :: rest =>
    if c = 101 ∨ c = 69 then
      match sscanf wide rest with
      | some (exponent, []) => some exponent
      | _ => none
    else none

/-- Done reading input: normalize, round and encode. -/
def encodeScan (string : Bytes) (isNegative includesSign : Bool) (s : DigitScan)
    (exponent : Int) : Option BsonDecimal128 :=
  let signAndRadix := includesSign.toNat + s.sawRadix.toNat
  let ndigitsStored := if s.digits = [] then 1 else s.digits.length
  let ndigits := if s.digits = [] then 1 else s.ndigits
  let significantDigits :=
    if s.digits = [] then 0
    else dropTrailingZeros string (s.firstNonzero + signAndRadix) s.ndigits
  let exponent := adjustExponent exponent s.radixPosition
  match shiftUp significantDigits (exponent - bsonDecimal128ExponentMax).toNat exponent
      (ndigitsStored - 1) with
  | none => none
  | some (exponent, lastDigit) =>
    let digit := digitAt stray s.digits
    let fuel := (bsonDecimal128ExponentMin - exponent).toNat + (ndigits - ndigitsStored)
    match shiftDown string signAndRadix digit ndigitsStored significantDigits fuel exponent
        lastDigit ndigits with
    | none => none
    | some (exponent, lastDigit) =>
      if lastDigit + 1 < significantDigits ∧
          string.getD (s.firstNonzero + lastDigit + signAndRadix + 1) 0 ≠ 48 then
        none
      else
        let (significandHigh, significandLow) :=
          significandHalves digit significantDigits lastDigit
        let (high, low) := joinHalves significandHigh significandLow
        some (encodeDecimal isNegative exponent high low)

/-- A string that begins with a digit or a radix. -/
def readNumber (string str : Bytes) (isNegative includesSign : Bool) : Option BsonDecimal128 :=
  match readDigits str DigitScan.new with
  | none => none
  | some (s, str) =>
    if s.sawRadix ∧ s.ndigitsRead = 0 then none
    else
      match readExponent wide str with
      | none => none
      | some exponent => encodeScan stray string isNegative includesSign s exponent

def bsonDecimal128FromString (string : Bytes) : Bool × BsonDecimal128 :=
  let (isNegative, includesSign, str) :=
    match string with
    | c :: rest => if c = 43 ∨ c = 45 then (c == 45, true, rest) else (false, false, string)
    | [] => (false, false, [])
  if isdigit (str.headD 0) ∨ str.headD 0 = 46 then
    match readNumber wide stray string str isNegative includesSign with
    | some dec => (true, dec)
    | none => (false, decimalNan)
  else if dec128Istreq str (ascii "inf") || dec128Istreq str (ascii "infinity") then
    (true, decimalInf isNegative)
  else if dec128Istreq str (ascii "nan") then (true, decimalNan)
  else (false, decimalNan)

end Read

end LibBson.Source
