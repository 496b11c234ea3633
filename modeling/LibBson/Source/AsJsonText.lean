import LibBson.Source.Decimal128
import LibBson.Source.Iso8601

/-!
# The texts of scalar values

Source: b64_ntop.h:117-190 (`b64_ntop`), bson-oid.c:266-337 (`bson_oid_to_string`),
bson.c:2581-2623 (`_bson_as_json_visit_double`). `%.20g` is the C library's, for
a `double` given by its 64 bits: the exact binary fraction, rounded to twenty
digits, half to even.
-/

set_option autoImplicit false

namespace LibBson.Source
open LibBson.Library

/-! ## Base 64 and hexadecimal -/

/-- `Base64[n]` -/
def base64Char (n : UInt8) : UInt8 :=
  if n < 26 then n + 65
  else if n < 52 then n + 71
  else if n < 62 then n - 4
  else if n = 62 then 43
  else 47

/-- `b64_ntop` into a buffer that is large enough. -/
def b64Ntop : Bytes → Bytes
  | [] => []
  | [a] => [base64Char (a >>> 2), base64Char ((a &&& 0x03) <<< 4), 61, 61]
  | [a, b] =>
    [base64Char (a >>> 2), base64Char (((a &&& 0x03) <<< 4) + (b >>> 4)),
      base64Char ((b &&& 0x0f) <<< 2), 61]
  | a :: b :: c :: src =>
    base64Char (a >>> 2) :: base64Char (((a &&& 0x03) <<< 4) + (b >>> 4)) ::
      base64Char (((b &&& 0x0f) <<< 2) + (c >>> 6)) :: base64Char (c &&& 0x3f) :: b64Ntop src

example : b64Ntop (ascii "Mango") = ascii "TWFuZ28=" := by decide

/-- `%02x` of an octet. -/
def hexPair (b : UInt8) : Bytes :=
  let digit (n : UInt8) : UInt8 := if n < 10 then n + 48 else n + 87
  [digit (b >>> 4), digit (b &&& 0x0f)]

def bsonOidToString (oid : Bytes) : Bytes := (oid.map hexPair).flatten

/-! ## `%.20g` -/

/-- A finite `double` other than zero is `num / den`, up to its sign. -/
structure DoubleValue where
  num : Nat
  den : Nat

/-- The parts of the 64 bits. -/
def doubleNegative (bits : Nat) : Bool := 9223372036854775808 ≤ bits

def doubleExponent (bits : Nat) : Nat := bits / 4503599627370496 % 2048

def doubleFraction (bits : Nat) : Nat := bits % 4503599627370496

/-- `v_double != v_double` -/
def doubleIsNan (bits : Nat) : Bool := doubleExponent bits = 2047 && doubleFraction bits ≠ 0

/-- `v_double * 0 != 0`, which holds of NaN too. -/
def doubleIsSpecial (bits : Nat) : Bool := doubleExponent bits = 2047

def doubleValue (bits : Nat) : DoubleValue :=
  let exponent := doubleExponent bits
  let significand := doubleFraction bits + if exponent = 0 then 0 else 4503599627370496
  let power := max exponent 1
  if 1075 ≤ power then { num := significand * 2 ^ (power - 1075), den := 1 }
  else { num := significand, den := 2 ^ (1075 - power) }

/-- How often `num` can be multiplied by ten and stay below `den`. -/
def leadingZeros (den : Nat) : Nat → Nat → Nat
  | 0, _ => 0
  | fuel + 1, num => if num * 10 < den then leadingZeros den fuel (num * 10) + 1 else 0

/-- The exponent of ten of the first digit; no `double` is below `10 ^ -324`. -/
def DoubleValue.exponent (v : DoubleValue) : Int :=
  if v.den ≤ v.num then (decimal (v.num / v.den)).length - 1
  else -(leadingZeros v.den 330 v.num : Int) - 1

/-- `num / den` to the nearest integer, half to even. -/
def divideEven (num den : Nat) : Nat :=
  let q := num / den
  let r := num % den
  if den < 2 * r ∨ (den = 2 * r ∧ q % 2 = 1) then q + 1 else q

/-- The twenty digits as one number, and the exponent of the first. -/
def DoubleValue.rounded (v : DoubleValue) : Nat × Int :=
  let x := v.exponent
  let scaled :=
    if x ≤ 19 then divideEven (v.num * 10 ^ (19 - x).toNat) v.den
    else divideEven v.num (v.den * 10 ^ (x - 19).toNat)
  if scaled = 10 ^ 20 then (10 ^ 19, x + 1) else (scaled, x)

/-- The digits `%g` keeps behind the point, with the point. -/
def fractionDigits (ds : Bytes) : Bytes :=
  let kept := (ds.reverse.dropWhile (· = 48)).reverse
  if kept = [] then [] else 46 :: kept

/-- The digits of a number other than zero, from the rounded one. -/
def digitsG (digits : Bytes) (x : Int) : Bytes :=
  if -4 ≤ x ∧ x < 20 then
    if x < 0 then 48 :: fractionDigits (List.replicate ((-x).toNat - 1) 48 ++ digits)
    else digits.take (x.toNat + 1) ++ fractionDigits (digits.drop (x.toNat + 1))
  else
    digits.take 1 ++ fractionDigits (digits.drop 1) ++
      [101, if x < 0 then 45 else 43] ++ (if x.natAbs < 10 then [48] else []) ++ decimal x.natAbs

/-- `"%.20g"` -/
def printfG20 (bits : Nat) : Bytes :=
  let sign : Bytes := if doubleNegative bits then [45] else []
  if doubleIsNan bits then sign ++ ascii "nan"
  else if doubleIsSpecial bits then sign ++ ascii "inf"
  else if (doubleValue bits).num = 0 then sign ++ ascii "0"
  else
    let (digits, x) := (doubleValue bits).rounded
    sign ++ digitsG (decimal digits) x

example : printfG20 0x3fb999999999999a = ascii "0.10000000000000000555" := by decide +kernel

/-- What is appended for a finite number, or for any in legacy mode: a ".0" behind it when there
are only digits and signs. -/
def doubleTexts (bits : Nat) : List Bytes :=
  let text := printfG20 bits
  if text.all fun c => (48 ≤ c && c ≤ 57) || c == 45 then [text, ascii ".0"] else [text]

end LibBson.Source
