import LibBson.Source.JsonState

/-!
# Payload texts of extended JSON

Source: bson-oid.h:154-222, b64_pton.h:142-420 (`b64_pton`), bson-json.c:719-770
(`_bson_json_parse_double`). `JsonDecoders` holds the functions the reader hands
payloads to without looking at them itself.
-/

set_option autoImplicit false

namespace LibBson.Source
open LibBson.Library

/-- `bson_oid_parse_hex_char` -/
def bsonOidParseHexChar (c : UInt8) : UInt8 :=
  if 48 ≤ c ∧ c ≤ 57 then c - 48
  else if 97 ≤ c ∧ c ≤ 102 then c - 87
  else if 65 ≤ c ∧ c ≤ 70 then c - 55
  else 0

/-- `bson_oid_init_from_string_unsafe` -/
def bsonOidInitFromString (str : Bytes) : Bytes :=
  (List.range 12).map fun i =>
    bsonOidParseHexChar (str.getD (2 * i) 0) <<< 4 ||| bsonOidParseHexChar (str.getD (2 * i + 1) 0)

/-! ## `b64_pton` -/

/-- An entry of `b64rmap`: a digit, white space, the end (NUL, `=`) or no base64. -/
inductive B64Class where
  | ofs (n : UInt8)
  | space
  | «end»
  | invalid

/-- `isspace` in the C locale. -/
def isSpace (c : UInt8) : Bool := c == 32 || (9 ≤ c && c ≤ 13)

/-- What `b64_initialize_rmap` puts at an index below 128. -/
def b64rmap (c : UInt8) : B64Class :=
  if 65 ≤ c ∧ c ≤ 90 then .ofs (c - 65)
  else if 97 ≤ c ∧ c ≤ 122 then .ofs (c - 71)
  else if 48 ≤ c ∧ c ≤ 57 then .ofs (c + 4)
  else if c = 43 then .ofs 62
  else if c = 47 then .ofs 63
  else if isSpace c then .space
  else if c = 0 ∨ c = 61 then .end
  else .invalid

/-- The functions the reader hands payload texts to: the C library's, and those of
bson-iso8601.c, bson-decimal128.c and bson-string.c. `b64rmapBefore` is what stands
in front of `b64rmap`, where the signed `char` of an octet from 128 on indexes it. -/
structure JsonDecoders where
  /-- `bson_ascii_strtoll (s, &end, 10)`: the value, `end - s` and `errno == ERANGE`. -/
  asciiStrtoll : Bytes → Int × Nat × Bool
  /-- `strtod (s, NULL)` by its 64 bits, and whether it overflowed with `ERANGE`. -/
  strtod : Bytes → Nat × Bool
  /-- `sscanf (s, "%02x", &n)`, `none` unless it returns 1. -/
  sscanfHex : Bytes → Option Nat
  /-- `_bson_iso8601_date_parse` -/
  iso8601DateParse : Bytes → Except JsonError Int
  /-- `bson_decimal128_from_string`: low and high word. -/
  decimal128FromString : Bytes → Nat × Nat
  b64rmapBefore : UInt8 → B64Class

/-- What the functions answer to a text that is none of theirs: an `end` that is no
pointer into it, no number, no date and NaN. -/
def JsonDecoders.rejecting : JsonDecoders :=
  { asciiStrtoll := fun s => (0, s.length + 1, false)
    strtod := fun _ => (0, false)
    sscanfHex := fun _ => none
    iso8601DateParse := fun s => .error
      { code := .readInvalidParam
        message := formatted [ascii "Could not parse \"", s, ascii "\" as date: year must be an integer"] }
    decimal128FromString := fun _ => (0, 8935141660703064064)
    b64rmapBefore := fun _ => .invalid }

section B64

variable (before : UInt8 → B64Class)

def b64Class (c : UInt8) : B64Class := if c < 128 then b64rmap c else before c

/-- The loop over the digits: `state`, the octets of `target` in front of
`tarindex`, `target[tarindex]`, and the text from the ending character on. -/
def b64Digits : Nat → Bytes → UInt8 → Bytes → Option (Nat × Bytes × Bytes)
  | state, target, _, [] => some (state, target, [])
  | state, target, part, ch :: src =>
    match b64Class before ch with
    | .space => b64Digits state target part src
    | .end => some (state, target, ch :: src)
    | .invalid => none
    | .ofs ofs =>
      match state with
      | 0 => b64Digits 1 target (ofs <<< 2) src
      | 1 => b64Digits 2 (target ++ [part ||| ofs >>> 4]) ((ofs &&& 0x0f) <<< 4) src
      | 2 => b64Digits 3 (target ++ [part ||| ofs >>> 2]) ((ofs &&& 0x03) <<< 6) src
      | _ => b64Digits 0 (target ++ [part ||| ofs]) 0 src

def b64AllSpace (src : Bytes) : Bool :=
  src.all fun c => match b64Class before c with
    | .space => true
    | _ => false

def b64SkipSpace : Bytes → Bytes
  | [] => []
  | ch :: src =>
    match b64Class before ch with
    | .space => b64SkipSpace src
    | _ => ch :: src

/-- What is accepted behind the digits. -/
def b64Padding (state : Nat) : Bytes → Bool
  | [] => state == 0
  | _ :: src =>
    match state with
    | 0 | 1 => false
    | 2 =>
      match b64SkipSpace before src with
      | 61 :: src => b64AllSpace before src
      | _ => false
    | _ => b64AllSpace before src

/-- `b64_pton (src, NULL, 0)` returns the length of the octets, which is an `int`, or -1; a
second call with that much room stores them. -/
def b64Pton (src : Bytes) : Option Bytes :=
  match b64Digits before 0 [] 0 (cText src) with
  | none => none
  | some (state, target, rest) =>
    if b64Padding before state rest && decide (target.length < 2147483648) then some target
    else none

end B64

/-! ## `strncasecmp` -/

def toLower (c : UInt8) : UInt8 := if 65 ≤ c ∧ c ≤ 90 then c + 32 else c

/-- `strncasecmp (s, t, n) == 0` -/
def strncasecmpEq (s t : Bytes) (n : Nat) : Bool :=
  ((cText s ++ [0]).take n).map toLower == ((cText t ++ [0]).take n).map toLower

end LibBson.Source
