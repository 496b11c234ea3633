import LibBson.Library.Memory

/-!
# BSON element types

Source: bson-types.h:217-257. The iterator reads a type as one octet and casts
it to `bson_type_t`; an octet that is no enumerator falls into the `default`
branch of every switch, here `none`.
-/

set_option autoImplicit false

namespace LibBson.Source
open LibBson.Library

inductive BsonType where
  | eod | double | utf8 | document | array | binary | undefined | oid | bool | dateTime | null
  | regex | dbpointer | code | symbol | codewscope | int32 | timestamp | int64 | decimal128
  | maxkey | minkey
  deriving DecidableEq, Repr

namespace BsonType

def toByte : BsonType → UInt8
  | eod => 0x00
  | double => 0x01
  | utf8 => 0x02
  | document => 0x03
  | array => 0x04
  | binary => 0x05
  | undefined => 0x06
  | oid => 0x07
  | bool => 0x08
  | dateTime => 0x09
  | null => 0x0A
  | regex => 0x0B
  | dbpointer => 0x0C
  | code => 0x0D
  | symbol => 0x0E
  | codewscope => 0x0F
  | int32 => 0x10
  | timestamp => 0x11
  | int64 => 0x12
  | decimal128 => 0x13
  | maxkey => 0x7F
  | minkey => 0xFF

def all : List BsonType :=
  [eod, double, utf8, document, array, binary, undefined, oid, bool, dateTime, null, regex,
    dbpointer, code, symbol, codewscope, int32, timestamp, int64, decimal128, maxkey, minkey]

/-- `(bson_type_t) byte`, with `none` for an octet that is no enumerator. -/
def ofByte (b : UInt8) : Option BsonType := all.find? fun t => t.toByte == b

@[simp] theorem ofByte_toByte (t : BsonType) : ofByte t.toByte = some t := by
  cases t <;> decide

theorem toByte_of_ofByte {b : UInt8} {t : BsonType} (h : ofByte b = some t) : t.toByte = b := by
  have hp := List.find?_some h
  simpa using hp

theorem toByte_injective {s t : BsonType} (h : s.toByte = t.toByte) : s = t := by
  have hs := ofByte_toByte s
  rw [h, ofByte_toByte] at hs
  exact (Option.some.inj hs).symm

theorem toByte_ne_zero {t : BsonType} (h : t ≠ eod) : t.toByte ≠ 0 := by
  cases t <;> first | exact absurd rfl h | decide

end BsonType

/-- `BSON_SUBTYPE_BINARY_DEPRECATED` -/
def subtypeBinaryDeprecated : UInt8 := 0x02

end LibBson.Source
