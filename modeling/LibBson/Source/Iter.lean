import LibBson.Library.ReadTrace
import LibBson.Library.Word
import LibBson.Source.Types

/-!
# The element iterator

Source: bson-iter.c:42-67 (`bson_iter_init`), 146-177 (`bson_iter_recurse`),
477-794 (`_bson_iter_next_internal`); bson.c:1970-2006 (`bson_init_static`).
Offsets and lengths are `uint32_t`: additions carry `u32`, subtractions
`u32sub`. Every access to `iter->raw` goes through `Read`, so the value of a
step and the offsets it has read come from one definition. `goto mark_invalid`
is the outcome `invalid`, `break` out of the type switch the outcome `parsed`.
-/

set_option autoImplicit false

namespace LibBson.Source
open LibBson.Library

/-- What a reader of a `const bson_t *` sees: `_bson_data (bson)` and `bson->len`. -/
structure BsonRef where
  data : Mem
  len : Nat

structure BsonIter where
  raw : Option Mem
  len : Nat
  off : Nat
  type : Nat
  key : Nat
  d1 : Nat
  d2 : Nat
  d3 : Nat
  d4 : Nat
  nextOff : Nat
  errOff : Nat

namespace BsonIter

/-- The octets behind `iter->raw`; reading them after an invalid step is a
programming error and yields zeroes here. -/
def mem (it : BsonIter) : Mem := it.raw.getD fun _ => 0

/-- A fresh iterator over `len` octets at `raw`. -/
def start (raw : Option Mem) (len : Nat) : BsonIter :=
  { raw := raw, len := len, off := 0, type := 0, key := 0, d1 := 0, d2 := 0, d3 := 0, d4 := 0,
    nextOff := 4, errOff := 0 }

/-- The state `memset` leaves when initialization fails. -/
def zeroed : BsonIter :=
  { raw := none, len := 0, off := 0, type := 0, key := 0, d1 := 0, d2 := 0, d3 := 0, d4 := 0,
    nextOff := 0, errOff := 0 }

end BsonIter

/-- Source lines 1970-2006: a read-only view of a caller's buffer. -/
def bsonInitStatic (data : Mem) (length : Nat) : Option BsonRef :=
  if length < 5 ∨ length > 2147483647 then none
  else if data.le 0 4 ≠ length then none
  else if data (length - 1) ≠ 0 then none
  else some { data := data, len := length }

def bsonIterInit (bson : BsonRef) : Bool × BsonIter :=
  if bson.len < 5 then (false, BsonIter.zeroed)
  else (true, BsonIter.start (some bson.data) bson.len)

/-- How one branch of the type switch ends; `o` is the local variable, which the
final overflow check reports and the regex branch moves. -/
inductive Branch where
  | parsed (it : BsonIter) (o : Nat)
  | invalid (it : BsonIter)

/-- The common exit `iter->err_off = at; goto mark_invalid`. -/
def corrupt (it : BsonIter) (at' : Nat) : Read Branch := pure (.invalid { it with errOff := at' })

/-- DATE_TIME, DOUBLE, INT64, TIMESTAMP, OID, INT32, DECIMAL128: a fixed width. -/
def nextFixed (it : BsonIter) (o width : Nat) : Read Branch :=
  pure (.parsed { it with nextOff := u32 (o + width) } o)

/-- CODE, SYMBOL, UTF8. -/
def nextString (it : BsonIter) (o : Nat) : Read Branch := do
  if u32 (o + 4) ≥ it.len then corrupt it o
  else
    let it := { it with d2 := u32 (o + 4) }
    let l ← Read.le it.d1 4
    if l > u32sub it.len (u32 (o + 4)) then corrupt it o
    else
      let it := { it with nextOff := u32 (o + 4 + l) }
      if l = 0 ∨ it.nextOff ≥ it.len then corrupt it o
      else
        let last ← Read.byte (it.d2 + (l - 1))
        if last ≠ 0 then corrupt it (u32 (o + 4 + l - 1))
        else pure (.parsed it o)

def nextBinary (it : BsonIter) (o : Nat) : Read Branch := do
  if o ≥ u32sub it.len 4 then corrupt it o
  else
    let it := { it with d2 := u32 (o + 4), d3 := u32 (o + 5) }
    let l ← Read.le it.d1 4
    if l ≥ u32sub it.len o then corrupt it o
    else
      let subtype ← Read.byte it.d2
      if subtype = subtypeBinaryDeprecated then
        if l < 4 then corrupt it o
        else
          -- subtype 2 has a redundant length header in the data
          let binaryLen ← Read.le it.d3 4
          if u32 (binaryLen + 4) ≠ l then corrupt it it.d3
          else pure (.parsed { it with nextOff := u32 (o + 5 + l) } o)
      else pure (.parsed { it with nextOff := u32 (o + 5 + l) } o)

/-- ARRAY, DOCUMENT. -/
def nextDocument (it : BsonIter) (o : Nat) : Read Branch := do
  if o ≥ u32sub it.len 4 then corrupt it o
  else
    let l ← Read.le it.d1 4
    if l > it.len ∨ l > u32sub it.len o then corrupt it o
    else pure (.parsed { it with nextOff := u32 (o + l) } o)

def nextBool (it : BsonIter) (o : Nat) : Read Branch := do
  if it.d1 ≥ it.len then corrupt it o
  else
    let val ← Read.byte it.d1
    if val ≠ 0 ∧ val ≠ 1 then corrupt it o
    else pure (.parsed { it with nextOff := u32 (o + 1) } o)

/-- Two C strings. The error offset is the `next_off` of the previous element. -/
def nextRegex (it : BsonIter) (o : Nat) : Read Branch := do
  match ← Read.scanNul (it.len - o) o with
  | none => corrupt it it.nextOff
  | some eor =>
    let it := { it with d2 := u32 (eor + 1) }
    match ← Read.scanNul (it.len - it.d2) it.d2 with
    | none => corrupt it it.nextOff
    | some eoo => pure (.parsed { it with nextOff := u32 (eoo + 1) } eoo)

def nextDbpointer (it : BsonIter) (o : Nat) : Read Branch := do
  if o ≥ u32sub it.len 4 then corrupt it o
  else
    let it := { it with d2 := u32 (o + 4) }
    let l ← Read.le it.d1 4
    -- l counts '\0' but not 4 bytes for itself
    if l = 0 ∨ l > u32sub (u32sub it.len o) 4 then corrupt it o
    else
      let last ← Read.byte (o + l + 3)
      if last ≠ 0 then corrupt it (u32 (o + l + 3))
      else pure (.parsed { it with d3 := u32 (o + 4 + l), nextOff := u32 (o + 4 + l + 12) } o)

def nextCodewscope (it : BsonIter) (o : Nat) : Read Branch := do
  if it.len < 19 ∨ o ≥ u32sub it.len 14 then corrupt it o
  else
    let it := { it with d2 := u32 (o + 4), d3 := u32 (o + 8) }
    let l ← Read.le it.d1 4
    if l < 14 ∨ l ≥ u32sub it.len o then corrupt it o
    else
      let it := { it with nextOff := u32 (o + l) }
      if it.nextOff ≥ it.len then corrupt it o
      else
        let l ← Read.le it.d2 4
        if l = 0 ∨ l ≥ u32sub (u32sub (u32sub it.len o) 4) 4 then corrupt it o
        else if u32 (o + 4 + 4 + l + 4) ≥ it.nextOff then corrupt it (u32 (o + 4))
        else
          let it := { it with d4 := u32 (o + 4 + 4 + l) }
          let doclen ← Read.le it.d4 4
          if u32 (o + 4 + 4 + l + doclen) ≠ it.nextOff then corrupt it (u32 (o + 4 + 4 + l))
          else pure (.parsed it o)

/-- MAXKEY, MINKEY, NULL, UNDEFINED: no value octets. -/
def nextEmpty (it : BsonIter) (o : Nat) : Read Branch :=
  pure (.parsed { it with d1 := 4294967295, nextOff := o } o)

/-- The type switch; `none` is the `default` branch, which falls through to EOD. -/
def nextValue (it : BsonIter) (o : Nat) : Option BsonType → Read Branch
  | some .dateTime | some .double | some .int64 | some .timestamp => nextFixed it o 8
  | some .code | some .symbol | some .utf8 => nextString it o
  | some .binary => nextBinary it o
  | some .array | some .document => nextDocument it o
  | some .oid => nextFixed it o 12
  | some .bool => nextBool it o
  | some .regex => nextRegex it o
  | some .dbpointer => nextDbpointer it o
  | some .codewscope => nextCodewscope it o
  | some .int32 => nextFixed it o 4
  | some .decimal128 => nextFixed it o 16
  | some .maxkey | some .minkey | some .null | some .undefined => nextEmpty it o
  | some .eod | none => corrupt it o

/-- The result of `_bson_iter_next_internal` with its out parameters: the key as
an offset into the raw buffer, the type octet and `unsupported`. -/
structure Next where
  ok : Bool
  iter : BsonIter
  key : Option Nat
  bsonType : UInt8
  unsupported : Bool

def markInvalid (it : BsonIter) : BsonIter := { it with raw := none, len := 0, nextOff := 0 }

/-- `iter->off = iter->next_off` and the reset of the field offsets. -/
def enterElement (it : BsonIter) : BsonIter :=
  { it with off := it.nextOff, type := it.nextOff, key := u32 (it.nextOff + 1),
            d1 := 0, d2 := 0, d3 := 0, d4 := 0 }

/-- `fill_data_fields`: the type switch and the final overflow check. -/
def fillDataFields (it : BsonIter) (o : Nat) : Read Next := do
  let t ← Read.byte it.type
  let next (ok : Bool) (iter : BsonIter) : Next :=
    { ok := ok, iter := iter, key := some it.key, bsonType := t,
      unsupported := (BsonType.ofByte t).isNone }
  match ← nextValue it o (BsonType.ofByte t) with
  | .invalid it => pure (next false (markInvalid it))
  | .parsed it o =>
    if it.nextOff ≥ it.len then pure (next false (markInvalid { it with errOff := o }))
    else pure (next true { it with errOff := 0 })

/-- Source lines 477-794 on a non-NULL `iter->raw`. The key scan stays below
`len`, so `++o` does not wrap. -/
def nextElement (it : BsonIter) : Read Next := do
  let it := enterElement it
  match ← Read.scanNul (it.len - (it.off + 1)) (it.off + 1) with
  | none =>
    pure { ok := false, iter := markInvalid it, key := none, bsonType := 0, unsupported := false }
  | some z => fillDataFields { it with d1 := z + 1 } (z + 1)

def bsonIterNextInternal (it : BsonIter) : Next :=
  match it.raw with
  | none => { ok := false, iter := it, key := none, bsonType := 0, unsupported := false }
  | some data => (nextElement it).val data

/-- The offsets of `iter->raw` that `_bson_iter_next_internal` reads. -/
def bsonIterNextReads (it : BsonIter) : List Nat :=
  match it.raw with
  | none => []
  | some data => (nextElement it).trace data

def bsonIterNext (it : BsonIter) : Bool × BsonIter :=
  ((bsonIterNextInternal it).ok, (bsonIterNextInternal it).iter)

/-- `ITER_TYPE (iter)` -/
def iterType (it : BsonIter) : Option BsonType := BsonType.ofByte (it.mem it.type)

/-! ## Typed accessors

Source: bson-iter.c:418-437, 855-898, 918-1824; bson-iter.h:105-328. A pointer
into the raw buffer is its offset; `none` is NULL. A `double` is its 64 bits. -/

structure Slice where
  off : Nat
  len : Nat
  deriving DecidableEq, Repr

def bsonIterUtf8LenUnsafe (it : BsonIter) : Nat :=
  (max 0 (i32 (it.mem.le it.d1 4) - 1)).toNat

def bsonIterUtf8 (it : BsonIter) : Option Slice :=
  if iterType it = some .utf8 then some { off := it.d2, len := bsonIterUtf8LenUnsafe it } else none

def bsonIterCode (it : BsonIter) : Option Slice :=
  if iterType it = some .code then some { off := it.d2, len := bsonIterUtf8LenUnsafe it } else none

def bsonIterSymbol (it : BsonIter) : Option Slice :=
  if iterType it = some .symbol then some { off := it.d2, len := bsonIterUtf8LenUnsafe it }
  else none

/-- The string length was checked `> 0` by the step. -/
def bsonIterCodewscope (it : BsonIter) : Option (Slice × Slice) :=
  if iterType it = some .codewscope then
    some ({ off := it.d3, len := it.mem.le it.d2 4 - 1 }, { off := it.d4, len := it.mem.le it.d4 4 })
  else none

/-- Pattern and options, two C strings without a reported length. -/
def bsonIterRegex (it : BsonIter) : Option (Nat × Nat) :=
  if iterType it = some .regex then some (it.d1, it.d2) else none

/-- Collection name and the offset of the object id. -/
def bsonIterDbpointer (it : BsonIter) : Option (Slice × Nat) :=
  if iterType it = some .dbpointer then
    let l := it.mem.le it.d1 4
    some ({ off := it.d2, len := if l > 0 then l - 1 else l }, it.d3)
  else none

def bsonIterBinary (it : BsonIter) : Option (UInt8 × Slice) :=
  if iterType it = some .binary then
    let subtype := it.mem it.d2
    let l := it.mem.le it.d1 4
    if subtype = subtypeBinaryDeprecated then
      some (subtype, { off := it.d3 + 4, len := u32sub l 4 })
    else some (subtype, { off := it.d3, len := l })
  else none

def bsonIterDocument (it : BsonIter) : Option Slice :=
  if iterType it = some .document then some { off := it.d1, len := it.mem.le it.d1 4 } else none

def bsonIterArray (it : BsonIter) : Option Slice :=
  if iterType it = some .array then some { off := it.d1, len := it.mem.le it.d1 4 } else none

def bsonIterOid (it : BsonIter) : Option Nat :=
  if iterType it = some .oid then some it.d1 else none

def bsonIterBool (it : BsonIter) : Bool :=
  iterType it = some .bool && it.mem it.d1 != 0

def bsonIterDouble (it : BsonIter) : Nat :=
  if iterType it = some .double then it.mem.le it.d1 8 else 0

def bsonIterInt32 (it : BsonIter) : Int :=
  if iterType it = some .int32 then i32 (it.mem.le it.d1 4) else 0

def bsonIterInt64 (it : BsonIter) : Int :=
  if iterType it = some .int64 then i64 (it.mem.le it.d1 8) else 0

def bsonIterDateTime (it : BsonIter) : Int :=
  if iterType it = some .dateTime then i64 (it.mem.le it.d1 8) else 0

/-- Timestamp and increment. -/
def bsonIterTimestamp (it : BsonIter) : Nat × Nat :=
  if iterType it = some .timestamp then
    (it.mem.le it.d1 8 / 4294967296, it.mem.le it.d1 8 % 4294967296)
  else (0, 0)

/-- Low and high word. -/
def bsonIterDecimal128 (it : BsonIter) : Option (Nat × Nat) :=
  if iterType it = some .decimal128 then
    some (it.mem.le it.d1 8, it.mem.le (it.d1 + 8) 8)
  else none

def bsonIterRecurse (it : BsonIter) : Option BsonIter :=
  match iterType it with
  | some .document =>
    (bsonIterDocument it).map fun d => BsonIter.start (some (it.mem.shift d.off)) d.len
  | some .array =>
    (bsonIterArray it).map fun d => BsonIter.start (some (it.mem.shift d.off)) d.len
  | _ => none

end LibBson.Source
