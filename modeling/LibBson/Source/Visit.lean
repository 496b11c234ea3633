import LibBson.Source.Iter
import LibBson.Source.Utf8

/-!
# Visiting all fields

Source: bson-iter.c:1825-2151 (`bson_iter_visit_all`); bson-types.h:392-494
(`bson_visitor_t`). A callback that is NULL lets the visit go on. A string
argument is the octets it points to, with its length where the callback takes
one and up to its NUL where it does not; `data` is threaded through.
-/

set_option autoImplicit false

namespace LibBson.Source
open LibBson.Library

/-- The C string at `o`, whose NUL stands among the next `n` octets. -/
def cstringAt (m : Mem) (o n : Nat) : Bytes := (m.slice o n).takeWhile (· ≠ 0)

/-- `bson_iter_key_unsafe` -/
def bsonIterKeyUnsafe (it : BsonIter) : Bytes := cstringAt it.mem it.key (it.len - it.key)

namespace BsonIter

/-- The octets of a slice an accessor has returned. -/
def octets (it : BsonIter) (p : Slice) : Bytes := it.mem.slice p.off p.len

/-- The C string an accessor has returned. -/
def cstring (it : BsonIter) (o : Nat) : Bytes := cstringAt it.mem o (it.len - o)

/-- `bson_init_static` on a slice an accessor has returned. -/
def initStatic (it : BsonIter) (p : Slice) : Option BsonRef :=
  bsonInitStatic (it.mem.shift p.off) p.len

end BsonIter

/-- A callback with a value of type `α`; true stops the visit. -/
abbrev Callback (σ α : Type) : Type := Option (BsonIter → Bytes → α → σ → Bool × σ)

structure Visitor (σ : Type) where
  before : Callback σ Unit := none
  after : Callback σ Unit := none
  corrupt : Option (BsonIter → σ → σ) := none
  double : Callback σ Nat := none
  utf8 : Callback σ Bytes := none
  document : Callback σ BsonRef := none
  array : Callback σ BsonRef := none
  binary : Callback σ (UInt8 × Bytes) := none
  undefined : Callback σ Unit := none
  oid : Callback σ Bytes := none
  bool : Callback σ Bool := none
  dateTime : Callback σ Int := none
  null : Callback σ Unit := none
  regex : Callback σ (Bytes × Bytes) := none
  dbpointer : Callback σ (Bytes × Bytes) := none
  code : Callback σ Bytes := none
  symbol : Callback σ Bytes := none
  codewscope : Callback σ (Bytes × BsonRef) := none
  int32 : Callback σ Int := none
  timestamp : Callback σ (Nat × Nat) := none
  int64 : Callback σ Int := none
  maxkey : Callback σ Unit := none
  minkey : Callback σ Unit := none
  unsupportedType : Option (BsonIter → Bytes → UInt8 → σ → σ) := none
  decimal128 : Callback σ (Nat × Nat) := none

/-- What a visit leaves: its result, the iterator and the user data. -/
structure Visited (σ : Type) where
  stop : Bool
  iter : BsonIter
  data : σ

section Visit

variable {σ α : Type}

/-- `visitor->visit_x && visitor->visit_x (iter, key, value, data)` -/
def Callback.call (f : Callback σ α) (it : BsonIter) (key : Bytes) (value : α) (data : σ) :
    Visited σ :=
  match f with
  | none => { stop := false, iter := it, data := data }
  | some f => { stop := (f it key value data).1, iter := it, data := (f it key value data).2 }

/-- `if (!bson_utf8_validate (text, len, true)) { iter->err_off = iter->off; return true; }` -/
def visitText (it : BsonIter) (text : Bytes) (data : σ) (call : Visited σ) : Visited σ :=
  if bsonUtf8Validate text true then call
  else { stop := true, iter := { it with errOff := it.off }, data := data }

/-- `bson_init_static (&b, docbuf, doclen) && VISIT (iter, key, &b, data)` -/
def visitStatic (it : BsonIter) (p : Slice) (data : σ) (call : BsonRef → Visited σ) : Visited σ :=
  match it.initStatic p with
  | none => { stop := false, iter := it, data := data }
  | some b => call b

/-- The `switch (bson_type)`. An accessor answers `none` only on another type. -/
def visitValue (v : Visitor σ) (it : BsonIter) (key : Bytes) (data : σ) : Visited σ :=
  let skip : Visited σ := { stop := false, iter := it, data := data }
  match iterType it with
  | some .double => Callback.call v.double it key (bsonIterDouble it) data
  | some .utf8 =>
    match bsonIterUtf8 it with
    | none => skip
    | some p => visitText it (it.octets p) data (Callback.call v.utf8 it key (it.octets p) data)
  | some .document =>
    match bsonIterDocument it with
    | none => skip
    | some p => visitStatic it p data fun b => Callback.call v.document it key b data
  | some .array =>
    match bsonIterArray it with
    | none => skip
    | some p => visitStatic it p data fun b => Callback.call v.array it key b data
  | some .binary =>
    match bsonIterBinary it with
    | none => skip
    | some (subtype, p) => Callback.call v.binary it key (subtype, it.octets p) data
  | some .undefined => Callback.call v.undefined it key () data
  | some .oid =>
    match bsonIterOid it with
    | none => skip
    | some o => Callback.call v.oid it key (it.mem.slice o 12) data
  | some .bool => Callback.call v.bool it key (bsonIterBool it) data
  | some .dateTime => Callback.call v.dateTime it key (bsonIterDateTime it) data
  | some .null => Callback.call v.null it key () data
  | some .regex =>
    match bsonIterRegex it with
    | none => skip
    | some (p, q) =>
      visitText it (it.cstring p) data
        (Callback.call v.regex it key (it.cstring p, it.cstring q) data)
  | some .dbpointer =>
    match bsonIterDbpointer it with
    | none => skip
    | some (p, o) =>
      visitText it (it.octets p) data
        (Callback.call v.dbpointer it key (it.octets p, it.mem.slice o 12) data)
  | some .code =>
    match bsonIterCode it with
    | none => skip
    | some p => visitText it (it.octets p) data (Callback.call v.code it key (it.octets p) data)
  | some .symbol =>
    match bsonIterSymbol it with
    | none => skip
    | some p => visitText it (it.octets p) data (Callback.call v.symbol it key (it.octets p) data)
  | some .codewscope =>
    match bsonIterCodewscope it with
    | none => skip
    | some (p, q) =>
      visitText it (it.octets p) data
        (visitStatic it q data fun b => Callback.call v.codewscope it key (it.octets p, b) data)
  | some .int32 => Callback.call v.int32 it key (bsonIterInt32 it) data
  | some .timestamp => Callback.call v.timestamp it key (bsonIterTimestamp it) data
  | some .int64 => Callback.call v.int64 it key (bsonIterInt64 it) data
  | some .decimal128 =>
    match bsonIterDecimal128 it with
    | none => skip
    | some d => Callback.call v.decimal128 it key d data
  | some .maxkey => Callback.call v.maxkey it key () data
  | some .minkey => Callback.call v.minkey it key () data
  | some .eod | none => skip

/-- `VISIT_BEFORE`, the type switch and `VISIT_AFTER`, up to the first that stops. -/
def visitElement (v : Visitor σ) (it : BsonIter) (key : Bytes) (data : σ) : Visited σ :=
  let before := Callback.call v.before it key () data
  if before.stop then before
  else
    let value := visitValue v it key before.data
    if value.stop then value else Callback.call v.after value.iter key () value.data

/-- Behind the loop: corruption and unsupported types are reported. -/
def visitEnd (v : Visitor σ) (it : BsonIter) (next : Next) (key : Bytes) (data : σ) : Visited σ :=
  if it.errOff = 0 then { stop := false, iter := it, data := data }
  else
    match v.unsupportedType, next.unsupported && bsonUtf8Validate key false with
    | some f, true => { stop := false, iter := it, data := f it key next.bsonType data }
    | _, _ => { stop := false, iter := it, data := (v.corrupt.map fun f => f it data).getD data }

/-- The `while` loop. A successful step moves on by at least two octets, so one turn
more than the buffer has octets is enough. -/
def visitLoop (v : Visitor σ) : Nat → BsonIter → σ → Visited σ
  | 0, it, data => { stop := false, iter := it, data := data }
  | fuel + 1, it, data =>
    let next := bsonIterNextInternal it
    let key := (next.key.map fun k => cstringAt it.mem k (it.len - k)).getD []
    if next.ok = false then visitEnd v next.iter next key data
    else if key ≠ [] ∧ bsonUtf8Validate key false = false then
      visitEnd v { next.iter with errOff := next.iter.off } next key data
    else
      let element := visitElement v next.iter key data
      if element.stop then element else visitLoop v fuel element.iter element.data

def bsonIterVisitAll (v : Visitor σ) (it : BsonIter) (data : σ) : Visited σ :=
  visitLoop v (it.len + 1) it data

end Visit

end LibBson.Source
