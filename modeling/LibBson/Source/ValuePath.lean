import LibBson.Source.AppendBytes
import LibBson.Source.AppendExact
import LibBson.Source.IterRuns
import Mathlib.Data.Option.Basic

/-!
# Values taken out of an iterator, copied and appended

Source: bson-value.c:24-139 (`bson_value_copy`), bson-iter.c:2332-2429
(`bson_iter_value`), bson.c:1807-1931 (`bson_append_value`), bson-memory.c:62-74
(`bson_malloc`), bson-string.c:338-358 (`bson_strdup`). `bson_malloc (0)` is NULL, which
`bson_append_binary` and `bson_init_static` assert against. What `malloc` leaves
behind the copied octets is the parameter `block`.
-/

set_option autoImplicit false

namespace LibBson.Source
open LibBson.Library

/-- A `bson_value_t` with `collection_len` or `code_len`, which no append reads. -/
structure IterValue where
  value : BsonValue
  textLen : Nat

def bsonIterValue (it : BsonIter) : Option IterValue :=
  match iterType it with
  | none | some .eod => none
  | some .double => some ⟨.double (bsonIterDouble it), 0⟩
  | some .utf8 => (bsonIterUtf8 it).map fun s => ⟨.utf8 (some (it.pointer s.off)) s.len, 0⟩
  | some .document => (bsonIterDocument it).map fun s => ⟨.document (it.mem.shift s.off) s.len, 0⟩
  | some .array => (bsonIterArray it).map fun s => ⟨.array (it.mem.shift s.off) s.len, 0⟩
  | some .binary =>
    (bsonIterBinary it).map fun (subtype, s) => ⟨.binary (it.pointer s.off) s.len subtype, 0⟩
  | some .oid => (bsonIterOid it).map fun o => ⟨.oid (copied (it.pointer o) 12), 0⟩
  | some .bool => some ⟨.bool (bsonIterBool it), 0⟩
  | some .dateTime => some ⟨.dateTime (bsonIterDateTime it), 0⟩
  | some .regex =>
    (bsonIterRegex it).map fun (r, o) => ⟨.regex (some (it.pointer r)) (some (it.pointer o)), 0⟩
  | some .dbpointer =>
    (bsonIterDbpointer it).map fun (c, o) =>
      ⟨.dbpointer (it.pointer c.off) (copied (it.pointer o) 12), c.len⟩
  | some .code => (bsonIterCode it).map fun s => ⟨.code (it.pointer s.off), s.len⟩
  | some .symbol => (bsonIterSymbol it).map fun s => ⟨.symbol (some (it.pointer s.off)) s.len, 0⟩
  | some .codewscope =>
    (bsonIterCodewscope it).map fun (c, s) =>
      ⟨.codewscope (it.pointer c.off) (it.mem.shift s.off) s.len, c.len⟩
  | some .int32 => some ⟨.int32 (bsonIterInt32 it), 0⟩
  | some .timestamp =>
    let (t, i) := bsonIterTimestamp it
    some ⟨.timestamp t i, 0⟩
  | some .int64 => some ⟨.int64 (bsonIterInt64 it), 0⟩
  | some .decimal128 => (bsonIterDecimal128 it).map fun (l, h) => ⟨.decimal128 l h, 0⟩
  | some .null => some ⟨.null, 0⟩
  | some .undefined => some ⟨.undefined, 0⟩
  | some .maxkey => some ⟨.maxkey, 0⟩
  | some .minkey => some ⟨.minkey, 0⟩

/-- `bson_malloc (len + 1)`, `memcpy` of `len` octets and the NUL behind them. -/
def copyText (s : Bytes) (len : Nat) : Bytes := copied s len ++ [0]

def bsonStrdup (s : Bytes) : Bytes := copied s (strlen s + 1)

/-- A copied value, and whether its `data` or `scope_data` is NULL. -/
structure ValueCopy where
  value : BsonValue
  dataNull : Bool

/-- `none` is the failing assertion of the `default` branch. -/
def bsonValueCopy (block : Mem) (src : IterValue) : Option ValueCopy :=
  match src.value with
  | .double v => some ⟨.double v, false⟩
  | .utf8 str len => some ⟨.utf8 (some (copyText (str.getD []) len)) len, false⟩
  | .document data len => some ⟨.document (data.copyPrefix block len) len, len == 0⟩
  | .array data len => some ⟨.array (data.copyPrefix block len) len, len == 0⟩
  | .binary data len subtype => some ⟨.binary (copied data len) len subtype, len == 0⟩
  | .oid v => some ⟨.oid (copied v 12), false⟩
  | .bool v => some ⟨.bool v, false⟩
  | .dateTime v => some ⟨.dateTime v, false⟩
  | .regex r o => some ⟨.regex (r.map bsonStrdup) (o.map bsonStrdup), false⟩
  | .dbpointer c o => some ⟨.dbpointer (copyText c src.textLen) (copied o 12), false⟩
  | .code c => some ⟨.code (copyText c src.textLen), false⟩
  | .symbol s len => some ⟨.symbol (some (copyText (s.getD []) len)) len, false⟩
  | .codewscope c data len =>
    some ⟨.codewscope (copyText c src.textLen) (data.copyPrefix block len) len, len == 0⟩
  | .int32 v => some ⟨.int32 v, false⟩
  | .timestamp t i => some ⟨.timestamp t i, false⟩
  | .int64 v => some ⟨.int64 v, false⟩
  | .decimal128 l h => some ⟨.decimal128 l h, false⟩
  | .undefined => some ⟨.undefined, false⟩
  | .null => some ⟨.null, false⟩
  | .maxkey => some ⟨.maxkey, false⟩
  | .minkey => some ⟨.minkey, false⟩
  | .eod => none

/-- `bson_append_value` of `bson_value_copy` of `bson_iter_value`; the copy of a
NULL value fails an assertion. -/
def appendValueCopy (fresh : Nat → Mem) (block : Mem) (c : Chain) (key : Bytes) (keyLength : Int)
    (it : BsonIter) : Outcome :=
  match (bsonIterValue it).bind (bsonValueCopy block) with
  | none => .aborted
  | some v =>
    if v.dataNull then .aborted else bsonAppendCall fresh c (.value key keyLength v.value)

/-! ## Requests that hand over the same octets -/

/-- What the `memcpy` calls of a request move, with their lengths. -/
def AppendArgs.handed (args : AppendArgs) : List (Nat × Bytes) :=
  args.used.map fun p => (p.1, copied p.2 p.1)

structure SameRequest (a b : AppendArgs) : Prop where
  nBytes : a.nBytes = b.nBytes
  handed : a.handed = b.handed

theorem appendPairs_handed (buf : Nat) (pairs : List (Nat × Bytes)) :
    appendPairs buf (pairs.map fun p => (p.1, copied p.2 p.1)) = appendPairs buf pairs := by
  induction pairs generalizing buf with
  | nil => rfl
  | cons p rest ih =>
    rw [List.map_cons, appendPairs, appendPairs, ih, copied_of_length (copied_length _ _)]

theorem pairsLength_handed (pairs : List (Nat × Bytes)) :
    pairsLength (pairs.map fun p => (p.1, copied p.2 p.1)) = pairsLength pairs := by
  unfold pairsLength
  rw [List.map_map]
  rfl

theorem SameRequest.size {a b : AppendArgs} (h : SameRequest a b) : a.size = b.size := by
  have hlen := congrArg pairsLength h.handed
  rw [AppendArgs.handed, AppendArgs.handed, pairsLength_handed, pairsLength_handed] at hlen
  exact hlen

theorem bsonAppendInternal_congr (fresh : Nat → Mem) (c : Chain) {a b : AppendArgs}
    (h : SameRequest a b) : bsonAppendInternal fresh c a = bsonAppendInternal fresh c b := by
  have hva : ∀ c, appendVa c a = appendVa c b := by
    intro c
    have hpairs : ∀ buf, appendPairs buf a.used = appendPairs buf b.used := by
      intro buf
      rw [← appendPairs_handed, ← appendPairs_handed buf b.used]
      exact congrArg (appendPairs buf) h.handed
    rw [appendVa, appendVa, appendStores, appendStores, appendedLen, appendedLen, h.size, hpairs]
  unfold bsonAppendInternal
  simp only [h.nBytes, hva]

/-- Two values whose appends hand over the same octets under every key. -/
def Field.Same (f g : Field) : Prop :=
  ∀ key keyLength, SameRequest (f.append key keyLength) (g.append key keyLength)

theorem Field.Same.refl (f : Field) : f.Same f := fun _ _ => ⟨rfl, rfl⟩

theorem keyedAppend_same {type : BsonType} {nPairs : Nat} {valueBytes valueBytes' : Int}
    {value value' : List (Nat × Bytes)} (key : Bytes) (keyLength : Int)
    (hbytes : valueBytes = valueBytes')
    (h : (value.map fun p => (p.1, copied p.2 p.1)) =
      value'.map fun p => (p.1, copied p.2 p.1)) :
    SameRequest (keyedAppend type key keyLength nPairs valueBytes value)
      (keyedAppend type key keyLength nPairs valueBytes' value') where
  nBytes := by rw [hbytes]; rfl
  handed := by
    simp only [AppendArgs.handed, AppendArgs.used, keyedAppend, List.map_take, List.map_cons, h]

/-- The calls of `bson_append_value` and `bson_append_iter` for values of this kind end alike. -/
theorem call_same {fresh : Nat → Mem} {c : Chain} {key : Bytes} {keyLength : Int}
    {v : BsonValue} {it : BsonIter} (h : Option.Rel Field.Same v.field (iterField it)) :
    bsonAppendCall fresh c (.value key keyLength v) =
      bsonAppendCall fresh c (.iter (some key) keyLength it) := by
  simp only [bsonAppendCall, AppendCall.request, AppendCall.keyed]
  generalize v.field = vf at h
  generalize iterField it = itf at h
  cases h with
  | none => rfl
  | some hsame =>
    exact bsonAppendInternal_congr fresh c (hsame key keyLength)

theorem bsonAppendCall_ne_aborted (fresh : Nat → Mem) (c : Chain) (call : AppendCall) :
    bsonAppendCall fresh c call ≠ .aborted := by
  unfold bsonAppendCall bsonAppendInternal
  split
  · split
    · exact fun h => (nomatch h)
    · split
      · exact fun h => (nomatch h)
      · exact fun h => (nomatch h)
  · exact fun h => (nomatch h)
  · exact fun h => (nomatch h)

end LibBson.Source
