import LibBson.Source.Iter

/-!
# What each `bson_append_*` function hands to `_bson_append`

Source: bson.c:752-1958, 3466-3477. A `const char *` or `const uint8_t *`
argument is the list of octets it addresses, which a NUL follows; `memcpy` of
`n` octets takes the first `n` of them. A `bson_t` argument is a `BsonRef`. The
warning `bson_append_array` prints about the first key has no other effect and
is left out. `n_bytes` and `n_pairs` are written as the source writes them,
independently of the list of pairs.
-/

set_option autoImplicit false

namespace LibBson.Source
open LibBson.Library

/-- The octets in front of the first NUL. -/
def cText (s : Bytes) : Bytes := s.takeWhile (· ≠ 0)

def strlen (s : Bytes) : Nat := (cText s).length

/-- `(int) strlen (s)` -/
def intStrlen (s : Bytes) : Int := i32 (strlen s)

theorem cText_of_no_nul {s : Bytes} (h : 0 ∉ s) : cText s = s := by
  induction s with
  | nil => rfl
  | cons b s ih =>
    simp only [List.mem_cons, not_or] at h
    rw [cText, List.takeWhile_cons_of_pos (by simpa using Ne.symm h.1)]
    exact congrArg (b :: ·) (ih h.2)

theorem cText_append_nul {s rest : Bytes} (h : (0 : UInt8) ∉ s) : cText (s ++ 0 :: rest) = s := by
  have hall : ∀ b ∈ s, decide (b ≠ 0) = true := by
    intro b hb
    rw [decide_eq_true_eq]
    exact fun hz => h (hz ▸ hb)
  rw [cText, List.takeWhile_append_of_pos hall, List.takeWhile_cons_of_neg (by simp), List.append_nil]

theorem not_mem_cText (s : Bytes) : (0 : UInt8) ∉ cText s := by
  induction s with
  | nil => exact List.not_mem_nil
  | cons b s ih =>
    rw [cText, List.takeWhile_cons]
    split
    · next hb =>
      rw [List.mem_cons, not_or]
      exact ⟨(of_decide_eq_true hb).symm, ih⟩
    · exact List.not_mem_nil

/-- `memcpy (_, s, n)` -/
def copied (s : Bytes) (n : Nat) : Bytes := s.takeD n 0

/-- `n_pairs`, `n_bytes` and the (length, data) pairs of one `_bson_append` call. -/
structure AppendArgs where
  nPairs : Nat
  nBytes : Nat
  pairs : List (Nat × Bytes)

/-- `if (key_length < 0) key_length = (int) strlen (key);` -/
def defaultKeyLength (key : Bytes) (keyLength : Int) : Int :=
  if keyLength < 0 then intStrlen key else keyLength

/-- The shape all keyed appends share: the pairs `1, &type, key_length, key, 1,
&gZero` in front of the value's, and `1 + key_length + 1 + valueBytes`. -/
def keyedAppend (type : BsonType) (key : Bytes) (keyLength : Int) (nPairs : Nat)
    (valueBytes : Int) (value : List (Nat × Bytes)) : AppendArgs :=
  let keyLength := defaultKeyLength key keyLength
  { nPairs := nPairs
    nBytes := ofInt32 (1 + keyLength + 1 + valueBytes)
    pairs := (1, [type.toByte]) :: (ofInt32 keyLength, key) :: (1, [0]) :: value }

/-- `_bson_data (b)` with its length. -/
def BsonRef.pair (b : BsonRef) : Nat × Bytes := (b.len, b.data.slice 0 b.len)

def bsonAppendArray (key : Bytes) (keyLength : Int) (array : BsonRef) : AppendArgs :=
  keyedAppend .array key keyLength 4 array.len [array.pair]

def bsonAppendBinary (key : Bytes) (keyLength : Int) (subtype : UInt8) (binary : Bytes)
    (length : Nat) : AppendArgs :=
  if subtype = subtypeBinaryDeprecated then
    keyedAppend .binary key keyLength 7 (4 + 1 + 4 + length)
      [(4, leBytes 4 (u32 (length + 4))), (1, [subtype]), (4, leBytes 4 length), (length, binary)]
  else
    keyedAppend .binary key keyLength 6 (4 + 1 + length)
      [(4, leBytes 4 length), (1, [subtype]), (length, binary)]

def bsonAppendBool (key : Bytes) (keyLength : Int) (value : Bool) : AppendArgs :=
  keyedAppend .bool key keyLength 4 1 [(1, [if value then 1 else 0])]

def bsonAppendCode (key : Bytes) (keyLength : Int) (javascript : Bytes) : AppendArgs :=
  let length := ofInt32 (intStrlen javascript + 1)
  keyedAppend .code key keyLength 5 (4 + length) [(4, leBytes 4 length), (length, javascript)]

def bsonAppendCodeWithScope (key : Bytes) (keyLength : Int) (javascript : Bytes) :
    Option BsonRef → AppendArgs
  | none => bsonAppendCode key keyLength javascript
  | some scope =>
    let jsLength := ofInt32 (intStrlen javascript + 1)
    let codewsLength := u32 (4 + 4 + jsLength + scope.len)
    keyedAppend .codewscope key keyLength 7 (4 + 4 + jsLength + scope.len)
      [(4, leBytes 4 codewsLength), (4, leBytes 4 jsLength), (jsLength, javascript), scope.pair]

def bsonAppendDbpointer (key : Bytes) (keyLength : Int) (collection oid : Bytes) : AppendArgs :=
  let length := ofInt32 (intStrlen collection + 1)
  keyedAppend .dbpointer key keyLength 6 (4 + length + 12)
    [(4, leBytes 4 length), (length, collection), (12, oid)]

def bsonAppendDocument (key : Bytes) (keyLength : Int) (value : BsonRef) : AppendArgs :=
  keyedAppend .document key keyLength 4 value.len [value.pair]

/-- `value` by its 64 bits. -/
def bsonAppendDouble (key : Bytes) (keyLength : Int) (value : Nat) : AppendArgs :=
  keyedAppend .double key keyLength 4 8 [(8, leBytes 8 value)]

def bsonAppendInt32 (key : Bytes) (keyLength : Int) (value : Int) : AppendArgs :=
  keyedAppend .int32 key keyLength 4 4 [(4, leBytes 4 (ofInt32 value))]

def bsonAppendInt64 (key : Bytes) (keyLength : Int) (value : Int) : AppendArgs :=
  keyedAppend .int64 key keyLength 4 8 [(8, leBytes 8 (ofInt64 value))]

def bsonAppendDecimal128 (key : Bytes) (keyLength : Int) (low high : Nat) : AppendArgs :=
  keyedAppend .decimal128 key keyLength 4 16 [(16, leBytes 8 low ++ leBytes 8 high)]

def bsonAppendMaxkey (key : Bytes) (keyLength : Int) : AppendArgs :=
  keyedAppend .maxkey key keyLength 3 0 []

def bsonAppendMinkey (key : Bytes) (keyLength : Int) : AppendArgs :=
  keyedAppend .minkey key keyLength 3 0 []

def bsonAppendNull (key : Bytes) (keyLength : Int) : AppendArgs :=
  keyedAppend .null key keyLength 3 0 []

def bsonAppendOid (key : Bytes) (keyLength : Int) (value : Bytes) : AppendArgs :=
  keyedAppend .oid key keyLength 4 12 [(12, value)]

/-- `BSON_REGEX_OPTIONS_SORTED`: "ilmsux". -/
def bsonRegexOptionsSorted : Bytes := [105, 108, 109, 115, 117, 120]

def bsonAppendRegexOptionsSorted (options : Bytes) : Bytes :=
  bsonRegexOptionsSorted.filter fun c => c ∈ cText options

/-- The declared total counts `options_sorted->len` octets for the options, the
last pair hands over `options_sorted->len + 1`. -/
def bsonAppendRegex (key : Bytes) (keyLength : Int) (regex options : Option Bytes) : AppendArgs :=
  let regex := regex.getD []
  let options := options.getD []
  let regexLen := ofInt32 (intStrlen regex + 1)
  let optionsSorted := bsonAppendRegexOptionsSorted options
  keyedAppend .regex key keyLength 5 (regexLen + optionsSorted.length)
    [(regexLen, regex), (optionsSorted.length + 1, optionsSorted ++ [0])]

/-- `bson_append_utf8` and `bson_append_symbol` differ in the type octet. -/
def appendText (type : BsonType) (key : Bytes) (keyLength : Int) (value : Option Bytes)
    (length : Int) : AppendArgs :=
  match value with
  | none => bsonAppendNull key keyLength
  | some value =>
    let length := if length < 0 then intStrlen value else length
    keyedAppend type key keyLength 6 (4 + length + 1)
      [(4, leBytes 4 (ofInt32 (length + 1))), (ofInt32 length, value), (1, [0])]

def bsonAppendUtf8 (key : Bytes) (keyLength : Int) (value : Option Bytes) (length : Int) :
    AppendArgs :=
  appendText .utf8 key keyLength value length

def bsonAppendSymbol (key : Bytes) (keyLength : Int) (value : Option Bytes) (length : Int) :
    AppendArgs :=
  appendText .symbol key keyLength value length

def bsonAppendTimestamp (key : Bytes) (keyLength : Int) (timestamp increment : Nat) :
    AppendArgs :=
  keyedAppend .timestamp key keyLength 4 8 [(8, leBytes 8 (timestamp <<< 32 ||| increment))]

def bsonAppendDateTime (key : Bytes) (keyLength : Int) (value : Int) : AppendArgs :=
  keyedAppend .dateTime key keyLength 4 8 [(8, leBytes 8 (ofInt64 value))]

def bsonAppendTimeval (key : Bytes) (keyLength : Int) (tvSec tvUsec : Int) : AppendArgs :=
  let unixMsec := u64 (ofInt64 tvSec * 1000 + ofInt64 tvUsec / 1000)
  bsonAppendDateTime key keyLength (i64 unixMsec)

def bsonAppendTimeT (key : Bytes) (keyLength : Int) (value : Int) : AppendArgs :=
  bsonAppendTimeval key keyLength value 0

def bsonAppendUndefined (key : Bytes) (keyLength : Int) : AppendArgs :=
  keyedAppend .undefined key keyLength 3 0 []

/-- The value arguments of a keyed append. -/
inductive Field where
  | array (array : BsonRef)
  | binary (subtype : UInt8) (binary : Bytes) (length : Nat)
  | bool (value : Bool)
  | code (javascript : Bytes)
  | codeWithScope (javascript : Bytes) (scope : Option BsonRef)
  | dbpointer (collection oid : Bytes)
  | document (value : BsonRef)
  | double (value : Nat)
  | int32 (value : Int)
  | int64 (value : Int)
  | decimal128 (low high : Nat)
  | maxkey
  | minkey
  | null
  | oid (value : Bytes)
  | regex (regex options : Option Bytes)
  | utf8 (value : Option Bytes) (length : Int)
  | symbol (value : Option Bytes) (length : Int)
  | timestamp (timestamp increment : Nat)
  | dateTime (value : Int)
  | timeval (tvSec tvUsec : Int)
  | timeT (value : Int)
  | undefined

def Field.append (key : Bytes) (keyLength : Int) : Field → AppendArgs
  | array a => bsonAppendArray key keyLength a
  | binary s b l => bsonAppendBinary key keyLength s b l
  | bool v => bsonAppendBool key keyLength v
  | code j => bsonAppendCode key keyLength j
  | codeWithScope j s => bsonAppendCodeWithScope key keyLength j s
  | dbpointer c o => bsonAppendDbpointer key keyLength c o
  | document v => bsonAppendDocument key keyLength v
  | double v => bsonAppendDouble key keyLength v
  | int32 v => bsonAppendInt32 key keyLength v
  | int64 v => bsonAppendInt64 key keyLength v
  | decimal128 l h => bsonAppendDecimal128 key keyLength l h
  | maxkey => bsonAppendMaxkey key keyLength
  | minkey => bsonAppendMinkey key keyLength
  | null => bsonAppendNull key keyLength
  | oid v => bsonAppendOid key keyLength v
  | regex r o => bsonAppendRegex key keyLength r o
  | utf8 v l => bsonAppendUtf8 key keyLength v l
  | symbol v l => bsonAppendSymbol key keyLength v l
  | timestamp t i => bsonAppendTimestamp key keyLength t i
  | dateTime v => bsonAppendDateTime key keyLength v
  | timeval s u => bsonAppendTimeval key keyLength s u
  | timeT v => bsonAppendTimeT key keyLength v
  | undefined => bsonAppendUndefined key keyLength

/-- `bson_value_t`; the lengths no append reads are left out. -/
inductive BsonValue where
  | double (v : Nat)
  | utf8 (str : Option Bytes) (len : Nat)
  | document (data : Mem) (dataLen : Nat)
  | array (data : Mem) (dataLen : Nat)
  | binary (data : Bytes) (dataLen : Nat) (subtype : UInt8)
  | undefined
  | oid (v : Bytes)
  | bool (v : Bool)
  | dateTime (v : Int)
  | null
  | regex (regex options : Option Bytes)
  | dbpointer (collection oid : Bytes)
  | code (code : Bytes)
  | symbol (symbol : Option Bytes) (len : Nat)
  | codewscope (code : Bytes) (scopeData : Mem) (scopeLen : Nat)
  | int32 (v : Int)
  | timestamp (timestamp increment : Nat)
  | int64 (v : Int)
  | decimal128 (low high : Nat)
  | maxkey
  | minkey
  | eod

/-- The append `bson_append_value` dispatches to; `none` where it returns false. -/
def BsonValue.field : BsonValue → Option Field
  | double v => some (.double v)
  | utf8 str len => some (.utf8 str (i32 len))
  | document data len => (bsonInitStatic data len).map .document
  | array data len => (bsonInitStatic data len).map .array
  | binary data len subtype => some (.binary subtype data len)
  | undefined => some .undefined
  | oid v => some (.oid v)
  | bool v => some (.bool v)
  | dateTime v => some (.dateTime v)
  | null => some .null
  | regex r o => some (.regex r o)
  | dbpointer c o => some (.dbpointer c o)
  | code c => some (.code c)
  | symbol s len => some (.symbol s (i32 len))
  | codewscope c data len => (bsonInitStatic data len).map fun b => .codeWithScope c (some b)
  | int32 v => some (.int32 v)
  | timestamp t i => some (.timestamp t i)
  | int64 v => some (.int64 v)
  | decimal128 l h => some (.decimal128 l h)
  | maxkey => some .maxkey
  | minkey => some .minkey
  | eod => none

/-- What a C string pointer into the raw buffer addresses. -/
def BsonIter.pointer (it : BsonIter) (o : Nat) : Bytes := it.mem.slice o (it.len - o)

/-- The append `bson_append_iter` dispatches to. -/
def iterField (it : BsonIter) : Option Field :=
  match iterType it with
  | none | some .eod => none
  | some .double => some (.double (bsonIterDouble it))
  | some .utf8 => (bsonIterUtf8 it).map fun s => .utf8 (some (it.pointer s.off)) (i32 s.len)
  | some .document =>
    (bsonIterDocument it).bind fun s =>
      (bsonInitStatic (it.mem.shift s.off) s.len).map .document
  | some .array =>
    (bsonIterArray it).bind fun s => (bsonInitStatic (it.mem.shift s.off) s.len).map .array
  | some .binary =>
    (bsonIterBinary it).map fun (subtype, s) => .binary subtype (it.pointer s.off) s.len
  | some .undefined => some .undefined
  | some .oid => (bsonIterOid it).map fun o => .oid (it.pointer o)
  | some .bool => some (.bool (bsonIterBool it))
  | some .dateTime => some (.dateTime (bsonIterDateTime it))
  | some .null => some .null
  | some .regex =>
    (bsonIterRegex it).map fun (r, o) => .regex (some (it.pointer r)) (some (it.pointer o))
  | some .dbpointer =>
    (bsonIterDbpointer it).map fun (c, o) => .dbpointer (it.pointer c.off) (it.pointer o)
  | some .code => (bsonIterCode it).map fun s => .code (it.pointer s.off)
  | some .symbol => (bsonIterSymbol it).map fun s => .symbol (some (it.pointer s.off)) (i32 s.len)
  | some .codewscope =>
    (bsonIterCodewscope it).bind fun (c, s) =>
      (bsonInitStatic (it.mem.shift s.off) s.len).map fun b =>
        .codeWithScope (it.pointer c.off) (some b)
  | some .int32 => some (.int32 (bsonIterInt32 it))
  | some .timestamp =>
    let (t, i) := bsonIterTimestamp it
    some (.timestamp t i)
  | some .int64 => some (.int64 (bsonIterInt64 it))
  | some .decimal128 => (bsonIterDecimal128 it).map fun (l, h) => .decimal128 l h
  | some .maxkey => some .maxkey
  | some .minkey => some .minkey

/-- A call of the append API. -/
inductive AppendCall where
  | field (key : Bytes) (keyLength : Int) (f : Field)
  | value (key : Bytes) (keyLength : Int) (v : BsonValue)
  | iter (key : Option Bytes) (keyLength : Int) (it : BsonIter)
  | concat (src : BsonRef)

/-- The function call `bson_append_value` and `bson_append_iter` come down to. -/
def AppendCall.keyed : AppendCall → Option (Bytes × Int × Field)
  | field key keyLength f => some (key, keyLength, f)
  | value key keyLength v => v.field.map fun f => (key, keyLength, f)
  | iter (some key) keyLength it => (iterField it).map fun f => (key, keyLength, f)
  | iter none _ it => (iterField it).map fun f => (it.pointer it.key, -1, f)
  | concat _ => none

/-- `bson_empty (b)` -/
def bsonEmpty (b : BsonRef) : Bool := b.len == 5 || b.data 4 == 0

/-- The `_bson_append` call of `bson_concat`. -/
def bsonConcat (src : BsonRef) : AppendArgs :=
  { nPairs := 1
    nBytes := u32sub src.len 5
    pairs := [(u32sub src.len 5, src.data.slice 4 (u32sub src.len 5))] }

/-- What a call does: one `_bson_append`, or a return without it. -/
inductive Request where
  | append (args : AppendArgs)
  | done (ret : Bool)

def AppendCall.request : AppendCall → Request
  | concat src => if bsonEmpty src then .done true else .append (bsonConcat src)
  | call =>
    match call.keyed with
    | some (key, keyLength, f) => .append (f.append key keyLength)
    | none => .done false

/-- The `_bson_append` call of `_bson_append_bson_begin`: the empty document. -/
def bsonAppendBsonBegin (childType : BsonType) (key : Bytes) (keyLength : Int) : AppendArgs :=
  keyedAppend childType key keyLength 4 5 [(5, [5, 0, 0, 0, 0])]

end LibBson.Source
