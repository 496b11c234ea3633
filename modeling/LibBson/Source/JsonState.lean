import LibBson.Library.Ascii
import LibBson.Library.PowerOfTwo
import LibBson.Source.AppendArgs

/-!
# The state of the JSON reader's callbacks

Source: bson-json.c:51-268 (enumerations, buffers, frames, `bson_type_data`,
`code_data`), 383-481 (errors, buffers, type names). `depth` is `n + 1`, the
number of frames on the stack; the slots above it keep what a popped frame left
in them, as the C array does. The union `bson_json_bson_data_t` is its memory:
each member is a range of octets, so that one member reads what another wrote.
-/

set_option autoImplicit false

namespace LibBson.Source
open LibBson.Library

/-- `STACK_MAX` -/
def stackMax : Nat := 100

/-- `bson_json_read_state_t` -/
inductive ReadState where
  | regular | done | error | inStartMap | inBsonType | inBsonTypeDateNumberlong
  | inBsonTypeDateEndmap | inBsonTypeTimestampStartmap | inBsonTypeTimestampValues
  | inBsonTypeTimestampEndmap | inBsonTypeRegexStartmap | inBsonTypeRegexValues
  | inBsonTypeRegexEndmap | inBsonTypeBinaryValues | inBsonTypeBinaryEndmap
  | inBsonTypeScopeStartmap | inBsonTypeDbpointerStartmap | inScope | inDbpointer
  deriving DecidableEq, Repr

/-- `read_state_names` -/
def ReadState.name : ReadState → Bytes
  | regular => ascii "REGULAR"
  | done => ascii "DONE"
  | error => ascii "ERROR"
  | inStartMap => ascii "IN_START_MAP"
  | inBsonType => ascii "IN_BSON_TYPE"
  | inBsonTypeDateNumberlong => ascii "IN_BSON_TYPE_DATE_NUMBERLONG"
  | inBsonTypeDateEndmap => ascii "IN_BSON_TYPE_DATE_ENDMAP"
  | inBsonTypeTimestampStartmap => ascii "IN_BSON_TYPE_TIMESTAMP_STARTMAP"
  | inBsonTypeTimestampValues => ascii "IN_BSON_TYPE_TIMESTAMP_VALUES"
  | inBsonTypeTimestampEndmap => ascii "IN_BSON_TYPE_TIMESTAMP_ENDMAP"
  | inBsonTypeRegexStartmap => ascii "IN_BSON_TYPE_REGEX_STARTMAP"
  | inBsonTypeRegexValues => ascii "IN_BSON_TYPE_REGEX_VALUES"
  | inBsonTypeRegexEndmap => ascii "IN_BSON_TYPE_REGEX_ENDMAP"
  | inBsonTypeBinaryValues => ascii "IN_BSON_TYPE_BINARY_VALUES"
  | inBsonTypeBinaryEndmap => ascii "IN_BSON_TYPE_BINARY_ENDMAP"
  | inBsonTypeScopeStartmap => ascii "IN_BSON_TYPE_SCOPE_STARTMAP"
  | inBsonTypeDbpointerStartmap => ascii "IN_BSON_TYPE_DBPOINTER_STARTMAP"
  | inScope => ascii "IN_SCOPE"
  | inDbpointer => ascii "IN_DBPOINTER"

/-- `bson_json_read_bson_state_t`: what a wrapper is "looking for". -/
inductive BsonState where
  | regex | options | regularExpressionPattern | regularExpressionOptions | code | scope | oid
  | binary | type | date | timestampT | timestampI | undefined | minkey | maxkey | int32 | int64
  | double | decimal128 | dbpointer | symbol | dbref
  deriving DecidableEq, Repr

/-- `bson_state_names` -/
def BsonState.name : BsonState → Bytes
  | regex => ascii "REGEX"
  | options => ascii "OPTIONS"
  | regularExpressionPattern => ascii "REGULAR_EXPRESSION_PATTERN"
  | regularExpressionOptions => ascii "REGULAR_EXPRESSION_OPTIONS"
  | code => ascii "CODE"
  | scope => ascii "SCOPE"
  | oid => ascii "OID"
  | binary => ascii "BINARY"
  | type => ascii "TYPE"
  | date => ascii "DATE"
  | timestampT => ascii "TIMESTAMP_T"
  | timestampI => ascii "TIMESTAMP_I"
  | undefined => ascii "UNDEFINED"
  | minkey => ascii "MINKEY"
  | maxkey => ascii "MAXKEY"
  | int32 => ascii "INT32"
  | int64 => ascii "INT64"
  | double => ascii "DOUBLE"
  | decimal128 => ascii "DECIMAL128"
  | dbpointer => ascii "DBPOINTER"
  | symbol => ascii "SYMBOL"
  | dbref => ascii "DBREF"

/-- `_bson_json_type_name` -/
def bsonJsonTypeName : BsonType → Bytes
  | .eod => ascii "end of document"
  | .double => ascii "double"
  | .utf8 => ascii "utf-8"
  | .document => ascii "document"
  | .array => ascii "array"
  | .binary => ascii "binary"
  | .undefined => ascii "undefined"
  | .oid => ascii "objectid"
  | .bool => ascii "bool"
  | .dateTime => ascii "datetime"
  | .null => ascii "null"
  | .regex => ascii "regex"
  | .dbpointer => ascii "dbpointer"
  | .code => ascii "code"
  | .symbol => ascii "symbol"
  | .codewscope => ascii "code with scope"
  | .int32 => ascii "int32"
  | .timestamp => ascii "timestamp"
  | .int64 => ascii "int64"
  | .decimal128 => ascii "decimal128"
  | .maxkey => ascii "maxkey"
  | .minkey => ascii "minkey"

/-- `bson_json_buf_t`; `buf` is NULL exactly when `n_bytes` is zero. -/
structure JsonBuf where
  buf : Mem
  nBytes : Nat
  len : Nat

namespace JsonBuf

/-- A buffer of a zeroed reader. -/
def empty : JsonBuf := { buf := fun _ => 0, nBytes := 0, len := 0 }

/-- The octets up to `len`, behind which a NUL stands. -/
def text (b : JsonBuf) : Bytes := b.buf.slice 0 b.len

/-- `b.buf`, as a C string argument. -/
def pointer (b : JsonBuf) : Option Bytes := if b.nBytes = 0 then none else some b.text

section Store

-- what `malloc` and `realloc` leave in the part of a block that is not copied
variable (fresh : Nat → Mem)

/-- `_bson_json_buf_ensure` -/
def ensure (b : JsonBuf) (len : Nat) : JsonBuf :=
  if b.nBytes < len then
    { b with buf := fresh (nextPowerOfTwo len), nBytes := nextPowerOfTwo len }
  else b

/-- `_bson_json_buf_set` -/
def set (b : JsonBuf) (src : Bytes) : JsonBuf :=
  let b := b.ensure fresh (u64 (src.length + 1))
  { b with buf := b.buf.write 0 (src ++ [0]), len := src.length }

/-- `_bson_json_buf_append` -/
def append (b : JsonBuf) (src : Bytes) : JsonBuf :=
  let lenWithNull := u64 (src.length + 1)
  let b :=
    if b.len = 0 then b.ensure fresh lenWithNull
    else if b.nBytes < u64 (b.len + lenWithNull) then
      let nBytes := nextPowerOfTwo (u64 (b.len + lenWithNull))
      { b with buf := b.buf.copyPrefix (fresh nBytes) b.nBytes, nBytes := nBytes }
    else b
  { b with buf := b.buf.write b.len (src ++ [0]), len := u64 (b.len + src.length) }

end Store

end JsonBuf

/-- The buffers of a reader. None of them is freed before the reader is, and each block of one is
larger than the block before, so that its size says which one it is. -/
inductive JsonBlock where
  | keyBuf | bsonTypeBuf0 | bsonTypeBuf1 | bsonTypeBuf2 | codeKeyBuf | codeBuf | dbpointerKey
  | tokAccumulator
  deriving DecidableEq

/-- What `malloc` and `realloc` leave in the part of a block that is not copied: for a buffer of
the reader and a size, and for a call on a document, by its number, and a size. -/
structure JsonHeap where
  buffer : JsonBlock → Nat → Mem
  document : Nat → Nat → Mem

/-- An allocator that fills its blocks with one octet. -/
def JsonHeap.filled (b : UInt8) : JsonHeap := { buffer := fun _ _ _ => b, document := fun _ _ _ => b }

/-- `bson_json_frame_type_t` -/
inductive JsonFrameType where
  | array | doc | scope | dbpointer
  deriving DecidableEq, Repr

/-- `bson_json_stack_frame_t` without its `bson_t`. -/
structure JsonStackFrame where
  i : Nat
  type : JsonFrameType
  hasRef : Bool
  hasId : Bool
  deriving DecidableEq

/-! ## `bson_json_bson_data_t` -/

abbrev BsonJsonBsonData := Mem

namespace BsonJsonBsonData

/-- A `bool` member. -/
def flag (d : BsonJsonBsonData) (offset : Nat) : Bool := d offset != 0

def setFlag (d : BsonJsonBsonData) (offset : Nat) : BsonJsonBsonData := d.write offset [1]

-- offsets of the members
def regexHasPattern : Nat := 0
def regexHasOptions : Nat := 1
def regexIsLegacy : Nat := 2
def oidHasOid : Nat := 0
def oidOid : Nat := 1
def binaryHasBinary : Nat := 0
def binaryHasSubtype : Nat := 1
def binaryType : Nat := 4
def binaryIsLegacy : Nat := 8
def dateHasDate : Nat := 0
def dateDate : Nat := 8
def timestampHasT : Nat := 0
def timestampHasI : Nat := 1
def timestampT : Nat := 4
def timestampI : Nat := 8
def undefinedHasUndefined : Nat := 0
def minkeyHasMinkey : Nat := 0
def maxkeyHasMaxkey : Nat := 0
def value : Nat := 0

end BsonJsonBsonData

/-- `bson_json_code_t` -/
structure JsonCode where
  hasCode : Bool
  hasScope : Bool
  inScope : Bool
  keyBuf : JsonBuf
  codeBuf : JsonBuf

/-- What `bson->key` points to: a constant of `gUint32Strs` or `key_buf.buf`. -/
inductive JsonKey where
  | constant (text : Bytes)
  | keyBuf

inductive JsonErrorCode where
  | readCorruptJs | readInvalidParam | readCbFailure
  deriving DecidableEq, Repr

/-- `bson_error_t` in the domain `BSON_ERROR_JSON`. -/
structure JsonError where
  code : JsonErrorCode
  message : Bytes
  deriving DecidableEq

/-- `bson_vsnprintf` into `error->message`. -/
def formatted (parts : List Bytes) : Bytes := parts.flatten.take 503

/-- `bson_json_reader_bson_t` without the documents, and `reader->error`. -/
structure JsonReaderBson where
  depth : Nat
  stack : Nat → JsonStackFrame
  key : Option JsonKey
  keyBuf : JsonBuf
  readState : ReadState
  bsonState : BsonState
  bsonType : BsonType
  bsonTypeBuf0 : JsonBuf
  bsonTypeBuf1 : JsonBuf
  bsonTypeBuf2 : JsonBuf
  bsonTypeData : BsonJsonBsonData
  codeData : JsonCode
  dbpointerKey : JsonBuf
  error : Option JsonError

namespace JsonReaderBson

/-- The zeroed state of `bson_json_reader_new`. -/
def zeroed : JsonReaderBson :=
  { depth := 0
    stack := fun _ => { i := 0, type := .array, hasRef := false, hasId := false }
    key := none
    keyBuf := .empty
    readState := .regular
    bsonState := .regex
    bsonType := .eod
    bsonTypeBuf0 := .empty
    bsonTypeBuf1 := .empty
    bsonTypeBuf2 := .empty
    bsonTypeData := fun _ => 0
    codeData :=
      { hasCode := false, hasScope := false, inScope := false, keyBuf := .empty, codeBuf := .empty }
    dbpointerKey := .empty
    error := none }

/-- `stack[n]` -/
def top (s : JsonReaderBson) : JsonStackFrame := s.stack (s.depth - 1)

def setTop (s : JsonReaderBson) (f : JsonStackFrame) : JsonReaderBson :=
  { s with stack := fun j => if j = s.depth - 1 then f else s.stack j }

/-- The octets `bson->key` addresses, `none` for NULL. -/
def keyPointer (s : JsonReaderBson) : Option Bytes :=
  match s.key with
  | none => none
  | some (.constant text) => some text
  | some .keyBuf => some s.keyBuf.text

/-- `(int) bson->key_buf.len` -/
def keyLength (s : JsonReaderBson) : Int := i32 s.keyBuf.len

/-- `_bson_json_read_set_error` -/
def setError (s : JsonReaderBson) (message : List Bytes) : JsonReaderBson :=
  { s with
    error := some { code := .readInvalidParam, message := formatted message }
    readState := .error }

/-- `_bson_json_read_corrupt` -/
def corrupt (s : JsonReaderBson) (message : List Bytes) : JsonReaderBson :=
  { s with
    error := some { code := .readCorruptJs, message := formatted message }
    readState := .error }

end JsonReaderBson

end LibBson.Source
