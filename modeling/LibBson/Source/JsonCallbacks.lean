import LibBson.Source.JsonText
import LibBson.Source.Utf8

/-!
# The callbacks of the JSON reader

Source: bson-json.c:278-378 (stack macros, preambles, `HANDLE_OPTION`), 544-1780
(`_bson_json_read_*`), 1850-1940 (`_push_callback`, `_pop_callback`). A callback
maps the state to the next one and to the calls it makes on documents, in order;
which documents these calls go to is in `JsonDocs`. A callback that sets
`reader->error` has called `jsonsl_stop`.
-/

set_option autoImplicit false

namespace LibBson.Source
open LibBson.Library

/-- What jsonsl delivers: the push of an object or a list, the pop of an object, a
list, a hash key, a string, or a special with the flags the callback tests, its
value `nelem` and its text. A key and a string come unescaped. -/
inductive JsonEvent where
  | startMap
  | endMap
  | startArray
  | endArray
  | key (val : Bytes)
  | string (val : Bytes)
  | special (numNoInt numeric signed boolean null : Bool) (nelem : Nat) (text : Bytes)
  deriving DecidableEq

/-- A call on a document. `slot` is the index in the stack of the frame whose
`bson_t` is opened, left or read. `failure` is the message set when the call
returns false. -/
inductive JsonDocOp where
  /-- `bson_append_*` to `STACK_BSON_CHILD`. -/
  | append (key : Option Bytes) (keyLength : Int) (f : Field) (failure : Option (List Bytes))
  /-- `bson_append_document_begin` or `bson_append_array_begin`. -/
  | appendBegin (childType : BsonType) (slot : Nat) (key : Option Bytes) (keyLength : Int)
  /-- `bson_append_document_end` or `bson_append_array_end`. -/
  | appendEnd
  /-- `bson_init (STACK_BSON_CHILD)` of a `$scope` or `$dbPointer` frame. -/
  | init (slot : Nat)
  /-- The pop of such a frame: its document stays in the slot. -/
  | leave (slot : Nat)
  /-- `bson_append_code_with_scope`, with the document of `slot` as the scope, which is
  destroyed then, or without a scope. -/
  | appendCode (key : Option Bytes) (keyLength : Int) (code : Option Bytes) (scope : Option Nat)
  /-- The loop over the document of `slot` and `bson_append_dbpointer`. -/
  | appendDbpointer (slot : Nat) (key : Option Bytes) (keyLength : Int)

/-- How a callback ends: a `BSON_ASSERT` of bson-json.c fails, a `bson_t` in front of
the stack is used, or it returns. -/
inductive JsonReaction where
  | assertFailed
  | wild
  | done (s : JsonReaderBson) (ops : List JsonDocOp)

/-- The calls `ops` in front of those of `r`. -/
def JsonReaction.after (ops : List JsonDocOp) : JsonReaction → JsonReaction
  | done s more => .done s (ops ++ more)
  | stop => stop

namespace JsonReaderBson

/-- Return without a call on a document. -/
abbrev quiet (s : JsonReaderBson) : JsonReaction := .done s []

/-- `bson_append_*` under the current key; `n` is at least 0. -/
def append (s : JsonReaderBson) (f : Field) : JsonReaction :=
  if s.depth = 0 then .wild else .done s [.append s.keyPointer s.keyLength f none]

/-- The same, with an error if it fails. -/
def appendOr (s : JsonReaderBson) (f : Field) (failure : List Bytes) : JsonReaction :=
  if s.depth = 0 then .wild else .done s [.append s.keyPointer s.keyLength f (some failure)]

/-! ## The stack -/

/-- `STACK_PUSH_*`: the callback returns when the stack is full; the statement is
run unless the frame is the first. -/
def stackPush (s : JsonReaderBson) (frame : JsonStackFrame → JsonStackFrame)
    (statement : JsonDocOp) (next : JsonReaderBson → List JsonDocOp → JsonReaction) :
    JsonReaction :=
  if s.depth ≥ stackMax then s.quiet
  else
    let s := { s with depth := s.depth + 1 }
    let s := s.setTop (frame s.top)
    next s (if s.depth = 1 then [] else [statement])

/-- `STACK_PUSH_ARRAY (bson_append_array_begin (...))` -/
def pushArray (s : JsonReaderBson) (next : JsonReaderBson → List JsonDocOp → JsonReaction) :
    JsonReaction :=
  s.stackPush (fun f => { f with i := 0, type := .array })
    (.appendBegin .array s.depth s.keyPointer s.keyLength) next

/-- `STACK_PUSH_DOC (bson_append_document_begin (...))` -/
def pushDoc (s : JsonReaderBson) (next : JsonReaderBson → List JsonDocOp → JsonReaction) :
    JsonReaction :=
  s.stackPush (fun f => { f with type := .doc, hasRef := false, hasId := false })
    (.appendBegin .document s.depth s.keyPointer s.keyLength) next

/-- `STACK_PUSH_SCOPE (bson_init (STACK_BSON_CHILD))`, with `in_scope` set on the way. -/
def pushScope (s : JsonReaderBson) (next : JsonReaderBson → List JsonDocOp → JsonReaction) :
    JsonReaction :=
  s.stackPush (fun f => { f with type := .scope }) (.init s.depth) fun s ops =>
    next { s with codeData := { s.codeData with inScope := true } } ops

/-- `STACK_PUSH_DBPOINTER (bson_init (STACK_BSON_CHILD))` -/
def pushDbpointer (s : JsonReaderBson) (next : JsonReaderBson → List JsonDocOp → JsonReaction) :
    JsonReaction :=
  s.stackPush (fun f => { f with type := .dbpointer }) (.init s.depth) next

/-- `STACK_POP_DOC`, `STACK_POP_ARRAY`: `allowed` is the frame type they pop; the
callback returns at any other. -/
def stackPop (s : JsonReaderBson) (allowed : JsonFrameType → Bool) (statement : JsonDocOp)
    (next : JsonReaderBson → List JsonDocOp → JsonReaction) : JsonReaction :=
  if allowed s.top.type = false ∨ s.depth = 0 then s.quiet
  else next { s with depth := s.depth - 1 } (if s.depth = 1 then [] else [statement])

/-- `if (bson->n == -1) bson->read_state = BSON_JSON_DONE;` -/
def finishIfEmpty (s : JsonReaderBson) : JsonReaderBson :=
  if s.depth = 0 then { s with readState := .done } else s

section Callbacks

variable (fresh : JsonBlock → Nat → Mem)

/-- `_bson_json_save_map_key` -/
def saveMapKey (s : JsonReaderBson) (val : Bytes) : JsonReaderBson :=
  { s with keyBuf := s.keyBuf.set (fresh .keyBuf) val, key := some .keyBuf }

/-- `_bson_json_read_fixup_key` with `bson_uint32_to_string`: a number below 1000 is a
constant, and `key_buf.buf` is not written. -/
def readFixupKey (s : JsonReaderBson) : JsonReaderBson :=
  if s.depth > 0 ∧ s.top.type = .array ∧ s.readState = .regular then
    let keyBuf := s.keyBuf.ensure (fresh .keyBuf) 12
    let value := u32 s.top.i
    let next := s.setTop { s.top with i := s.top.i + 1 }
    if value < 1000 then
      { next with
        keyBuf := { keyBuf with len := if value < 10 then 1 else if value < 100 then 2 else 3 }
        key := some (.constant (decimal value)) }
    else
      { next with
        keyBuf :=
          { keyBuf with
            buf := keyBuf.buf.write 0 (decimal value ++ [0])
            len := (decimal value).length }
        key := some .keyBuf }
  else s

/-- `BASIC_CB_BAIL_IF_NOT_NORMAL (type)`; `next` is what follows it. -/
def bailIfNotNormal (s : JsonReaderBson) (type : Bytes) (next : JsonReaction) : JsonReaction :=
  if s.readState ≠ .regular then
    (s.setError [ascii "Invalid read of ", type, ascii " in state ", s.readState.name]).quiet
  else if s.key.isNone then
    (s.setError
      [ascii "Invalid read of ", type, ascii " without key in state ", s.readState.name]).quiet
  else next

/-- `_bson_json_read_null` -/
def readNull (s : JsonReaderBson) : JsonReaction :=
  let s := s.readFixupKey fresh
  s.bailIfNotNormal (ascii "null") (s.append .null)

/-- `_bson_json_read_boolean` -/
def readBoolean (s : JsonReaderBson) (val : Bool) : JsonReaction :=
  let s := s.readFixupKey fresh
  if s.readState = .inBsonType ∧ s.bsonState = .undefined then
    quiet { s with bsonTypeData := s.bsonTypeData.setFlag BsonJsonBsonData.undefinedHasUndefined }
  else s.bailIfNotNormal (ascii "boolean") (s.append (.bool val))

/-- The value of a `$minKey` or `$maxKey`; `offset` is its flag. -/
def readMinMaxKey (s : JsonReaderBson) (val : Nat) (sign : Int) (offset : Nat) : JsonReaction :=
  if sign = -1 then
    (s.setError [ascii "Invalid MinKey value: \"-", decimal val, ascii "\""]).quiet
  else
    -- an error does not keep the flag from being set
    let s :=
      if val ≠ 1 then s.setError [ascii "Invalid MinKey value: \"", decimal val, ascii "\""] else s
    quiet { s with bsonTypeData := s.bsonTypeData.setFlag offset }

/-- The value of `t` or `i` in a `$timestamp`. -/
def readTimestampPart (s : JsonReaderBson) (val : Nat) (sign : Int) (has part : Nat) :
    JsonReaction :=
  if sign = -1 then
    (s.setError [ascii "Invalid timestamp value: \"-", decimal val, ascii "\""]).quiet
  else
    quiet { s with bsonTypeData := (s.bsonTypeData.setFlag has).write part (leBytes 4 (u32 val)) }

/-- The `switch (bs)` of `_bson_json_read_integer`. -/
def readIntegerInType (s : JsonReaderBson) (val : Nat) (sign : Int) : JsonReaction :=
  match s.bsonState with
  | .date =>
    quiet { s with
      bsonTypeData := (s.bsonTypeData.setFlag BsonJsonBsonData.dateHasDate).write
        BsonJsonBsonData.dateDate (leBytes 8 (ofInt64 (sign * val))) }
  | .timestampT =>
    s.readTimestampPart val sign BsonJsonBsonData.timestampHasT BsonJsonBsonData.timestampT
  | .timestampI =>
    s.readTimestampPart val sign BsonJsonBsonData.timestampHasI BsonJsonBsonData.timestampI
  | .minkey => s.readMinMaxKey val sign BsonJsonBsonData.minkeyHasMinkey
  | .maxkey => s.readMinMaxKey val sign BsonJsonBsonData.maxkeyHasMaxkey
  | .int32 | .int64 =>
    (s.setError [ascii "Invalid state for integer read: ", s.bsonState.name,
      ascii ", expected number as quoted string like \"123\""]).quiet
  | _ =>
    (s.setError [ascii "Unexpected integer ", if sign = -1 then ascii "-" else [], decimal val,
      ascii " in type \"", bsonJsonTypeName s.bsonType, ascii "\""]).quiet

/-- `_bson_json_read_integer`; `sign` is -1 or 1. -/
def readInteger (s : JsonReaderBson) (val : Nat) (sign : Int) : JsonReaction :=
  let s := s.readFixupKey fresh
  if sign = 1 ∧ val > 9223372036854775807 then
    (s.setError [ascii "Number \"", decimal val, ascii "\" is out of range"]).quiet
  else if sign = -1 ∧ val > 9223372036854775808 then
    (s.setError [ascii "Number \"-", decimal val, ascii "\" is out of range"]).quiet
  else if s.readState = .regular then
    s.bailIfNotNormal (ascii "integer") <|
      if val ≤ 2147483647 ∨ (sign = -1 ∧ val ≤ 2147483648) then
        s.append (.int32 (i32 (ofInt64 (val * sign))))
      else if sign = -1 then s.append (.int64 (i64 (ofInt64 (-val))))
      else s.append (.int64 (i64 val))
  else if s.readState = .inBsonType ∨ s.readState = .inBsonTypeTimestampValues then
    s.readIntegerInType val sign
  else
    (s.setError [ascii "Unexpected integer ", if sign = -1 then ascii "-" else [], decimal val,
      ascii " in state \"", s.readState.name, ascii "\""]).quiet

variable (dec : JsonDecoders)

/-- `_bson_json_parse_double`: the bits, and the error that makes it return false. -/
def parseDouble (val : Bytes) : Nat × Option (List Bytes) :=
  let (d, overflow) := dec.strtod (cText val)
  if overflow ∧ ¬ strncasecmpEq val (ascii "infinity") val.length ∧
      ¬ strncasecmpEq val (ascii "-infinity") val.length then
    (d, some [ascii "Number \"", cText val, ascii "\" is out of range"])
  else (d, none)

/-- `_bson_json_read_double` -/
def readDouble (s : JsonReaderBson) (val : Nat) : JsonReaction :=
  let s := s.readFixupKey fresh
  s.bailIfNotNormal (ascii "double") (s.append (.double val))

/-- `_bson_json_read_int64_or_set_error` behind the fixup of the key. -/
def readInt64 (val : Bytes) : Except (List Bytes) Int :=
  let (v64, endptr, erange) := dec.asciiStrtoll (cText val)
  if (v64 = -9223372036854775808 ∨ v64 = 9223372036854775807) ∧ erange then
    .error [ascii "Number \"", cText val, ascii "\" is out of range"]
  else if endptr ≠ val.length then
    .error [ascii "Number \"", cText val, ascii "\" is invalid"]
  else .ok v64

/-- `_bson_json_parse_binary_elem` -/
def parseBinaryElem (s : JsonReaderBson) (val : Bytes) : JsonReaction :=
  let s := s.readFixupKey fresh
  match s.bsonState with
  | .binary =>
    let s : JsonReaderBson :=
      { s with bsonTypeData := s.bsonTypeData.setFlag BsonJsonBsonData.binaryHasBinary }
    match b64Pton dec.b64rmapBefore val with
    | none =>
      let s := s.setError [ascii "Invalid input string \"", cText val,
        ascii "\", looking for base64-encoded binary"]
      -- `(size_t) binary_len` of -1
      quiet { s with bsonTypeBuf0 := { s.bsonTypeBuf0 with len := u64sub 0 1 } }
    | some binary =>
      let buf := s.bsonTypeBuf0.ensure (fresh .bsonTypeBuf0) (binary.length + 1)
      quiet { s with
        bsonTypeBuf0 := { buf with buf := buf.buf.write 0 binary, len := binary.length } }
  | .type =>
    let s : JsonReaderBson :=
      { s with bsonTypeData := s.bsonTypeData.setFlag BsonJsonBsonData.binaryHasSubtype }
    match dec.sscanfHex (cText val) with
    | some n =>
      quiet { s with
        bsonTypeData := s.bsonTypeData.write BsonJsonBsonData.binaryType (leBytes 4 n) }
    | none =>
      if s.bsonTypeData.flag BsonJsonBsonData.binaryIsLegacy = false ∨
          s.bsonTypeData.flag BsonJsonBsonData.binaryHasBinary = true then
        (s.setError [ascii "Invalid input string \"", cText val,
          ascii "\", looking for binary subtype"]).quiet
      else
        -- actually a query operator: {x: {$type: "array"}}
        pushDoc { s with readState := .regular } fun s ops =>
          .done s (ops ++ [.append (some (ascii "$type")) 5 (.utf8 (some val) (i32 val.length)) none])
  | _ => s.quiet

/-- The label `BAD_PARSE`. -/
def badParse (s : JsonReaderBson) (val : Bytes) (bs : BsonState) : JsonReaction :=
  (s.setError [ascii "Invalid input string \"", cText val, ascii "\", looking for ", bs.name]).quiet

/-- The `switch (bs)` of `_bson_json_read_string`. -/
def readStringInType (s : JsonReaderBson) (val : Bytes) : JsonReaction :=
  match s.bsonState with
  | .regex | .regularExpressionPattern =>
    let data :=
      if s.bsonState = .regex then s.bsonTypeData.setFlag BsonJsonBsonData.regexIsLegacy
      else s.bsonTypeData
    quiet { s with
      bsonTypeData := data.setFlag BsonJsonBsonData.regexHasPattern
      bsonTypeBuf0 := s.bsonTypeBuf0.set (fresh .bsonTypeBuf0) val }
  | .options | .regularExpressionOptions =>
    let data :=
      if s.bsonState = .options then s.bsonTypeData.setFlag BsonJsonBsonData.regexIsLegacy
      else s.bsonTypeData
    quiet { s with
      bsonTypeData := data.setFlag BsonJsonBsonData.regexHasOptions
      bsonTypeBuf1 := s.bsonTypeBuf1.set (fresh .bsonTypeBuf1) val }
  | .oid =>
    if val.length ≠ 24 then s.badParse val .oid
    else
      quiet { s with
        bsonTypeData := (s.bsonTypeData.setFlag BsonJsonBsonData.oidHasOid).write
          BsonJsonBsonData.oidOid (bsonOidInitFromString val) }
  | .binary | .type =>
    parseBinaryElem fresh dec
      { s with bsonTypeData := s.bsonTypeData.setFlag BsonJsonBsonData.binaryIsLegacy } val
  | .int32 =>
    match readInt64 dec val with
    | .error message => (s.setError message).quiet
    | .ok v64 =>
      if v64 < -2147483648 ∨ v64 > 2147483647 then s.badParse val .int32
      else if s.readState = .inBsonType then
        quiet { s with
          bsonTypeData := s.bsonTypeData.write BsonJsonBsonData.value (leBytes 4 (ofInt32 v64)) }
      else s.badParse val .int32
  | .int64 =>
    match readInt64 dec val with
    | .error message => (s.setError message).quiet
    | .ok v64 =>
      if s.readState = .inBsonType then
        quiet { s with
          bsonTypeData := s.bsonTypeData.write BsonJsonBsonData.value (leBytes 8 (ofInt64 v64)) }
      else if s.readState = .inBsonTypeDateNumberlong then
        quiet { s with
          bsonTypeData := (s.bsonTypeData.setFlag BsonJsonBsonData.dateHasDate).write
            BsonJsonBsonData.dateDate (leBytes 8 (ofInt64 v64)) }
      else s.badParse val .int64
  | .double =>
    let (d, message) := parseDouble dec val
    let s :=
      match message with
      | some message => s.setError message
      | none => s
    quiet { s with bsonTypeData := s.bsonTypeData.write BsonJsonBsonData.value (leBytes 8 d) }
  | .date =>
    match dec.iso8601DateParse val with
    | .error e => quiet { s with error := some e }
    | .ok v64 =>
      quiet { s with
        bsonTypeData := (s.bsonTypeData.setFlag BsonJsonBsonData.dateHasDate).write
          BsonJsonBsonData.dateDate (leBytes 8 (ofInt64 v64)) }
  | .decimal128 =>
    let (low, high) := dec.decimal128FromString (cText val)
    if s.readState = .inBsonType then
      quiet { s with
        bsonTypeData :=
          s.bsonTypeData.write BsonJsonBsonData.value (leBytes 8 low ++ leBytes 8 high) }
    else s.badParse val .decimal128
  | .code =>
    quiet { s with codeData := { s.codeData with codeBuf := s.codeData.codeBuf.set (fresh .codeBuf) val } }
  | .symbol => s.append (.symbol (some val) (i32 val.length))
  | .dbref =>
    -- the "$ref" of a {$ref: "...", $id: ... }, append normally
    match s.append (.utf8 (some val) (i32 val.length)) with
    | .done s ops => .done { s with readState := .regular } ops
    | stop => stop
  | bs => s.badParse val bs

/-- `_bson_json_read_string` -/
def readString (s : JsonReaderBson) (val : Bytes) : JsonReaction :=
  let s := s.readFixupKey fresh
  if bsonUtf8Validate val true = false then
    (s.corrupt [ascii "invalid bytes in UTF8 string"]).quiet
  else
    match s.readState with
    | .regular =>
      s.bailIfNotNormal (ascii "string") (s.append (.utf8 (some val) (i32 val.length)))
    | .inBsonTypeScopeStartmap | .inBsonTypeDbpointerStartmap =>
      (s.setError [ascii "Invalid read of \"", cText val, ascii "\" in state \"",
        s.readState.name, ascii "\""]).quiet
    | .inBsonTypeBinaryValues =>
      parseBinaryElem fresh dec { s with bsonTypeBuf2 := s.bsonTypeBuf2.set (fresh .bsonTypeBuf2) val } val
    | .inBsonType | .inBsonTypeTimestampValues | .inBsonTypeRegexValues
    | .inBsonTypeDateNumberlong =>
      readStringInType fresh dec { s with bsonTypeBuf2 := s.bsonTypeBuf2.set (fresh .bsonTypeBuf2) val } val
    | rs => (s.setError [ascii "Invalid state to look for string: ", rs.name]).quiet

/-- `_bson_json_read_start_map` -/
def readStartMap (s : JsonReaderBson) : JsonReaction :=
  let s := s.readFixupKey fresh
  match s.readState with
  | .inBsonType =>
    match s.bsonState with
    | .date => quiet { s with readState := .inBsonTypeDateNumberlong }
    | .binary => quiet { s with readState := .inBsonTypeBinaryValues }
    | .type =>
      -- special case, we started parsing {$type: {$numberInt: "2"}} and we expected a
      -- legacy Binary format: backtrack and parse $type query operator
      pushDoc { s with readState := .inStartMap } fun s ops =>
        .done (s.saveMapKey fresh (ascii "$type")) ops
    | _ => s.quiet
  | .inBsonTypeTimestampStartmap => quiet { s with readState := .inBsonTypeTimestampValues }
  | .inBsonTypeScopeStartmap => quiet { s with readState := .inScope }
  | .inBsonTypeDbpointerStartmap => quiet { s with readState := .inDbpointer }
  | .inBsonTypeRegexStartmap => quiet { s with readState := .inBsonTypeRegexValues }
  | _ => quiet { s with readState := .inStartMap }

/-- `_is_known_key` -/
def isKnownKey (key : Bytes) : Bool :=
  key ∈ [ascii "$regularExpression", ascii "$regex", ascii "$options", ascii "$code",
    ascii "$scope", ascii "$oid", ascii "$binary", ascii "$type", ascii "$date",
    ascii "$undefined", ascii "$maxKey", ascii "$minKey", ascii "$timestamp", ascii "$numberInt",
    ascii "$numberLong", ascii "$numberDouble", ascii "$numberDecimal", ascii "$dbPointer",
    ascii "$symbol"]

/-- `_bson_json_read_code_or_scope_key` -/
def readCodeOrScopeKey (s : JsonReaderBson) (isScope : Bool) (val : Bytes) : JsonReaction :=
  if s.codeData.inScope then
    -- weirdly nested, e.g. "$code" in "$scope: {x: {$code: {}}}": just create the subdoc
    pushDoc { s with readState := .regular } fun s ops => .done (s.saveMapKey fresh val) ops
  else
    -- save the key, in case it is overwritten while parsing scope sub-object
    let code :=
      if s.codeData.keyBuf.len = 0 then
        { s.codeData with keyBuf := s.codeData.keyBuf.set (fresh .codeKeyBuf) s.keyBuf.text }
      else s.codeData
    if isScope then
      quiet { s with
        bsonType := .codewscope
        readState := .inBsonTypeScopeStartmap
        bsonState := .scope
        codeData := { code with hasScope := true } }
    else
      quiet { s with
        bsonType := .code
        bsonState := .code
        codeData := { code with hasCode := true } }

/-- `_bson_json_bad_key_in_type` -/
def badKeyInType (s : JsonReaderBson) (val : Bytes) : JsonReaction :=
  (s.setError [ascii "Invalid key \"", cText val, ascii "\".  Looking for values for type \"",
    bsonJsonTypeName s.bsonType, ascii "\""]).quiet

/-- `HANDLE_OPTION` for each line of `options`, then `otherwise`. -/
def handleOption (s : JsonReaderBson) (val : Bytes)
    (options : List (Bytes × BsonType × BsonState)) (otherwise : JsonReaction) : JsonReaction :=
  match options.find? fun o => o.1 == val with
  | some (key, type, state) =>
    if s.bsonType ≠ .eod ∧ s.bsonType ≠ type then
      (s.setError [ascii "Invalid key \"", key, ascii "\".  Looking for values for type \"",
        bsonJsonTypeName s.bsonType, ascii "\", got \"", bsonJsonTypeName type, ascii "\""]).quiet
    else quiet { s with bsonType := type, bsonState := state }
  | none => otherwise

/-- The options in state `IN_BSON_TYPE`. -/
def typeOptions : List (Bytes × BsonType × BsonState) :=
  [(ascii "$regex", .regex, .regex), (ascii "$options", .regex, .options),
    (ascii "$oid", .oid, .oid), (ascii "$binary", .binary, .binary),
    (ascii "$type", .binary, .type), (ascii "$date", .dateTime, .date),
    (ascii "$undefined", .undefined, .undefined), (ascii "$minKey", .minkey, .minkey),
    (ascii "$maxKey", .maxkey, .maxkey), (ascii "$numberInt", .int32, .int32),
    (ascii "$numberLong", .int64, .int64), (ascii "$numberDouble", .double, .double),
    (ascii "$symbol", .symbol, .symbol), (ascii "$numberDecimal", .decimal128, .decimal128)]

/-- A key in state `IN_BSON_TYPE`. -/
def readKeyInType (s : JsonReaderBson) (val : Bytes) : JsonReaction :=
  s.handleOption val typeOptions <|
    if cText val = ascii "$timestamp" then
      quiet { s with bsonType := .timestamp, readState := .inBsonTypeTimestampStartmap }
    else if cText val = ascii "$regularExpression" then
      quiet { s with bsonType := .regex, readState := .inBsonTypeRegexStartmap }
    else if cText val = ascii "$dbPointer" then
      -- start parsing "key": {"$dbPointer": {...}}, save "key" for later
      quiet { s with
        dbpointerKey := s.dbpointerKey.set (fresh .dbpointerKey) s.keyBuf.text
        bsonType := .dbpointer
        readState := .inBsonTypeDbpointerStartmap }
    else if cText val = ascii "$code" then readCodeOrScopeKey fresh s false val
    else if cText val = ascii "$scope" then readCodeOrScopeKey fresh s true val
    else s.badKeyInType val

/-- A key that is saved, with the marks of a DBRef `{$ref: "collection", $id: ...}`. -/
def readPlainKey (s : JsonReaderBson) (val : Bytes) : JsonReaderBson :=
  let s := s.saveMapKey fresh val
  if s.depth > 1 then
    if cText val = ascii "$ref" then
      { s.setTop { s.top with hasRef := true } with readState := .inBsonType, bsonState := .dbref }
    else if cText val = ascii "$id" then s.setTop { s.top with hasId := true }
    else if cText val = ascii "$db" then { s with readState := .inBsonType, bsonState := .dbref }
    else s
  else s

/-- The second half of `_bson_json_read_map_key`. -/
def readKeyInState (s : JsonReaderBson) (val : Bytes) : JsonReaction :=
  match s.readState with
  | .inBsonType => readKeyInType fresh s val
  | .inBsonTypeDateNumberlong =>
    s.handleOption val [(ascii "$numberLong", .dateTime, .int64)] (s.badKeyInType val)
  | .inBsonTypeTimestampValues =>
    s.handleOption val [(ascii "t", .timestamp, .timestampT), (ascii "i", .timestamp, .timestampI)]
      (s.badKeyInType val)
  | .inBsonTypeRegexValues =>
    s.handleOption val [(ascii "pattern", .regex, .regularExpressionPattern),
      (ascii "options", .regex, .regularExpressionOptions)] (s.badKeyInType val)
  | .inBsonTypeBinaryValues =>
    s.handleOption val [(ascii "base64", .binary, .binary), (ascii "subType", .binary, .type)]
      (s.badKeyInType val)
  | _ => (readPlainKey fresh s val).quiet


/-- `_bson_json_read_map_key` -/
def readMapKey (s : JsonReaderBson) (val : Bytes) : JsonReaction :=
  if bsonUtf8Validate val true = false then
    (s.corrupt [ascii "invalid bytes in UTF8 string"]).quiet
  else
    match s.readState with
    | .inStartMap =>
      -- the key is in a subdocument
      if isKnownKey val ∧ s.depth > 0 then
        readKeyInState fresh
          { s with readState := .inBsonType, bsonType := .eod, bsonTypeData := fun _ => 0 } val
      else
        pushDoc { s with readState := .regular } fun s ops => (readKeyInState fresh s val).after ops
    | .inScope =>
      -- we've read "key" in {$code: "", $scope: {key: ""}}
      pushScope { s with readState := .regular } fun s ops =>
        (readKeyInState fresh (s.saveMapKey fresh val) val).after ops
    | .inDbpointer =>
      -- we've read "$ref" or "$id" in {$dbPointer: {$ref: ..., $id: ...}}
      pushDbpointer { s with readState := .regular } fun s ops =>
        (readKeyInState fresh (s.saveMapKey fresh val) val).after ops
    | _ => readKeyInState fresh s val

/-! ## The end of a map -/

/-- `_bson_json_read_append_binary` -/
def readAppendBinary (s : JsonReaderBson) : JsonReaction :=
  let data := s.bsonTypeData
  let legacy := data.flag BsonJsonBsonData.binaryIsLegacy
  if data.flag BsonJsonBsonData.binaryHasBinary = false then
    (s.setError [if legacy then ascii "Missing \"$binary\" after \"$type\" reading type \"binary\""
      else ascii "Missing \"base64\" after \"subType\" reading type \"binary\""]).quiet
  else if data.flag BsonJsonBsonData.binaryHasSubtype = false then
    (s.setError [if legacy then ascii "Missing \"$type\" after \"$binary\" reading type \"binary\""
      else ascii "Missing \"subType\" after \"base64\" reading type \"binary\""]).quiet
  else
    s.appendOr
      (.binary (UInt8.ofNat (data.le BsonJsonBsonData.binaryType 4)) s.bsonTypeBuf0.text
        (u32 s.bsonTypeBuf0.len))
      [ascii "Error storing binary data"]

/-- `_bson_json_read_append_regex` -/
def readAppendRegex (s : JsonReaderBson) : JsonReaction :=
  let data := s.bsonTypeData
  let legacy := data.flag BsonJsonBsonData.regexIsLegacy
  if data.flag BsonJsonBsonData.regexHasPattern = false then
    (s.setError [if legacy then ascii "Missing \"$regex\" after \"$options\""
      else ascii "Missing \"pattern\" after \"options\" in regular expression"]).quiet
  else if data.flag BsonJsonBsonData.regexHasOptions = false then
    (s.setError [if legacy then ascii "Missing \"$options\" after \"$regex\""
      else ascii "Missing \"options\" after \"pattern\" in regular expression"]).quiet
  else
    s.appendOr (.regex s.bsonTypeBuf0.pointer s.bsonTypeBuf1.pointer)
      [ascii "Error storing regex"]

/-- `_bson_json_read_append_code` -/
def readAppendCode (s : JsonReaderBson) : JsonReaction :=
  let code := s.codeData
  if code.inScope then .assertFailed
  else if code.hasCode = false then (s.setError [ascii "Missing $code after $scope"]).quiet
  else if s.depth = 0 then .wild
  else
    -- keep the buffer but truncate it
    .done
      { s with
        codeData :=
          { code with
            keyBuf := { code.keyBuf with len := 0 }
            hasCode := false
            hasScope := false } }
      [.appendCode code.keyBuf.pointer (i32 code.keyBuf.len) code.codeBuf.pointer
        (if code.hasScope then some s.depth else none)]

/-- `_bson_json_read_append_dbpointer` -/
def readAppendDbpointer (s : JsonReaderBson) : JsonReaction :=
  if s.dbpointerKey.nBytes = 0 then .assertFailed
  else if s.depth = 0 then .wild
  else .done s [.appendDbpointer s.depth s.dbpointerKey.pointer (i32 s.dbpointerKey.len)]

/-- `_bson_json_read_append_oid` -/
def readAppendOid (s : JsonReaderBson) : JsonReaction :=
  s.appendOr (.oid (s.bsonTypeData.slice BsonJsonBsonData.oidOid 12)) [ascii "Error storing ObjectId"]

/-- `_bson_json_read_append_date_time` -/
def readAppendDateTime (s : JsonReaderBson) : JsonReaction :=
  s.appendOr (.dateTime (i64 (s.bsonTypeData.le BsonJsonBsonData.dateDate 8)))
    [ascii "Error storing datetime"]

/-- `_bson_json_read_append_timestamp` -/
def readAppendTimestamp (s : JsonReaderBson) : JsonReaction :=
  let data := s.bsonTypeData
  if data.flag BsonJsonBsonData.timestampHasT = false then
    (s.setError [ascii "Missing t after $timestamp in BSON_TYPE_TIMESTAMP"]).quiet
  else if data.flag BsonJsonBsonData.timestampHasI = false then
    (s.setError [ascii "Missing i after $timestamp in BSON_TYPE_TIMESTAMP"]).quiet
  else
    s.append (.timestamp (data.le BsonJsonBsonData.timestampT 4)
      (data.le BsonJsonBsonData.timestampI 4))

/-- `_bad_extended_json` -/
def badExtendedJson (s : JsonReaderBson) : JsonReaction :=
  (s.corrupt [ascii "Invalid MongoDB extended JSON"]).quiet

/-- The `switch (bson->bson_type)` of `_bson_json_read_end_map`. -/
def appendWrapped (s : JsonReaderBson) : JsonReaction :=
  let data := s.bsonTypeData
  match s.bsonType with
  | .regex => s.readAppendRegex
  | .code | .codewscope => s.readAppendCode
  | .oid => s.readAppendOid
  | .binary => s.readAppendBinary
  | .dateTime => s.readAppendDateTime
  | .undefined => s.append .undefined
  | .minkey => s.append .minkey
  | .maxkey => s.append .maxkey
  | .int32 => s.append (.int32 (i32 (data.le BsonJsonBsonData.value 4)))
  | .int64 => s.append (.int64 (i64 (data.le BsonJsonBsonData.value 8)))
  | .double => s.append (.double (data.le BsonJsonBsonData.value 8))
  | .decimal128 =>
    s.append (.decimal128 (data.le BsonJsonBsonData.value 8)
      (data.le (BsonJsonBsonData.value + 8) 8))
  | .dbpointer =>
    (s.setError [ascii "Internal error: shouldn't be in state BSON_TYPE_DBPOINTER"]).quiet
  | .symbol => s.quiet
  | type =>
    (s.setError [ascii "Internal error: can't parse JSON wrapper for type \"",
      bsonJsonTypeName type, ascii "\""]).quiet

/-- `STACK_POP_SCOPE` -/
def popScope (s : JsonReaderBson) (next : JsonReaderBson → List JsonDocOp → JsonReaction) :
    JsonReaction :=
  s.stackPop (· ≠ .array) (.leave (s.depth - 1)) fun s ops =>
    next { s with codeData := { s.codeData with inScope := false } } ops

/-- `_bson_json_read_end_map` in state `REGULAR`. -/
def endRegularMap (s : JsonReaderBson) : JsonReaction :=
  match s.top.type with
  | .scope =>
    popScope { s with readState := .inBsonType, bsonType := .code } fun s ops =>
      .done s.finishIfEmpty ops
  | .dbpointer =>
    let s := { s with readState := .inBsonTypeDbpointerStartmap }
    s.stackPop (· ≠ .array) (.leave (s.depth - 1)) fun s ops => .done s.finishIfEmpty ops
  | _ =>
    let s :=
      if s.top.hasId ≠ s.top.hasRef then
        s.setError [ascii "DBRef object must have both $ref and $id keys"]
      else s
    s.stackPop (· ≠ .array) .appendEnd fun s ops => .done s.finishIfEmpty ops

/-- A wrapper whose inner object ends: `state` is next, and the value is appended. -/
def endInnerMap (s : JsonReaderBson) (state : ReadState) (append : JsonReaderBson → JsonReaction) :
    JsonReaction :=
  if s.key.isNone then s.badExtendedJson else append { s with readState := state }

/-- `_bson_json_read_end_map` behind its first `if`. -/
def endMapInState (s : JsonReaderBson) : JsonReaction :=
  match s.readState with
  | .inBsonType =>
    if s.key.isNone then s.badExtendedJson else appendWrapped { s with readState := .regular }
  | .inBsonTypeTimestampValues => s.endInnerMap .inBsonTypeTimestampEndmap readAppendTimestamp
  | .inBsonTypeRegexValues => s.endInnerMap .inBsonTypeRegexEndmap readAppendRegex
  | .inBsonTypeBinaryValues => s.endInnerMap .inBsonTypeBinaryEndmap readAppendBinary
  | .inBsonTypeDateNumberlong => s.endInnerMap .inBsonTypeDateEndmap readAppendDateTime
  | .inBsonTypeTimestampEndmap | .inBsonTypeRegexEndmap | .inBsonTypeBinaryEndmap
  | .inBsonTypeDateEndmap => quiet { s with readState := .regular }
  | .regular => s.endRegularMap
  | .inScope =>
    -- empty $scope
    if s.codeData.hasScope = false then .assertFailed
    else
      s.pushScope fun s ops =>
        s.popScope fun s more =>
          .done { s with readState := .inBsonType, bsonType := .code } (ops ++ more)
  | .inDbpointer => (s.setError [ascii "Empty $dbPointer"]).quiet
  | rs => (s.setError [ascii "Invalid state \"", rs.name, ascii "\""]).quiet

/-- `_bson_json_read_end_map` -/
def readEndMap (s : JsonReaderBson) : JsonReaction :=
  match s.readState with
  | .inStartMap =>
    pushDoc { s with readState := .regular } fun s ops => s.endMapInState.after ops
  | .inBsonTypeScopeStartmap =>
    pushScope { s with readState := .regular } fun s ops => s.endMapInState.after ops
  | .inBsonTypeDbpointerStartmap =>
    -- we've read last "}" in "{$dbPointer: {$id: ..., $ref: ...}}"
    match s.readAppendDbpointer with
    | .done s ops => .done { s with readState := .regular } ops
    | stop => stop
  | _ => s.endMapInState

/-! ## Arrays, and the dispatch of jsonsl's actions -/

/-- `_bson_json_read_start_array` -/
def readStartArray (s : JsonReaderBson) : JsonReaction :=
  if s.readState ≠ .regular then
    (s.setError [ascii "Invalid read of \"[\" in state \"", s.readState.name, ascii "\""]).quiet
  else (s.readFixupKey fresh).pushArray .done

/-- `_bson_json_read_end_array` -/
def readEndArray (s : JsonReaderBson) : JsonReaction :=
  if s.readState ≠ .regular then
    (s.setError [ascii "Invalid read of \"]\" in state \"", s.readState.name, ascii "\""]).quiet
  else s.stackPop (· = .array) .appendEnd fun s ops => .done s.finishIfEmpty ops

/-- The case `JSONSL_T_SPECIAL` of `_pop_callback`. -/
def readSpecial (s : JsonReaderBson) (numNoInt numeric signed boolean null : Bool) (nelem : Nat)
    (text : Bytes) : JsonReaction :=
  if numNoInt then
    match parseDouble dec text with
    | (_, some message) => (s.setError message).quiet
    | (d, none) => readDouble fresh s d
  else if numeric then readInteger fresh s nelem (if signed then -1 else 1)
  else if boolean then readBoolean fresh s (text.headD 0 == 116)
  else if null then readNull fresh s
  else s.quiet

/-- `_push_callback` and `_pop_callback`. -/
def react (s : JsonReaderBson) : JsonEvent → JsonReaction
  | .startMap => readStartMap fresh s
  | .endMap => readEndMap s
  | .startArray => readStartArray fresh s
  | .endArray => readEndArray s
  | .key val => readMapKey fresh s val
  | .string val => readString fresh dec s val
  | .special numNoInt numeric signed boolean null nelem text =>
    readSpecial fresh dec s numNoInt numeric signed boolean null nelem text

end Callbacks

end JsonReaderBson

end LibBson.Source
