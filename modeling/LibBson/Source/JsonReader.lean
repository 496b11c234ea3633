import LibBson.Source.JsonDocs
import LibBson.Source.Jsonsl
import LibBson.Source.Reader

/-!
# `bson_json_reader_read`

Source: bson-json.c:1786-1976 (token text, jsonsl callbacks), 2003-2120 (read,
new), 2150-2240 (`bson_new_from_json`). jsonsl is a parameter that takes one
character at a time: the callbacks it invokes for it, in order, and the parser
behind it. `bson_json_reader_cb` is the list of the results it has still to give.
-/

set_option autoImplicit false

namespace LibBson.Source
open LibBson.Library

structure JsonReader (J : Type) where
  /-- `producer.cb` -/
  cb : List ReadResult
  /-- The `bytes_read` octets of `producer.buf`. -/
  buf : Bytes
  parse : JsonParse
  json : J
  /-- `json->pos` -/
  pos : Nat
  /-- `json->stopfl` -/
  stopfl : Bool
  /-- `json_text_pos`, `none` for -1. -/
  jsonTextPos : Option Nat
  shouldReset : Bool
  advance : Nat
  tokAccumulator : JsonBuf

namespace JsonReader

section Read

variable {J : Type} (fresh : JsonHeap) (dec : JsonDecoders) (lex : Jsonsl J)

/-- `bson_set_error (reader->error, BSON_ERROR_JSON, code, ...)` -/
def setError (r : JsonReader J) (code : JsonErrorCode) (message : List Bytes) : JsonReader J :=
  { r with
    parse :=
      { r.parse with
        bson :=
          { r.parse.bson with error := some { code := code, message := formatted message } } } }

/-- `_get_json_text` for the token from `posBegin`, at offset `at'` of the octets being
fed: the text, up to the character before. -/
def getJsonText (r : JsonReader J) (bytes : Bytes) (at' posBegin : Nat) :
    Except JsonHalt (Bytes × JsonReader J) :=
  if r.pos ≤ posBegin then .error .assertFailed
  else
    let len := r.pos - posBegin
    if len ≤ at' then
      -- read directly from stream, not from saved JSON
      .ok ((bytes.drop (at' - len)).take len, r)
    else
      -- combine saved text with new data from the jsonsl_t
      let tok :=
        if at' > 0 then r.tokAccumulator.append (fresh.buffer .tokAccumulator) (bytes.take at') else r.tokAccumulator
      if tok.nBytes = 0 then .error .wild
      else .ok (tok.buf.slice 0 len, { r with tokAccumulator := tok })

/-- Hand an event to the reader's callbacks. -/
def deliver (r : JsonReader J) (e : JsonEvent) : Except JsonHalt (JsonReader J) :=
  match r.parse.step fresh dec e with
  | .error halt => .error halt
  | .ok p => .ok { r with parse := p }

/-- A hash key or a string: remove the quotes, replace backslash-escapes. -/
def popText (r : JsonReader J) (bytes : Bytes) (at' : Nat) (state : JsonslState)
    (event : Bytes → JsonEvent) : Except JsonHalt (JsonReader J) :=
  match r.getJsonText fresh bytes at' state.posBegin with
  | .error halt => .error halt
  | .ok (text, r) =>
    if text.headD 0 ≠ 34 then .error .assertFailed
    else
      match lex.unescape text.tail with
      | .error err =>
        .ok (r.setError .readCorruptJs
          [ascii "error near position ", decimal state.posBegin, ascii ": \"", err.name, ascii "\""])
      | .ok val => r.deliver fresh dec (event val)

/-- The `switch` of `_pop_callback`. -/
def popState (r : JsonReader J) (bytes : Bytes) (at' : Nat) (state : JsonslState) :
    Except JsonHalt (JsonReader J) :=
  match state.type with
  | .hkey => r.popText fresh dec lex bytes at' state .key
  | .string => r.popText fresh dec lex bytes at' state .string
  | .object => r.deliver fresh dec .endMap
  | .list => r.deliver fresh dec .endArray
  | .special =>
    match r.getJsonText fresh bytes at' state.posBegin with
    | .error halt => .error halt
    | .ok (text, r) =>
      r.deliver fresh dec (.special state.numNoInt state.numeric state.signed state.boolean
        state.null state.nelem text)

/-- `_error_callback` -/
def errorCallback (r : JsonReader J) (at' : Nat) (err : JsonslError) (errat : UInt8) :
    JsonReader J :=
  if err = .cantInsert ∧ errat = 123 then
    -- start the next document
    { r with shouldReset := true, advance := at' }
  else
    r.setError .readCorruptJs
      [ascii "Got parse error at \"", [errat], ascii "\", position ", decimal r.pos, ascii ": \"",
        err.name, ascii "\""]

/-- One callback, and whether `jsonsl_feed` returns behind it. -/
def callback (r : JsonReader J) (bytes : Bytes) (at' : Nat) (c : UInt8) :
    JsonslAction → Except JsonHalt (JsonReader J × Bool)
  | .error err => .ok (r.errorCallback at' err c, true)
  | .push type posBegin =>
    let pushed : Except JsonHalt (JsonReader J) :=
      match type with
      | .object => r.deliver fresh dec .startMap
      | .list => r.deliver fresh dec .startArray
      | _ => .ok { r with jsonTextPos := some posBegin }
    match pushed with
    | .error halt => .error halt
    | .ok r =>
      let stopfl := r.stopfl || r.parse.bson.error.isSome
      .ok ({ r with stopfl := stopfl }, stopfl)
  | .pop state =>
    match r.popState fresh dec lex bytes at' state with
    | .error halt => .error halt
    | .ok r =>
      let stopfl := r.stopfl || r.parse.bson.error.isSome
      .ok ({ r with
        stopfl := stopfl
        jsonTextPos := none
        tokAccumulator := { r.tokAccumulator with len := 0 } }, stopfl)

/-- The callbacks for one character. -/
def callbacks (r : JsonReader J) (bytes : Bytes) (at' : Nat) (c : UInt8) :
    List JsonslAction → Except JsonHalt (JsonReader J × Bool)
  | [] => .ok (r, false)
  | a :: rest =>
    match r.callback fresh dec lex bytes at' c a with
    | .error halt => .error halt
    | .ok (r, true) => .ok (r, true)
    | .ok (r, false) => r.callbacks bytes at' c rest

/-- `jsonsl_feed (reader->json, bytes, nbytes)` from offset `at'` of the octets on. -/
def feed (r : JsonReader J) (bytes : Bytes) (at' : Nat) : Bytes → Except JsonHalt (JsonReader J)
  | [] => .ok r
  | c :: rest =>
    let (actions, json) := lex.feed r.json r.pos c
    match ({ r with json := json }).callbacks fresh dec lex bytes at' c actions with
    | .error halt => .error halt
    | .ok (r, true) => .ok r
    | .ok (r, false) => ({ r with pos := r.pos + 1 }).feed bytes (at' + 1) rest

/-- Save what has been read of a token that goes on behind these octets. -/
def accumulate (r : JsonReader J) (startPos : Nat) (bytes : Bytes) : JsonReader J :=
  match r.jsonTextPos with
  | none => r
  | some textPos =>
    if textPos < r.pos then
      let accum := min (r.pos - textPos) bytes.length
      -- how far into our current chunk the token begins
      let bufOffset := textPos - startPos
      { r with
        tokAccumulator := r.tokAccumulator.append (fresh.buffer .tokAccumulator) ((bytes.drop bufOffset).take accum) }
    else r

/-- How a turn of the loop ends: `goto cleanup` with a return value, or another turn. -/
inductive Turn (J : Type) where
  | cleanup (ret : Int) (r : JsonReader J)
  | again (r : JsonReader J)

/-- The loop body on octets from the last read or a new one. -/
def readChunk (r : JsonReader J) (bytes : Bytes) : Except JsonHalt (Turn J) :=
  match r.feed fresh dec lex bytes 0 bytes with
  | .error halt => .error halt
  | .ok r' =>
    if r'.shouldReset then
      -- end of a document; advance past already-parsed data
      .ok (.cleanup 1
        { r' with
          json := lex.reset r'.json
          pos := 0
          stopfl := false
          shouldReset := false
          buf := bytes.drop r'.advance })
    else if r'.parse.bson.error.isSome then .ok (.cleanup (-1) { r' with buf := bytes })
    else .ok (.again { r'.accumulate fresh r.pos bytes with buf := [] })

/-- The label `cleanup`. -/
def cleanup (ret : Int) (r : JsonReader J) : Int × JsonReader J :=
  if ret = 1 ∧ r.parse.bson.readState ≠ .done then
    (-1, { r with
      parse := { r.parse with bson := r.parse.bson.corrupt [ascii "Incomplete JSON"] } })
  else (ret, r)

/-- The loop, when nothing is left in the buffer; `ret` is 1 behind the first turn. -/
def readChunks (ret : Int) (r : JsonReader J) :
    List ReadResult → Except JsonHalt (Int × JsonReader J)
  | [] => .ok (cleanup ret { r with cb := [] })
  | .error :: rest =>
    .ok (cleanup (-1) (({ r with cb := rest }).setError .readCbFailure [ascii "reader cb failed"]))
  | .octets [] :: rest => .ok (cleanup ret { r with cb := rest })
  | .octets (b :: bs) :: rest =>
    match r.readChunk fresh dec lex (b :: bs) with
    | .error halt => .error halt
    | .ok (.cleanup ret r) => .ok (cleanup ret { r with cb := rest })
    | .ok (.again r) => readChunks 1 r rest

/-- What a read sets up: the caller's document, an empty stack and no error. -/
def start (r : JsonReader J) : JsonReader J :=
  { r with
    parse :=
      { docs :=
          { r.parse.docs.counted with
            opened := [some (bsonInit (fresh.document r.parse.docs.calls 0))] }
        bson := { r.parse.bson with depth := 0, readState := .regular, error := none } } }

/-- `bson_json_reader_read` into an empty document. -/
def read (r : JsonReader J) : Except JsonHalt (Int × JsonReader J) :=
  let r := r.start fresh
  if r.buf = [] then r.readChunks fresh dec lex 0 r.cb
  else
    match r.readChunk fresh dec lex r.buf with
    | .error halt => .error halt
    | .ok (.cleanup ret r) => .ok (cleanup ret r)
    | .ok (.again r') => r'.readChunks fresh dec lex 1 r.cb

/-- `bson_json_reader_new` -/
def new (cb : List ReadResult) : JsonReader J :=
  { cb := cb
    buf := []
    parse := { docs := { opened := [], left := fun _ => .zeroed, calls := 0 }, bson := .zeroed }
    json := lex.reset lex.zeroed
    pos := 0
    stopfl := false
    jsonTextPos := none
    shouldReset := false
    advance := 0
    tokAccumulator := .empty }

/-- The octets of the caller's document behind a read that returns 1. -/
def document (r : JsonReader J) : Option Bytes :=
  r.parse.docs.innermost.map fun c => c.ref.data.slice 0 c.ref.len

/-- What a caller sees of one read. -/
inductive Result where
  | document (octets : Option Bytes)
  | done
  | error (e : Option JsonError)
  | halted (halt : JsonHalt)
  deriving DecidableEq

/-- The results of reading on until the end of the input or an error, at most `n`. -/
def results : Nat → JsonReader J → List Result
  | 0, _ => []
  | n + 1, r =>
    match r.read fresh dec lex with
    | .error halt => [.halted halt]
    | .ok (ret, r) =>
      if ret = 1 then .document r.document :: results n r
      else if ret = 0 then [.done]
      else [.error r.parse.bson.error]

/-- `BSON_JSON_DEFAULT_BUF_SIZE` -/
def bsonJsonDefaultBufSize : Nat := 16384

/-- What `_bson_json_data_reader_cb` hands over, a buffer at a time; at most `fuel`. -/
def dataChunks : Nat → Bytes → List Bytes
  | 0, _ => []
  | fuel + 1, data =>
    if data = [] then []
    else data.take bsonJsonDefaultBufSize :: dataChunks fuel (data.drop bsonJsonDefaultBufSize)

/-- `bson_new_from_json` and `bson_init_from_json`: the octets of the document, `none`
for NULL and false. -/
def bsonNewFromJson (data : Bytes) : Except JsonHalt (Option Bytes) :=
  match (new lex ((dataChunks data.length data).map .octets)).read fresh dec lex with
  | .error halt => .error halt
  | .ok (ret, r) => .ok (if ret = 1 then r.document else none)

end Read

end JsonReader

end LibBson.Source
