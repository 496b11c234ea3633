import LibBson.Source.AsJsonText
import LibBson.Source.Utf8Escape
import LibBson.Source.Visit

/-!
# Printing a document as JSON

Source: bson.c:29-31, 64-71, 2480-3216. The string of the state is the list of calls
made on it, in order: what they leave is found when its text is needed. The callbacks
share the cell behind `err_offset`, which is -1 until corruption is seen; here it is
`none` until then. The definition of the visitors is by recursion on a bound on the
nesting, which a printer sets to the octets of its document.
-/

set_option autoImplicit false

namespace LibBson.Source
open LibBson.Library

/-! ## The string -/

/-- `bson_string_new ("{ ")` and `bson_string_new ("[ ")` -/
def bsonStringOpen (bracket : UInt8) : BsonString where
  str := [bracket, 32]
  alloc := 4
  fits := by simp

/-! ## The state -/

/-- `BSON_MAX_RECURSION` -/
def bsonMaxRecursion : Nat := 200

/-- `bson_json_state_t`. A document has less than `2 ^ 32` fields to count. -/
structure BsonJsonState where
  count : Nat
  keys : Bool
  errOffset : Option Nat
  depth : Nat
  str : List StringCall
  mode : BsonJsonMode

namespace BsonJsonState

def perform (s : BsonJsonState) (calls : List StringCall) : BsonJsonState :=
  { s with str := s.str ++ calls }

def append (s : BsonJsonState) (text : Bytes) : BsonJsonState := s.perform [.append text]

/-- Return false after appending each of `texts`. -/
def appends (s : BsonJsonState) (texts : List Bytes) : Bool × BsonJsonState :=
  (false, s.perform (texts.map .append))

/-- `if (!escaped) return true;` in front of `next`. -/
def escapedOr (s : BsonJsonState) (escaped : Escaped)
    (next : Bytes → Bool × BsonJsonState) : Bool × BsonJsonState :=
  match escaped with
  | .lost => (true, s.perform [.lost])
  | .null => (true, s)
  | .text str => next str

end BsonJsonState

/-- The modes that spell wrappers out. -/
def BsonJsonMode.extended (mode : BsonJsonMode) : Bool := mode = .canonical || mode = .relaxed

/-- A C string argument with its terminating NUL. -/
def escapeCString (str : Bytes) : Escaped := bsonUtf8EscapeForJson (str ++ [0]) (-1)

/-- An argument of a given length, behind which the element has a NUL. -/
def escapeText (str : Bytes) : Escaped := bsonUtf8EscapeForJson (str ++ [0]) str.length

/-! ## The callbacks -/

section Callbacks

variable (s : BsonJsonState)

def bsonAsJsonVisitUtf8 (v : Bytes) : Bool × BsonJsonState :=
  s.escapedOr (escapeText v) fun escaped => s.appends [ascii "\"", escaped, ascii "\""]

def bsonAsJsonVisitInt32 (v : Int) : Bool × BsonJsonState :=
  if s.mode = .canonical then
    s.appends [ascii "\x7b \"$numberInt\" : \"" ++ printfD v ++ ascii "\" \x7d"]
  else s.appends [printfD v]

def bsonAsJsonVisitInt64 (v : Int) : Bool × BsonJsonState :=
  if s.mode = .canonical then
    s.appends [ascii "\x7b \"$numberLong\" : \"" ++ printfD v ++ ascii "\"\x7d"]
  else s.appends [printfD v]

def bsonAsJsonVisitDecimal128 (value : Nat × Nat) : Bool × BsonJsonState :=
  let dec : BsonDecimal128 :=
    { low := BitVec.ofNat 64 value.1, high := BitVec.ofNat 64 value.2 }
  s.appends [ascii "\x7b \"$numberDecimal\" : \"", (bsonDecimal128ToString dec).str,
    ascii "\" \x7d"]

def bsonAsJsonVisitDouble (v : Nat) : Bool × BsonJsonState :=
  let legacy := s.mode = .legacy ∨ (s.mode = .relaxed ∧ doubleIsSpecial v = false)
  if legacy then s.appends (doubleTexts v)
  else
    let texts :=
      if doubleIsNan v then [ascii "NaN"]
      else if doubleIsSpecial v then
        if doubleNegative v then [ascii "-Infinity"] else [ascii "Infinity"]
      else doubleTexts v
    s.appends ([ascii "\x7b \"$numberDouble\" : \""] ++ texts ++ [ascii "\" \x7d"])

def bsonAsJsonVisitUndefined : Bool × BsonJsonState :=
  s.appends [ascii "\x7b \"$undefined\" : true \x7d"]

def bsonAsJsonVisitNull : Bool × BsonJsonState := s.appends [ascii "null"]

def bsonAsJsonVisitOid (oid : Bytes) : Bool × BsonJsonState :=
  s.appends [ascii "\x7b \"$oid\" : \"", bsonOidToString oid, ascii "\" \x7d"]

def bsonAsJsonVisitBinary (v : UInt8 × Bytes) : Bool × BsonJsonState :=
  let b64 := b64Ntop v.2
  if s.mode.extended then
    s.appends [ascii "\x7b \"$binary\" : \x7b \"base64\": \"", b64, ascii "\", \"subType\" : \"",
      hexPair v.1, ascii "\" \x7d \x7d"]
  else
    s.appends [ascii "\x7b \"$binary\" : \"", b64, ascii "\", \"$type\" : \"", hexPair v.1,
      ascii "\" \x7d"]

def bsonAsJsonVisitBool (v : Bool) : Bool × BsonJsonState :=
  s.appends [if v then ascii "true" else ascii "false"]

def bsonAsJsonVisitDateTime (msecSinceEpoch : Int) : Bool × BsonJsonState :=
  (false, s.perform (asJsonVisitDateTime s.mode msecSinceEpoch))

/-- `_bson_append_regex_options_sorted` appends one character after another. -/
def bsonAsJsonVisitRegex (v : Bytes × Bytes) : Bool × BsonJsonState :=
  s.escapedOr (escapeCString v.1) fun escaped =>
    let options := (bsonAppendRegexOptionsSorted v.2).map StringCall.appendC
    if s.mode.extended then
      (false, s.perform
        ([.append (ascii "\x7b \"$regularExpression\" : \x7b \"pattern\" : \""), .append escaped,
            .append (ascii "\", \"options\" : \"")] ++ options ++
          [.append (ascii "\" \x7d \x7d")]))
    else
      (false, s.perform
        ([.append (ascii "\x7b \"$regex\" : \""), .append escaped,
            .append (ascii "\", \"$options\" : \"")] ++ options ++ [.append (ascii "\" \x7d")]))

def bsonAsJsonVisitTimestamp (v : Nat × Nat) : Bool × BsonJsonState :=
  s.appends [ascii "\x7b \"$timestamp\" : \x7b \"t\" : ", decimal v.1, ascii ", \"i\" : ",
    decimal v.2, ascii " \x7d \x7d"]

def bsonAsJsonVisitDbpointer (v : Bytes × Bytes) : Bool × BsonJsonState :=
  s.escapedOr (escapeCString v.1) fun escaped =>
    if s.mode.extended then
      s.appends [ascii "\x7b \"$dbPointer\" : \x7b \"$ref\" : \"", escaped, ascii "\"",
        ascii ", \"$id\" : \x7b \"$oid\" : \"", bsonOidToString v.2, ascii "\" \x7d",
        ascii " \x7d \x7d"]
    else
      s.appends [ascii "\x7b \"$ref\" : \"", escaped, ascii "\"", ascii ", \"$id\" : \"",
        bsonOidToString v.2, ascii "\"", ascii " \x7d"]

def bsonAsJsonVisitMinkey : Bool × BsonJsonState :=
  s.appends [ascii "\x7b \"$minKey\" : 1 \x7d"]

def bsonAsJsonVisitMaxkey : Bool × BsonJsonState :=
  s.appends [ascii "\x7b \"$maxKey\" : 1 \x7d"]

/-- The separator in front of all fields but the first. -/
def appendComma : BsonJsonState := if s.count = 0 then s else s.append (ascii ", ")

/-- `state->count++` -/
def counted : BsonJsonState := { s with count := s.count + 1 }

def bsonAsJsonVisitBefore (key : Bytes) : Bool × BsonJsonState :=
  let s := appendComma s
  if s.keys then
    s.escapedOr (escapeCString key) fun escaped =>
      (false, counted (s.perform [.append (ascii "\""), .append escaped, .append (ascii "\" : ")]))
  else (false, counted s)

def bsonAsJsonVisitCorrupt (it : BsonIter) : BsonJsonState := { s with errOffset := some it.off }

def bsonAsJsonVisitCode (v : Bytes) : Bool × BsonJsonState :=
  s.escapedOr (escapeText v) fun escaped =>
    s.appends [ascii "\x7b \"$code\" : \"", escaped, ascii "\" \x7d"]

def bsonAsJsonVisitSymbol (v : Bytes) : Bool × BsonJsonState :=
  s.escapedOr (escapeText v) fun escaped =>
    if s.mode.extended then
      s.appends [ascii "\x7b \"$symbol\" : \"", escaped, ascii "\" \x7d"]
    else s.appends [ascii "\"", escaped, ascii "\""]

end Callbacks

/-! ## Documents in documents -/

/-- What a printer returns: NULL, a text, or nothing it could be held to, once a string
has been overrun. -/
inductive AsJson where
  | lost
  | null
  | text (str : Bytes)
  deriving DecidableEq

/-- What a printer starts its visit with. -/
def BsonJsonState.init (keys : Bool) (mode : BsonJsonMode) : BsonJsonState :=
  { count := 0, keys := keys, errOffset := none, depth := 0, str := [], mode := mode }

/-- Behind the visit: `bson_string_free (state.str, ...)`. -/
def asJsonResult (bracket close : UInt8) (stop : Bool) (s : BsonJsonState) : AsJson :=
  match (bsonStringOpen bracket).performAll s.str with
  | none => .lost
  | some str =>
    if stop || s.errOffset.isSome then .null
    else
      match bsonStringAppend str [32, close] with
      | none => .lost
      | some str => .text str.str

/-- `_bson_as_json_visit_all` -/
def bsonAsJsonVisitAll (visitors : Visitor BsonJsonState) (bson : BsonRef) (mode : BsonJsonMode) :
    AsJson :=
  if bsonEmpty bson then .text (ascii "\x7b \x7d")
  else
    match bsonIterInit bson with
    | (false, _) => .null
    | (true, it) =>
      let visited := bsonIterVisitAll visitors it (.init true mode)
      asJsonResult 123 125 visited.stop visited.data

/-- `child_state`, with which the fields of a child are visited. -/
def BsonJsonState.child (s : BsonJsonState) (keys : Bool) : BsonJsonState :=
  { count := 0
    keys := keys
    errOffset := s.errOffset
    depth := s.depth + 1
    str := []
    mode := s.mode }

/-- Behind the visit of a child: its text goes into the string of its parent `s`. -/
def nestedResult (bracket close : UInt8) (visited : Visited BsonJsonState) (s : BsonJsonState) :
    Bool × BsonJsonState :=
  let s := { s with errOffset := visited.data.errOffset }
  match (bsonStringOpen bracket).performAll visited.data.str with
  | none => (visited.stop, s.perform [.lost])
  | some str =>
    if visited.stop then (true, s)
    else
      match bsonStringAppend str [32, close] with
      | none => (false, s.perform [.lost])
      | some str => s.appends [str.str]

/-- `_bson_as_json_visit_document` and `_bson_as_json_visit_array`, which differ in the
brackets and in whether keys are printed. -/
def visitNested (visitors : Visitor BsonJsonState) (keys : Bool) (bracket close : UInt8)
    (v : BsonRef) (s : BsonJsonState) : Bool × BsonJsonState :=
  if bsonMaxRecursion ≤ s.depth then s.appends [ascii "\x7b ... \x7d"]
  else
    match bsonIterInit v with
    | (false, _) => (false, s)
    | (true, child) =>
      nestedResult bracket close (bsonIterVisitAll visitors child (s.child keys)) s

def bsonAsJsonVisitDocument (visitors : Visitor BsonJsonState) (v : BsonRef) (s : BsonJsonState) :
    Bool × BsonJsonState :=
  visitNested visitors true 123 125 v s

def bsonAsJsonVisitArray (visitors : Visitor BsonJsonState) (v : BsonRef) (s : BsonJsonState) :
    Bool × BsonJsonState :=
  visitNested visitors false 91 93 v s

/-- The scope is printed in the same mode, by itself. -/
def bsonAsJsonVisitCodewscope (visitors : Visitor BsonJsonState) (v : Bytes × BsonRef)
    (s : BsonJsonState) : Bool × BsonJsonState :=
  s.escapedOr (escapeText v.1) fun codeEscaped =>
    match bsonAsJsonVisitAll visitors v.2 s.mode with
    | .lost => (true, s.perform [.lost])
    | .null => (true, s)
    | .text scope =>
      s.appends [ascii "\x7b \"$code\" : \"", codeEscaped, ascii "\", \"$scope\" : ", scope,
        ascii " \x7d"]

/-- `bson_as_json_visitors` for documents with at most `depth` levels. -/
def bsonAsJsonVisitors : Nat → Visitor BsonJsonState
  | 0 => {}
  | depth + 1 =>
    { before := some fun _ key _ s => bsonAsJsonVisitBefore s key
      corrupt := some fun it s => bsonAsJsonVisitCorrupt s it
      double := some fun _ _ v s => bsonAsJsonVisitDouble s v
      utf8 := some fun _ _ v s => bsonAsJsonVisitUtf8 s v
      document := some fun _ _ v s => bsonAsJsonVisitDocument (bsonAsJsonVisitors depth) v s
      array := some fun _ _ v s => bsonAsJsonVisitArray (bsonAsJsonVisitors depth) v s
      binary := some fun _ _ v s => bsonAsJsonVisitBinary s v
      undefined := some fun _ _ _ s => bsonAsJsonVisitUndefined s
      oid := some fun _ _ v s => bsonAsJsonVisitOid s v
      bool := some fun _ _ v s => bsonAsJsonVisitBool s v
      dateTime := some fun _ _ v s => bsonAsJsonVisitDateTime s v
      null := some fun _ _ _ s => bsonAsJsonVisitNull s
      regex := some fun _ _ v s => bsonAsJsonVisitRegex s v
      dbpointer := some fun _ _ v s => bsonAsJsonVisitDbpointer s v
      code := some fun _ _ v s => bsonAsJsonVisitCode s v
      symbol := some fun _ _ v s => bsonAsJsonVisitSymbol s v
      codewscope := some fun _ _ v s => bsonAsJsonVisitCodewscope (bsonAsJsonVisitors depth) v s
      int32 := some fun _ _ v s => bsonAsJsonVisitInt32 s v
      timestamp := some fun _ _ v s => bsonAsJsonVisitTimestamp s v
      int64 := some fun _ _ v s => bsonAsJsonVisitInt64 s v
      maxkey := some fun _ _ _ s => bsonAsJsonVisitMaxkey s
      minkey := some fun _ _ _ s => bsonAsJsonVisitMinkey s
      decimal128 := some fun _ _ v s => bsonAsJsonVisitDecimal128 s v }

/-! ## The printers -/

def bsonAsCanonicalExtendedJson (bson : BsonRef) : AsJson :=
  bsonAsJsonVisitAll (bsonAsJsonVisitors bson.len) bson .canonical

def bsonAsJson (bson : BsonRef) : AsJson :=
  bsonAsJsonVisitAll (bsonAsJsonVisitors bson.len) bson .legacy

def bsonAsRelaxedExtendedJson (bson : BsonRef) : AsJson :=
  bsonAsJsonVisitAll (bsonAsJsonVisitors bson.len) bson .relaxed

/-- The visit is made twice: the second starts where the first has ended. -/
def bsonArrayAsJson (bson : BsonRef) : AsJson :=
  if bsonEmpty bson then .text (ascii "[ ]")
  else
    match bsonIterInit bson with
    | (false, _) => .null
    | (true, it) =>
      let visitors := bsonAsJsonVisitors bson.len
      let first := bsonIterVisitAll visitors it (.init false .legacy)
      let visited := bsonIterVisitAll visitors first.iter first.data
      asJsonResult 91 93 visited.stop visited.data

end LibBson.Source
