import LibBson.Source.Buffer
import LibBson.Source.JsonCallbacks

/-!
# The documents of the JSON reader, and one event

Source: bson-json.c:264-276 (`STACK_BSON`), 1386-1490 (code, DBPointer). The
document the caller passed and those of `$scope` and `$dbPointer` frames are
documents of their own; the frames above one of them are its open children. What a
call on a `bson_t` does that no successful call has initialised, or that an end or a
destroy has left, is not defined.
-/

set_option autoImplicit false

namespace LibBson.Source
open LibBson.Library

/-- Why a read does not return: a `BSON_ASSERT` of bson-json.c, one of bson.c, or a
call on a `bson_t` that is not a document. -/
inductive JsonHalt where
  | assertFailed
  | aborted
  | wild
  deriving DecidableEq

/-- `stack[i].bson` of a frame that is not on the stack. -/
inductive JsonSlot where
  /-- As `bson_malloc0` left it. -/
  | zeroed
  /-- The document of a `$scope` or `$dbPointer` frame. -/
  | document (c : Chain)
  /-- No document any more. -/
  | unusable

structure JsonDocs where
  /-- From the innermost to the caller's; `none` is not a document. -/
  opened : List (Option Chain)
  left : Nat → JsonSlot
  /-- How many calls there were: a block belongs to the call it is allocated in. -/
  calls : Nat

namespace JsonDocs

def setLeft (d : JsonDocs) (slot : Nat) (b : JsonSlot) : JsonDocs :=
  { d with left := fun i => if i = slot then b else d.left i }

/-- The document `STACK_BSON_CHILD` belongs to. -/
def innermost (d : JsonDocs) : Option Chain := d.opened.head?.join

/-- The innermost document after a call on it. -/
def replace (d : JsonDocs) (c : Chain) : JsonDocs := { d with opened := some c :: d.opened.tail }

/-- A call on the innermost document; `onFailure` is what remains if it returns false. -/
def call (d : JsonDocs) (f : Chain → Outcome)
    (onFailure : JsonDocs → JsonDocs × Option (List Bytes)) :
    Except JsonHalt (JsonDocs × Option (List Bytes)) :=
  match d.innermost with
  | none => .error .wild
  | some c =>
    match f c with
    | .ok c => .ok (d.replace c, none)
    | .failed c => .ok (onFailure (d.replace c))
    | .aborted => .error .aborted

/-- The loop of `_bson_json_read_append_dbpointer`, at most `fuel` turns. -/
def readDbpointer : Nat → BsonIter → Option Bytes → Option Bytes →
    Except (List Bytes) (Option Bytes × Option Bytes)
  | 0, _, ns, oid => .ok (ns, oid)
  | fuel + 1, it, ns, oid =>
    let (more, it) := bsonIterNext it
    if more = false then .ok (ns, oid)
    else
      let key := cText (it.pointer it.key)
      if key = ascii "$id" then
        match bsonIterOid it with
        | none => .error [ascii "$dbPointer.$id must be like \x7b\"$oid\": ...\"\x7d"]
        | some o => readDbpointer fuel it ns (some (it.pointer o))
      else if key = ascii "$ref" then
        match bsonIterUtf8 it with
        | none => .error [ascii "$dbPointer.$ref must be a string like \"db.collection\""]
        | some s => readDbpointer fuel it (some (it.pointer s.off)) oid
      else .error [ascii "$dbPointer contains invalid key: \"", key, ascii "\""]

/-- Collection and object id of a `$dbPointer` document. -/
def dbpointerOf (b : BsonRef) : Except (List Bytes) (Bytes × Bytes) :=
  match bsonIterInit b with
  | (false, _) => .error [ascii "Error storing DBPointer"]
  | (true, it) =>
    match readDbpointer b.len it none none with
    | .error message => .error message
    | .ok (some ns, some oid) => .ok (ns, oid)
    | .ok _ => .error [ascii "$dbPointer requires both $id and $ref"]

section Exec

variable (fresh : Nat → Mem)

/-- `bson_append_*`; a NULL key fails its `BSON_ASSERT`. -/
def append (d : JsonDocs) (key : Option Bytes) (keyLength : Int) (f : Field)
    (failure : Option (List Bytes)) : Except JsonHalt (JsonDocs × Option (List Bytes)) :=
  match key with
  | none => .error .aborted
  | some key => d.call (fun c => bsonAppendCall fresh c (.field key keyLength f)) fun d => (d, failure)

/-- One call of a callback: the documents behind it, and the message of the error it
sets. -/
def execCall (d : JsonDocs) : JsonDocOp → Except JsonHalt (JsonDocs × Option (List Bytes))
  | .append key keyLength f failure => d.append fresh key keyLength f failure
  | .appendBegin childType slot key keyLength =>
    match key with
    | none => .error .aborted
    | some key =>
      -- a child that was not begun is a `bson_t` nobody has initialised
      (d.setLeft slot .unusable).call (bsonAppendBegin fresh childType key keyLength) fun d =>
        ({ d with opened := none :: d.opened }, none)
  | .appendEnd => d.call bsonAppendBsonEnd fun d => (d, none)
  | .init slot =>
    .ok ({ d.setLeft slot .unusable with opened := some (bsonInit (fresh 0)) :: d.opened }, none)
  | .leave slot =>
    let left :=
      match d.innermost with
      | some c => JsonSlot.document c
      | none => .unusable
    .ok ({ d.setLeft slot left with opened := d.opened.tail }, none)
  | .appendCode key keyLength code scope =>
    match code, scope with
    | none, _ => .error .aborted
    | some code, none =>
      d.append fresh key keyLength (.codeWithScope code none)
        (some [ascii "Error storing Javascript code"])
    | some code, some slot =>
      match d.left slot with
      | .zeroed | .unusable => .error .wild
      | .document scope =>
        (d.setLeft slot .unusable).append fresh key keyLength (.codeWithScope code (some scope.ref))
          (some [ascii "Error storing Javascript code"])
  | .appendDbpointer slot key keyLength =>
    match d.left slot with
    | .unusable => .error .wild
    -- `bson_iter_init` returns false, the length is 0
    | .zeroed => .ok (d, some [ascii "Error storing DBPointer"])
    | .document pointer =>
      match dbpointerOf pointer.ref with
      | .error message => .ok (d, some message)
      | .ok (ns, oid) =>
        d.append fresh key keyLength (.dbpointer ns oid) (some [ascii "Error storing DBPointer"])

end Exec

/-- The state that the next call finds. -/
def counted (d : JsonDocs) : JsonDocs := { d with calls := d.calls + 1 }

section ExecAll

variable (fresh : Nat → Nat → Mem)

def exec (d : JsonDocs) (op : JsonDocOp) : Except JsonHalt (JsonDocs × Option (List Bytes)) :=
  d.counted.execCall (fresh d.calls) op

/-- The calls of a callback in order. -/
def execAll (d : JsonDocs) : List JsonDocOp → Except JsonHalt (JsonDocs × Option (List Bytes))
  | [] => .ok (d, none)
  | op :: ops =>
    match d.exec fresh op with
    | .error halt => .error halt
    | .ok (d, none) => d.execAll ops
    | .ok (d, some message) => .ok (d, some message)

end ExecAll

end JsonDocs

/-- The reader between two events. -/
structure JsonParse where
  docs : JsonDocs
  bson : JsonReaderBson

namespace JsonParse

section Run

variable (fresh : JsonHeap) (dec : JsonDecoders)

/-- One action of jsonsl. -/
def step (p : JsonParse) (e : JsonEvent) : Except JsonHalt JsonParse :=
  match p.bson.react fresh.buffer dec e with
  | .assertFailed => .error .assertFailed
  | .wild => .error .wild
  | .done s ops =>
    match p.docs.execAll fresh.document ops with
    | .error halt => .error halt
    | .ok (d, none) => .ok { docs := d, bson := s }
    | .ok (d, some message) => .ok { docs := d, bson := s.setError message }

/-- The actions up to the first error, which stops jsonsl. -/
def run (p : JsonParse) : List JsonEvent → Except JsonHalt JsonParse
  | [] => .ok p
  | e :: es =>
    match p.step fresh dec e with
    | .error halt => .error halt
    | .ok p => if p.bson.error.isSome then .ok p else p.run es

end Run

end JsonParse

end LibBson.Source
