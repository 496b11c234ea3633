import LibBson.Source.Iter

/-!
# Readers of a stream of documents

Source: bson-reader.c:34-135, 161-183 (handle reader), 380-503, 525-624 (data
reader), 640-720. A handle is the list of the results its `read_func` has still
to give: octets, of which a call takes as many as there is room for, or an
error; no octets, and every call after the last result, are the end of the
stream. `bson_realloc` to size zero leaves no buffer, and what happens then is
the outcome `crash`, like a failed `BSON_ASSERT`.
-/

set_option autoImplicit false

namespace LibBson.Source
open LibBson.Library

inductive ReadResult where
  | octets (bs : Bytes)
  | error
  deriving DecidableEq

/-- `read_func (handle, buf, n)`; `none` is a negative return value. -/
def readFunc (n : Nat) : List ReadResult → Option Bytes × List ReadResult
  | [] => (some [], [])
  | .error :: rest => (none, rest)
  | .octets bs :: rest =>
    if bs.length ≤ n then (some bs, rest) else (some (bs.take n), .octets (bs.drop n) :: rest)

structure BsonReaderHandle where
  handle : List ReadResult
  done : Bool
  failed : Bool
  «end» : Nat
  len : Nat
  offset : Nat
  bytesRead : Nat
  data : Mem

namespace BsonReaderHandle

/-- The first read, with nothing in the buffer. -/
def firstRead (r : BsonReaderHandle) : BsonReaderHandle :=
  let (ret, handle) := readFunc r.len r.handle
  match ret with
  | none | some [] => { r with handle := handle, done := true }
  | some bs =>
    { r with
      handle := handle
      bytesRead := u64 (r.bytesRead + bs.length)
      «end» := bs.length
      data := r.data.write 0 bs }

/-- Move valid data to head. -/
def moveToHead (r : BsonReaderHandle) : BsonReaderHandle :=
  let kept := u64sub r.end r.offset
  { r with data := r.data.write 0 (r.data.slice r.offset kept), «end» := kept, offset := 0 }

/-- Read in data to fill the buffer. -/
def readMore (r : BsonReaderHandle) : BsonReaderHandle :=
  let (ret, handle) := readFunc (u64sub r.len r.end) r.handle
  match ret with
  | none => { r with handle := handle, done := true, failed := true }
  | some [] => { r with handle := handle, done := true, failed := false }
  | some bs =>
    { r with
      handle := handle
      bytesRead := u64 (r.bytesRead + bs.length)
      «end» := u64 (r.end + bs.length)
      data := r.data.write r.end bs }

/-- `_bson_reader_handle_fill_buffer`; `none` where a `BSON_ASSERT` fails. -/
def fillBuffer (r : BsonReaderHandle) : Option BsonReaderHandle :=
  if r.done = false ∧ r.offset = 0 ∧ r.end = 0 then some r.firstRead
  else
    let r := r.moveToHead.readMore
    if r.offset = 0 ∧ r.end ≤ r.len then some r else none

/-- `_bson_reader_handle_tell` -/
def tell (r : BsonReaderHandle) : Int := i64 r.bytesRead - i64 r.end + i64 r.offset

end BsonReaderHandle

/-- How a turn of the loop of `_bson_reader_handle_read` ends. -/
inductive Turn where
  | again (r : BsonReaderHandle)
  | done (bson : Option BsonRef) (reachedEof : Bool) (r : BsonReaderHandle)
  | crash

namespace BsonReaderHandle

section Read

-- What `bson_realloc` leaves in the new part of the buffer. The buffer doubles, so that its size
-- tells which block it is.
variable (fresh : Nat → Mem)

/-- `_bson_reader_handle_grow_buffer` -/
def growBuffer (r : BsonReaderHandle) : Option BsonReaderHandle :=
  let size := u64 (r.len * 2)
  if size = 0 then none
  else some { r with data := r.data.copyPrefix (fresh size) r.len, len := size }

/-- Fill the buffer and `continue`. -/
def refill (r : BsonReaderHandle) : Turn :=
  match r.fillBuffer with
  | none => .crash
  | some r => .again r

/-- `if (blen > (int32_t) reader->len) grow` in front of the refill. -/
def growAndRefill (blen : Int) (r : BsonReaderHandle) : Turn :=
  if blen > i32 r.len then
    match r.growBuffer fresh with
    | none => .crash
    | some r => r.refill
  else r.refill

/-- The loop condition, one pass through the body or the return behind the loop. -/
def turn (r : BsonReaderHandle) : Turn :=
  if r.done then .done none (r.done && !r.failed) r
  else if u64sub r.end r.offset < 4 then r.refill
  else
    let blen := i32 (r.data.le r.offset 4)
    if blen < 5 then .done none false r
    else if blen > i32 (u64sub r.end r.offset) then r.growAndRefill fresh blen
    else
      match bsonInitStatic (r.data.shift r.offset) (ofInt32 blen) with
      | none => .done none false r
      | some b => .done (some b) false { r with offset := u64 (r.offset + ofInt32 blen) }

def turns : Nat → BsonReaderHandle → Turn
  | 0, r => .again r
  | fuel + 1, r =>
    match r.turn fresh with
    | .again r => turns fuel r
    | stop => stop

/-- Results and octets still to be read. -/
def pending (handle : List ReadResult) : Nat :=
  (handle.map fun e => match e with | .octets bs => bs.length + 1 | .error => 1).sum

/-- `_bson_reader_handle_read`. A refill takes a pending octet or result, or it
ends the stream. -/
def read (r : BsonReaderHandle) : Turn := turns fresh (pending r.handle + 2) r

end Read

end BsonReaderHandle

/-- `bson_reader_new_from_handle` -/
def bsonReaderNewFromHandle (handle : List ReadResult) : Option BsonReaderHandle :=
  BsonReaderHandle.fillBuffer
    { handle := handle, done := false, failed := false, «end» := 0, len := 1024, offset := 0,
      bytesRead := 0, data := fun _ => 0 }

structure BsonReaderData where
  data : Mem
  length : Nat
  offset : Nat

namespace BsonReaderData

/-- `_bson_reader_data_read`: the document, `*reached_eof` and the reader. -/
def read (r : BsonReaderData) : Option BsonRef × Bool × BsonReaderData :=
  if u64 (r.offset + 4) < r.length then
    let blen := i32 (r.data.le r.offset 4)
    if blen < 5 then (none, false, r)
    else if blen > i32 (u64sub r.length r.offset) then (none, false, r)
    else
      match bsonInitStatic (r.data.shift r.offset) (ofInt32 blen) with
      | none => (none, false, r)
      | some b => (some b, false, { r with offset := u64 (r.offset + ofInt32 blen) })
  else (none, r.offset == r.length, r)

/-- `_bson_reader_data_tell` -/
def tell (r : BsonReaderData) : Int := i64 r.offset

end BsonReaderData

/-- `bson_reader_new_from_data` -/
def bsonReaderNewFromData (data : Bytes) : BsonReaderData :=
  { data := Mem.ofBytes data, length := data.length, offset := 0 }

/-- What a caller of `bson_reader_read` and `bson_reader_tell` sees: the octets of
the document, if there is one, `*reached_eof` and the offset. -/
structure Seen where
  bson : Option Bytes
  reachedEof : Bool
  tell : Int
  deriving DecidableEq

/-- The octets a `bson_t` returned by a reader addresses. -/
def BsonRef.octets (b : BsonRef) : Bytes := b.data.slice 0 b.len

/-- `k` calls on a handle reader; `none` when one does not return. -/
def BsonReaderHandle.reads (fresh : Nat → Mem) :
    Nat → BsonReaderHandle → Option (List Seen × BsonReaderHandle)
  | 0, r => some ([], r)
  | k + 1, r =>
    match r.read fresh with
    | .done b eof r =>
      (reads fresh k r).map fun (seen, last) => (⟨b.map BsonRef.octets, eof, r.tell⟩ :: seen, last)
    | _ => none

def BsonReaderData.reads : Nat → BsonReaderData → List Seen × BsonReaderData
  | 0, r => ([], r)
  | k + 1, r =>
    let (b, eof, r) := r.read
    let (seen, last) := reads k r
    (⟨b.map BsonRef.octets, eof, r.tell⟩ :: seen, last)

end LibBson.Source
