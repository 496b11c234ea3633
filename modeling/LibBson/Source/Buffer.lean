import LibBson.Source.AppendArgs
import LibBson.Library.PowerOfTwo

/-!
# The chain of open documents and its buffer

Source: bson.c:84-186 (`_bson_grow`), 268-408 (`_bson_append`), 433-565
(`_bson_append_bson_begin`, `_bson_append_bson_end`), 1961-1975 (`bson_init`);
bson-private.h:54-97. A `bson_t` without open children is the innermost of a
chain: an inline document with its own 120 octets, or a heap document whose
parents, if any, share its buffer. `BSON_ASSERT` on the flags `IN_CHILD` and
`CHILD` is the position in the chain. Octets past the end of a buffer have a
value, so that a write there is seen by what reads it.
-/

set_option autoImplicit false

namespace LibBson.Source
open LibBson.Library

/-- `BSON_INLINE_DATA_SIZE` -/
abbrev bsonInlineDataSize : Nat := 120

/-- `BSON_MAX_SIZE` -/
def bsonMaxSize : Nat := 2147483647

def int32Max : Nat := 2147483647

/-- The fields of a `bson_impl_alloc_t` that differ along a chain. -/
structure Impl where
  len : Nat
  depth : Nat
  offset : Nat

inductive Chain where
  /-- `bson_impl_inline_t`: `data` and `len`. -/
  | inline (data : Mem) (len : Nat)
  /-- `*buf`, `*buflen` and whether `realloc` is set; the innermost open document
  and the documents it is a child of, from the inside out. -/
  | alloc (buf : Mem) (buflen : Nat) (realloc : Bool) (bson : Impl) (parents : List Impl)

namespace Chain

abbrev buf : Chain → Mem
  | inline data _ => data
  | alloc buf .. => buf

abbrev capacity : Chain → Nat
  | inline .. => bsonInlineDataSize
  | alloc _ buflen .. => buflen

abbrev bson : Chain → Impl
  | inline _ len => { len := len, depth := 0, offset := 0 }
  | alloc _ _ _ bson _ => bson

abbrev parents : Chain → List Impl
  | inline .. => []
  | alloc _ _ _ _ parents => parents

abbrev isInline : Chain → Bool
  | inline .. => true
  | alloc .. => false

/-- The innermost document after stores to the buffer and to `bson->len`. -/
def update (buf : Mem) (len : Nat) : Chain → Chain
  | inline _ _ => inline buf len
  | alloc _ buflen realloc bson parents => alloc buf buflen realloc { bson with len := len } parents

/-- What a reader of the innermost document sees. -/
def ref (c : Chain) : BsonRef := { data := c.buf.shift c.bson.offset, len := c.bson.len }

end Chain

/-- `bson_init` -/
def bsonInit (data : Mem) : Chain := .inline (data.write 0 [5, 0, 0, 0, 0]) 5

section Grow

-- What `malloc` and `realloc` leave in the part of a block that is not copied. A document moves
-- to larger blocks only, so that the size tells which of its blocks it is.
variable (fresh : Nat → Mem)

def bsonImplInlineGrow (data : Mem) (len size : Nat) : Option Chain :=
  if len + size ≤ bsonInlineDataSize then some (.inline data len)
  else
    let req := nextPowerOfTwo (u64 (len + size))
    if req ≤ int32Max then
      some (.alloc (data.copyPrefix (fresh req) len) req true
        { len := len, depth := 0, offset := 0 } [])
    else none

def bsonImplAllocGrow (buf : Mem) (buflen : Nat) (realloc : Bool) (bson : Impl)
    (parents : List Impl) (size : Nat) : Option Chain :=
  let req := u64 (bson.offset + bson.len + size + bson.depth)
  if req ≤ buflen then some (.alloc buf buflen realloc bson parents)
  else
    let req := nextPowerOfTwo req
    if req ≤ int32Max ∧ realloc = true then
      some (.alloc (buf.copyPrefix (fresh req) buflen) req realloc bson parents)
    else none

def bsonGrow (size : Nat) : Chain → Option Chain
  | .inline data len => bsonImplInlineGrow fresh data len size
  | .alloc buf buflen realloc bson parents =>
    bsonImplAllocGrow fresh buf buflen realloc bson parents size

end Grow

/-- The `do` loop of `_bson_append_va`: each pair is copied to `buf`, which moves on. -/
def appendPairs (buf : Nat) : List (Nat × Bytes) → List (Nat × Bytes)
  | [] => []
  | (len, data) :: rest => (buf, copied data len) :: appendPairs (buf + len) rest

/-- The octets the pairs add up to. -/
def pairsLength (pairs : List (Nat × Bytes)) : Nat := (pairs.map Prod.fst).sum

def AppendArgs.used (args : AppendArgs) : List (Nat × Bytes) := args.pairs.take args.nPairs

def AppendArgs.size (args : AppendArgs) : Nat := pairsLength args.used

/-- `bson->len` after the loop. -/
def appendedLen (bson : Impl) (args : AppendArgs) : Nat := u32 (bson.len + args.size)

/-- The stores of `_bson_append_va` in order: the pairs, the length word, the NUL. -/
def appendStores (bson : Impl) (args : AppendArgs) : List (Nat × Bytes) :=
  appendPairs (bson.offset + bson.len - 1) args.used ++
    [(bson.offset, leBytes 4 (appendedLen bson args)),
      (bson.offset + bson.len - 1 + args.size, [0])]

def runStores (m : Mem) (stores : List (Nat × Bytes)) : Mem :=
  stores.foldl (fun m s => m.write s.1 s.2) m

/-- `_bson_append_va` after `_bson_grow`. -/
def appendVa (c : Chain) (args : AppendArgs) : Chain :=
  c.update (runStores c.buf (appendStores c.bson args)) (appendedLen c.bson args)

/-- How a call that changes a document ends: it returns true or false, or a
`BSON_ASSERT` fails. -/
inductive Outcome where
  | ok (c : Chain)
  | failed (c : Chain)
  | aborted

section Append

variable (fresh : Nat → Mem)

def bsonAppendInternal (c : Chain) (args : AppendArgs) : Outcome :=
  if args.nBytes > u64sub bsonMaxSize c.bson.len then .failed c
  else
    match bsonGrow fresh args.nBytes c with
    | none => .failed c
    | some c => .ok (appendVa c args)

def bsonAppendCall (c : Chain) (call : AppendCall) : Outcome :=
  match call.request with
  | .append args => bsonAppendInternal fresh c args
  | .done true => .ok c
  | .done false => .failed c

/-- Make the empty document just appended the innermost open document. -/
def openChild : Chain → Outcome
  | .inline .. => .aborted
  | .alloc buf buflen realloc bson parents =>
    .ok (.alloc buf buflen realloc
      { len := 5, depth := if parents = [] then 1 else bson.depth + 1,
        offset := bson.offset + bson.len - 1 - 5 } (bson :: parents))

/-- An inline parent is moved to the heap before its child shares the buffer. -/
def bsonAppendBegin (childType : BsonType) (key : Bytes) (keyLength : Int) (c : Chain) : Outcome :=
  let append (c : Chain) : Outcome :=
    match bsonAppendInternal fresh c (bsonAppendBsonBegin childType key keyLength) with
    | .ok c => openChild c
    | .failed c => .failed c
    | .aborted => .aborted
  if c.isInline then
    if c.bson.len > 120 then .aborted
    else
      match bsonGrow fresh (u32sub 128 c.bson.len) c with
      | none => .failed c
      | some c => if c.isInline then .aborted else append c
  else append c

/-- `bson_append_document_end` and `bson_append_array_end`. -/
def bsonAppendBsonEnd : Chain → Outcome
  | .inline .. => .aborted
  | .alloc _ _ _ _ [] => .aborted
  | .alloc buf buflen realloc child (bson :: parents) =>
    let len := u32 (u32sub (bson.len + child.len) 5)
    let buf := runStores buf [(bson.offset + len - 1, [0]), (bson.offset, leBytes 4 len)]
    .ok (.alloc buf buflen realloc { bson with len := len } parents)

/-- The calls a caller makes on the innermost open document. -/
inductive Step where
  | append (call : AppendCall)
  | documentBegin (key : Bytes) (keyLength : Int)
  | arrayBegin (key : Bytes) (keyLength : Int)
  | «end»

def bsonStep (c : Chain) : Step → Outcome
  | .append call => bsonAppendCall fresh c call
  | .documentBegin key keyLength => bsonAppendBegin fresh .document key keyLength c
  | .arrayBegin key keyLength => bsonAppendBegin fresh .array key keyLength c
  | .end => bsonAppendBsonEnd c

/-- A run goes on as long as the calls return true. -/
def bsonSteps (c : Chain) : List Step → Outcome
  | [] => .ok c
  | s :: rest =>
    match bsonStep fresh c s with
    | .ok c => bsonSteps c rest
    | stop => stop

end Append

end LibBson.Source
