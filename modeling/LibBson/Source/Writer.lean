import LibBson.Source.AppendExact

/-!
# bson_writer

A writer puts one document after the other into its caller's buffer. The
document being written is a chain of open documents over that buffer, at the
writer's offset. A step that does not come back, after a failed `BSON_ASSERT` or
a store through the `NULL` a `realloc_func` returned, has no result.
Source: bson-writer.c:22-271.
-/

set_option autoImplicit false

namespace LibBson.Source
open LibBson.Library

/-- `bson_writer_t` with `*buf` and `*buflen`. `b` is the innermost document that
is open in `writer->b` and those it is a child of; none while `writer->b` is zero. -/
structure BsonWriter where
  buf : Mem
  buflen : Nat
  offset : Nat
  realloc : Bool
  ready : Bool
  b : Option (Impl × List Impl)

def bsonWriterNew (buf : Mem) (buflen offset : Nat) (realloc : Bool) : BsonWriter :=
  { buf := buf, buflen := buflen, offset := offset, realloc := realloc, ready := true, b := none }

/-- The outermost of a chain of open documents. -/
def outermost : Impl → List Impl → Impl
  | bson, [] => bson
  | _, parent :: parents => outermost parent parents

namespace BsonWriter

/-- `writer->b.len` -/
def bLen (w : BsonWriter) : Nat :=
  match w.b with
  | none => 0
  | some (bson, parents) => (outermost bson parents).len

/-- `bson_writer_get_length` -/
def getLength (w : BsonWriter) : Nat := u64 (w.offset + w.bLen)

/-- The chain that appends work on. -/
def chain (w : BsonWriter) (bson : Impl) (parents : List Impl) : Chain :=
  .alloc w.buf w.buflen w.realloc bson parents

/-- What a call on the chain leaves in the writer. -/
def withChain (w : BsonWriter) : Chain → BsonWriter
  | .inline .. => w
  | .alloc buf buflen _ bson parents =>
    { w with buf := buf, buflen := buflen, b := some (bson, parents) }

/-- The loop of `bson_writer_begin`. From zero or any other size it takes at most
66 tests, unless the size wraps around and the loop never ends. -/
def doubleBuflen (need : Nat) : Nat → Nat → Option Nat
  | 0, _ => none
  | fuel + 1, buflen =>
    if need > buflen then doubleBuflen need fuel (if buflen = 0 then 64 else u64 (buflen * 2))
    else some buflen

/-- The stores of `bson_writer_begin`: five zeroes from the second octet on, then
the first octet. -/
def startDocument (w : BsonWriter) : BsonWriter :=
  { w with
    buf := (w.buf.write (w.offset + 1) [0, 0, 0, 0, 0]).write w.offset [5]
    ready := false
    b := some ({ len := 5, depth := 0, offset := w.offset }, []) }

section Steps

-- What `realloc_func` leaves in the part of a block that is not copied; no two blocks that a
-- writer asks for have one size.
variable (fresh : Nat → Mem)

/-- `bson_writer_begin`; `granted` says whether `realloc_func` gives a block. -/
def beginDocument (granted : Bool) (w : BsonWriter) : Option (Bool × BsonWriter) :=
  if !w.ready then none
  else
    let need := u64 (w.offset + 5)
    if need ≤ w.buflen then some (true, w.startDocument)
    else if !w.realloc then some (false, { w with ready := true, b := none })
    else
      match doubleBuflen need 66 w.buflen with
      | none => none
      | some buflen =>
        if granted then
          let buf := w.buf.copyPrefix (fresh buflen) w.buflen
          some (true, startDocument { w with buf := buf, buflen := buflen })
        else none

/-- `bson_writer_end` -/
def endDocument (w : BsonWriter) : Option BsonWriter :=
  if w.ready then none
  else some { w with offset := u64 (w.offset + w.bLen), b := none, ready := true }

/-- `bson_writer_rollback` -/
def rollback (w : BsonWriter) : BsonWriter := { w with b := none, ready := true }

end Steps

end BsonWriter

/-- `_bson_grow` calls `realloc` for this append. -/
def reallocates (fresh : Nat → Mem) (c : Chain) (s : Step) : Bool :=
  match stepArgs s with
  | none => false
  | some args =>
    match bsonGrow fresh args.nBytes c with
    | none => false
    | some c' => decide (args.nBytes ≤ u64sub bsonMaxSize c.bson.len ∧ c'.capacity ≠ c.capacity)

/-- The calls on a writer and on the document it has begun. -/
inductive WriterOp where
  | begin (granted : Bool)
  | append (s : Step) (granted : Bool)
  | «end»
  | rollback

section Runs

variable (fresh : Nat → Mem)

/-- What the call returned, true where it returns nothing, and the writer after it. -/
def BsonWriter.step (w : BsonWriter) : WriterOp → Option (Bool × BsonWriter)
  | .begin granted => w.beginDocument fresh granted
  | .append s granted =>
    match w.b with
    | none => none
    | some (bson, parents) =>
      if reallocates fresh (w.chain bson parents) s && !granted then none
      else
        match bsonStep fresh (w.chain bson parents) s with
        | .ok c => some (true, w.withChain c)
        | .failed c => some (false, w.withChain c)
        | .aborted => none
  | .end => w.endDocument.map fun w => (true, w)
  | .rollback => some (true, w.rollback)

def BsonWriter.run (w : BsonWriter) : List WriterOp → Option (List Bool × BsonWriter)
  | [] => some ([], w)
  | op :: ops =>
    match w.step fresh op with
    | none => none
    | some (ret, w) => (w.run ops).map fun (rets, last) => (ret :: rets, last)

end Runs

end LibBson.Source
