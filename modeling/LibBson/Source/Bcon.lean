import LibBson.Source.Buffer
import LibBson.Source.Oid
import LibBson.Library.Ascii

/-!
# Building a document from variable arguments

Source: bcon.c:28-76 (stack macros), 207-294 (`_bcon_append_single`), 440-570
(`_bcon_append_tokenize`), 705-820 (`_bson_concat_array`, `bcon_append_ctx_va`); bcon.h:30,
185-252. A pointer among the arguments is what it points to. The frames of the context hold
what the chain of open documents does not: whether a document is an array, and its next
index. The results of the appends are not looked at.
-/

set_option autoImplicit false

namespace LibBson.Source
open LibBson.Library

/-- `BCON_STACK_MAX` -/
def bconStackMax : Nat := 100

/-- `bcon_type_t` -/
inductive BconType where
  | utf8 | double | document | array | bin | undefined | oid | bool | dateTime | null | regex
  | dbpointer | code | symbol | codewscope | int32 | timestamp | int64 | decimal128 | maxkey
  | minkey | bcon | arrayStart | arrayEnd | docStart | docEnd | «end» | raw | skip | iter | error
  deriving DecidableEq

/-- One variable argument. A `char *` is NULL, one of the two magic strings or text. -/
inductive VaArg where
  | null
  | magic
  | magicE
  | str (s : Bytes)
  | type (t : BconType)
  | double (v : BitVec 64)
  | word (v : BitVec 32)
  | dword (v : BitVec 64)
  | subtype (v : UInt8)
  | data (v : Bytes)
  | oid (v : BsonOid)
  | decimal128 (low high : BitVec 64)
  | bson (v : BsonRef)
  | iter (v : BsonIter)
  | bsonType (v : BsonType)
  /-- The address of a variable of the caller. -/
  | out (x : Nat)

/-- `va_arg (*ap, char *)` -/
def VaArg.charPtr : VaArg → Option (Option Bytes)
  | .str s => some (some s)
  | .null => some none
  | _ => none

/-- `va_arg (*ap, bson_t *)` -/
def VaArg.bsonPtr : VaArg → Option (Option BsonRef)
  | .bson b => some (some b)
  | .null => some none
  | _ => none

/-- A type that `_bcon_append_tokenize` returns, with what it stores in `u` for it. -/
inductive BconToken where
  | utf8 (v : Option Bytes)
  | double (v : BitVec 64)
  | document (v : BsonRef)
  | array (v : BsonRef)
  | bin (subtype : UInt8) (binary : Bytes) (length : BitVec 32)
  | undefined
  | oid (v : BsonOid)
  | bool (v : Bool)
  | dateTime (v : BitVec 64)
  | null
  | regex (regex flags : Option Bytes)
  | dbpointer (collection : Bytes) (oid : BsonOid)
  | code (v : Bytes)
  | symbol (v : Option Bytes)
  | codewscope (js : Bytes) (scope : Option BsonRef)
  | int32 (v : BitVec 32)
  | timestamp (timestamp increment : BitVec 32)
  | int64 (v : BitVec 64)
  | decimal128 (low high : BitVec 64)
  | maxkey
  | minkey
  | bcon (v : BsonRef)
  | iter (v : BsonIter)
  | arrayStart
  | arrayEnd
  | docStart
  | docEnd
  | «end»

/-- The `switch` on the type behind `BCON_MAGIC`. A NULL where the append asserts that there
is none, and an argument of another type, end the call. -/
def bconAppendPayload : BconType → List VaArg → Option (BconToken × List VaArg)
  | .utf8, v :: ap => v.charPtr.map fun s => (.utf8 s, ap)
  | .double, .double v :: ap => some (.double v, ap)
  | .document, .bson v :: ap => some (.document v, ap)
  | .array, .bson v :: ap => some (.array v, ap)
  | .bin, .subtype subtype :: .data binary :: .word length :: ap =>
    some (.bin subtype binary length, ap)
  | .undefined, ap => some (.undefined, ap)
  | .oid, .oid v :: ap => some (.oid v, ap)
  | .bool, .word v :: ap => some (.bool (v != 0), ap)
  | .dateTime, .dword v :: ap => some (.dateTime v, ap)
  | .null, ap => some (.null, ap)
  | .regex, r :: f :: ap =>
    r.charPtr.bind fun regex => f.charPtr.map fun flags => (.regex regex flags, ap)
  | .dbpointer, .str collection :: .oid oid :: ap => some (.dbpointer collection oid, ap)
  | .code, .str v :: ap => some (.code v, ap)
  | .symbol, v :: ap => v.charPtr.map fun s => (.symbol s, ap)
  | .codewscope, .str js :: v :: ap => v.bsonPtr.map fun scope => (.codewscope js scope, ap)
  | .int32, .word v :: ap => some (.int32 v, ap)
  | .timestamp, .word timestamp :: .word increment :: ap =>
    some (.timestamp timestamp increment, ap)
  | .int64, .dword v :: ap => some (.int64 v, ap)
  | .decimal128, .decimal128 low high :: ap => some (.decimal128 low high, ap)
  | .maxkey, ap => some (.maxkey, ap)
  | .minkey, ap => some (.minkey, ap)
  | .bcon, .bson v :: ap => some (.bcon v, ap)
  | .iter, .iter v :: ap => some (.iter v, ap)
  | _, _ => none

/-- The `switch` on `mark[0]`. -/
def bconAppendMark (mark : Bytes) : BconToken :=
  match mark.headD 0 with
  | 123 => .docStart
  | 125 => .docEnd
  | 91 => .arrayStart
  | 93 => .arrayEnd
  | _ => .utf8 (some mark)

def bconAppendTokenize : List VaArg → Option (BconToken × List VaArg)
  | .null :: ap => some (.end, ap)
  | .magic :: .type t :: ap => bconAppendPayload t ap
  | .str mark :: ap => some (bconAppendMark mark, ap)
  | _ => none

/-- The value arguments of the append that `_bcon_append_single` makes. -/
def bconAppendField : BconToken → Option Field
  | .utf8 v => some (.utf8 v (-1))
  | .double v => some (.double v.toNat)
  | .bin subtype binary length => some (.binary subtype binary length.toNat)
  | .undefined => some .undefined
  | .oid v => some (.oid v.bytes)
  | .bool v => some (.bool v)
  | .dateTime v => some (.dateTime v.toInt)
  | .null => some .null
  | .regex regex flags => some (.regex regex flags)
  | .dbpointer collection oid => some (.dbpointer collection oid.bytes)
  | .code v => some (.code v)
  | .symbol v => some (.symbol v (-1))
  | .codewscope js scope => some (.codeWithScope js scope)
  | .int32 v => some (.int32 v.toInt)
  | .timestamp timestamp increment => some (.timestamp timestamp.toNat increment.toNat)
  | .int64 v => some (.int64 v.toInt)
  | .decimal128 low high => some (.decimal128 low.toNat high.toNat)
  | .maxkey => some .maxkey
  | .minkey => some .minkey
  | .array v => some (.array v)
  | .document v => some (.document v)
  | .iter _ | .bcon _ | .arrayStart | .arrayEnd | .docStart | .docEnd | .end => none

/-- `_bcon_append_single`. Only `bson_append_iter` takes a NULL key; another append and a
token that is no value fail an assertion. -/
def bconAppendSingle (key : Option Bytes) : BconToken → Option AppendCall
  | .iter v => some (.iter key (-1) v)
  | token => key.bind fun key => (bconAppendField token).map fun f => .field key (-1) f

/-- `i` and `is_array` of a `bcon_append_ctx_frame_t`. -/
structure BconFrame where
  i : Nat
  isArray : Bool

/-- `bcon_append_ctx_t`: the frame on top and those below it, from the inside out. Their
number is `n`. -/
structure BconAppendCtx where
  top : BconFrame
  below : List BconFrame

/-- `bcon_append_ctx_init` -/
def bconAppendCtxInit : BconAppendCtx := { top := { i := 0, isArray := false }, below := [] }

section Append

variable (fresh : Nat → Mem)

/-- A call whose result is not looked at. The child of a begin that fails is not set up. -/
def bconCall (bson : Chain) (s : Step) : Option Chain :=
  match bsonStep fresh bson s, s with
  | .ok bson, _ => some bson
  | .failed bson, .append _ => some bson
  | _, _ => none

/-- The `while` loop of `_bson_concat_array`. -/
def bsonConcatArrayLoop : Nat → BsonIter → Nat → Chain → Option (Nat × Chain)
  | 0, _, i, dest => some (i, dest)
  | fuel + 1, iter, i, dest =>
    let (more, iter) := bsonIterNext iter
    if more then
      match bconCall fresh dest (.append (.iter (some (decimal (u32 i))) (-1) iter)) with
      | none => none
      | some dest => bsonConcatArrayLoop fuel iter (i + 1) dest
    else some (i, dest)

/-- `_bson_concat_array`, with `STACK_I` for the context. -/
def bsonConcatArray (dest : Chain) (src : BsonRef) (i : Nat) : Option (Nat × Chain) :=
  match bsonIterInit src with
  | (false, _) => some (i, dest)
  | (true, iter) => bsonConcatArrayLoop fresh (iter.len + 1) iter (i - 1) dest

/-- What one turn of the loop of `bcon_append_ctx_va` leaves. -/
inductive BconTurn where
  | again (ctx : BconAppendCtx) (bson : Chain) (ap : List VaArg)
  | done (ctx : BconAppendCtx) (bson : Chain) (ap : List VaArg)
  | aborted

/-- The next turn, behind a call that left `bson`. -/
def BconTurn.behind (ctx : BconAppendCtx) (ap : List VaArg) : Option Chain → BconTurn
  | none => .aborted
  | some bson => .again ctx bson ap

/-- `STACK_PUSH_DOC` and `STACK_PUSH_ARRAY`. The index of a document's frame is not used. -/
def bconPush (isArray : Bool) (key : Option Bytes) (ctx : BconAppendCtx) (bson : Chain)
    (ap : List VaArg) : BconTurn :=
  match key with
  | none => .aborted
  | some key =>
    if ctx.below.length < bconStackMax - 1 then
      .behind { top := { i := 0, isArray := isArray }, below := ctx.top :: ctx.below } ap
        (bconCall fresh bson (if isArray then .arrayBegin key (-1) else .documentBegin key (-1)))
    else .aborted

/-- `STACK_POP_DOC` and `STACK_POP_ARRAY` -/
def bconPop (isArray : Bool) (ctx : BconAppendCtx) (bson : Chain) (ap : List VaArg) : BconTurn :=
  if ctx.top.isArray = isArray then
    match ctx.below with
    | [] => .aborted
    | frame :: below => .behind { top := frame, below := below } ap (bconCall fresh bson .end)
  else .aborted

/-- The turn behind the key: one more token, and what it asks for. -/
def bconAppendValue (key : Option Bytes) (ctx : BconAppendCtx) (bson : Chain) (ap : List VaArg) :
    BconTurn :=
  match bconAppendTokenize ap with
  | none | some (.end, _) => .aborted
  | some (.bcon v, ap) =>
    if ctx.top.isArray then
      match bsonConcatArray fresh bson v ctx.top.i with
      | none => .aborted
      | some (i, bson) => .again { ctx with top := { ctx.top with i := i } } bson ap
    else .aborted
  | some (.docStart, ap) => bconPush fresh false key ctx bson ap
  | some (.docEnd, ap) => bconPop fresh false ctx bson ap
  | some (.arrayStart, ap) => bconPush fresh true key ctx bson ap
  | some (.arrayEnd, ap) => bconPop fresh true ctx bson ap
  | some (token, ap) =>
    match bconAppendSingle key token with
    | none => .aborted
    | some call => .behind ctx ap (bconCall fresh bson (.append call))

/-- One turn of the loop of `bcon_append_ctx_va`. -/
def bconAppendTurn (ctx : BconAppendCtx) (bson : Chain) (ap : List VaArg) : BconTurn :=
  if ctx.top.isArray then
    bconAppendValue fresh (some (decimal (u32 ctx.top.i)))
      { ctx with top := { ctx.top with i := ctx.top.i + 1 } } bson ap
  else
    match bconAppendTokenize ap with
    | some (.end, ap) => .done ctx bson ap
    | some (.docEnd, ap) => bconPop fresh false ctx bson ap
    | some (.bcon v, ap) => .behind ctx ap (bconCall fresh bson (.append (.concat v)))
    | some (.utf8 key, ap) => bconAppendValue fresh key ctx bson ap
    | _ => .aborted

def bconAppendLoop : Nat → BconAppendCtx → Chain → List VaArg →
    Option (BconAppendCtx × Chain × List VaArg)
  | 0, _, _, _ => none
  | fuel + 1, ctx, bson, ap =>
    match bconAppendTurn fresh ctx bson ap with
    | .again ctx bson ap => bconAppendLoop fuel ctx bson ap
    | .done ctx bson ap => some (ctx, bson, ap)
    | .aborted => none

/-- Every turn takes an argument, so there are turns enough. -/
def bconAppendCtxVa (bson : Chain) (ctx : BconAppendCtx) (ap : List VaArg) :
    Option (BconAppendCtx × Chain × List VaArg) :=
  bconAppendLoop fresh (ap.length + 1) ctx bson ap

end Append

end LibBson.Source
