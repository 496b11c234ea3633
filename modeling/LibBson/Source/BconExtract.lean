import LibBson.Source.Bcon
import LibBson.Source.IterFind

/-!
# Taking a document apart with variable arguments

Source: bcon.c:28-76 (stack macros), 316-454 (`_bcon_extract_single`), 588-702
(`_bcon_extract_tokenize`), 844-946 (`bcon_extract_ctx_va`, `bcon_extract`); bcon.h:119-181.
The variables of the caller are told by their addresses, what is stored in them by the list
of the stores. A pointer into the document is the memory it sees.
-/

set_option autoImplicit false

namespace LibBson.Source
open LibBson.Library

/-- The value of a variable. A `double` is its 64 bits. -/
inductive BconOut where
  /-- `const char *`, `const uint8_t *` or `const bson_oid_t *` -/
  | pointer (p : Option Mem)
  | double (v : Nat)
  | bson (v : BsonRef)
  | subtype (v : UInt8)
  | uint32 (v : Nat)
  | bool (v : Bool)
  | int32 (v : Int)
  | int64 (v : Int)
  | decimal128 (low high : Nat)
  | iter (v : BsonIter)

abbrev BconStores := List (Nat × BconOut)

/-- `bcon_extract_t` for a value, with its type. -/
inductive BconExtractU where
  | utf8 (x : Nat)
  | double (x : Nat)
  | document (x : Nat)
  | array (x : Nat)
  | bin (subtype binary length : Nat)
  | undefined
  | oid (x : Nat)
  | bool (x : Nat)
  | dateTime (x : Nat)
  | null
  | regex (regex flags : Nat)
  | dbpointer (collection oid : Nat)
  | code (x : Nat)
  | symbol (x : Nat)
  | codewscope (js scope : Nat)
  | int32 (x : Nat)
  | timestamp (timestamp increment : Nat)
  | int64 (x : Nat)
  | decimal128 (x : Nat)
  | maxkey
  | minkey
  | skip (type : BsonType)
  | iter (x : Nat)

/-- What `_bcon_extract_tokenize` returns, with what it stores in `u` for it. -/
inductive BconExtractToken where
  | value (u : BconExtractU)
  | raw (key : Bytes)
  | arrayStart
  | arrayEnd
  | docStart
  | docEnd
  | «end»

/-- The `switch` on the type behind `BCONE_MAGIC`. An argument that is no address ends the
call. -/
def bconExtractPayload : BconType → List VaArg → Option (BconExtractU × List VaArg)
  | .utf8, .out x :: ap => some (.utf8 x, ap)
  | .double, .out x :: ap => some (.double x, ap)
  | .document, .out x :: ap => some (.document x, ap)
  | .array, .out x :: ap => some (.array x, ap)
  | .bin, .out subtype :: .out binary :: .out length :: ap => some (.bin subtype binary length, ap)
  | .undefined, ap => some (.undefined, ap)
  | .oid, .out x :: ap => some (.oid x, ap)
  | .bool, .out x :: ap => some (.bool x, ap)
  | .dateTime, .out x :: ap => some (.dateTime x, ap)
  | .null, ap => some (.null, ap)
  | .regex, .out regex :: .out flags :: ap => some (.regex regex flags, ap)
  | .dbpointer, .out collection :: .out oid :: ap => some (.dbpointer collection oid, ap)
  | .code, .out x :: ap => some (.code x, ap)
  | .symbol, .out x :: ap => some (.symbol x, ap)
  | .codewscope, .out js :: .out scope :: ap => some (.codewscope js scope, ap)
  | .int32, .out x :: ap => some (.int32 x, ap)
  | .timestamp, .out timestamp :: .out increment :: ap => some (.timestamp timestamp increment, ap)
  | .int64, .out x :: ap => some (.int64 x, ap)
  | .decimal128, .out x :: ap => some (.decimal128 x, ap)
  | .maxkey, ap => some (.maxkey, ap)
  | .minkey, ap => some (.minkey, ap)
  | .skip, .bsonType t :: ap => some (.skip t, ap)
  | .iter, .out x :: ap => some (.iter x, ap)
  | _, _ => none

/-- The `switch` on `mark[0]`. -/
def bconExtractMark (mark : Bytes) : BconExtractToken :=
  match mark.headD 0 with
  | 123 => .docStart
  | 125 => .docEnd
  | 91 => .arrayStart
  | 93 => .arrayEnd
  | _ => .raw mark

def bconExtractTokenize : List VaArg → Option (BconExtractToken × List VaArg)
  | .null :: ap => some (.end, ap)
  | .magicE :: .type t :: ap => (bconExtractPayload t ap).map fun r => (.value r.1, r.2)
  | .str mark :: ap => some (bconExtractMark mark, ap)
  | _ => none

/-- The type that `CHECK_TYPE` asks for. -/
def BconExtractU.wants : BconExtractU → Option BsonType
  | .utf8 _ => some .utf8
  | .double _ => some .double
  | .document _ => some .document
  | .array _ => some .array
  | .bin .. => some .binary
  | .undefined => some .undefined
  | .oid _ => some .oid
  | .bool _ => some .bool
  | .dateTime _ => some .dateTime
  | .null => some .null
  | .regex .. => some .regex
  | .dbpointer .. => some .dbpointer
  | .code _ => some .code
  | .symbol _ => some .symbol
  | .codewscope .. => some .codewscope
  | .int32 _ => some .int32
  | .timestamp .. => some .timestamp
  | .int64 _ => some .int64
  | .decimal128 _ => some .decimal128
  | .maxkey => some .maxkey
  | .minkey => some .minkey
  | .skip t => some t
  | .iter _ => none

namespace BsonIter

/-- A pointer to offset `o` of `iter->raw`. -/
def ptr (it : BsonIter) (o : Nat) : BconOut := .pointer (some (it.mem.shift o))

/-- What an accessor that returns a string stores. -/
def text (it : BsonIter) (s : Option Slice) : BconOut :=
  .pointer (s.map fun p => it.mem.shift p.off)

/-- `bson_init_static (x, buf, len)`, which leaves `x` alone where it fails. -/
def static (it : BsonIter) (x : Nat) (p : Slice) : BconStores :=
  match bsonInitStatic (it.mem.shift p.off) p.len with
  | some b => [(x, .bson b)]
  | none => []

end BsonIter

/-- The stores of `_bcon_extract_single` behind its `CHECK_TYPE`. -/
def bconExtractStores (it : BsonIter) : BconExtractU → BconStores
  | .utf8 x => [(x, it.text (bsonIterUtf8 it))]
  | .double x => [(x, .double (bsonIterDouble it))]
  | .bin subtype binary length =>
    match bsonIterBinary it with
    | some (t, p) => [(subtype, .subtype t), (length, .uint32 p.len), (binary, it.ptr p.off)]
    | none => [(binary, .pointer none), (length, .uint32 0), (subtype, .subtype 0)]
  | .undefined | .null | .maxkey | .minkey => []
  | .oid x => [(x, .pointer ((bsonIterOid it).map it.mem.shift))]
  | .bool x => [(x, .bool (bsonIterBool it))]
  | .dateTime x => [(x, .int64 (bsonIterDateTime it))]
  | .regex regex flags =>
    [(flags, .pointer ((bsonIterRegex it).map fun r => it.mem.shift r.2)),
      (regex, .pointer ((bsonIterRegex it).map fun r => it.mem.shift r.1))]
  | .dbpointer collection oid =>
    [(collection, .pointer ((bsonIterDbpointer it).map fun r => it.mem.shift r.1.off)),
      (oid, .pointer ((bsonIterDbpointer it).map fun r => it.mem.shift r.2))]
  | .code x => [(x, it.text (bsonIterCode it))]
  | .symbol x => [(x, it.text (bsonIterSymbol it))]
  | .codewscope js scope =>
    (js, it.text ((bsonIterCodewscope it).map Prod.fst)) ::
      ((bsonIterCodewscope it).map fun r => it.static scope r.2).getD []
  | .int32 x => [(x, .int32 (bsonIterInt32 it))]
  | .timestamp timestamp increment =>
    [(timestamp, .uint32 (bsonIterTimestamp it).1), (increment, .uint32 (bsonIterTimestamp it).2)]
  | .int64 x => [(x, .int64 (bsonIterInt64 it))]
  | .decimal128 x =>
    match bsonIterDecimal128 it with
    | some (low, high) => [(x, .decimal128 low high)]
    | none => []
  | .array x => ((bsonIterArray it).map (it.static x)).getD []
  | .document x => ((bsonIterDocument it).map (it.static x)).getD []
  | .skip _ => []
  | .iter x => [(x, .iter it)]

/-- `_bcon_extract_single`: the stores, or nothing where it returns false. -/
def bconExtractSingle (it : BsonIter) (u : BconExtractU) : Option BconStores :=
  if u.wants = none ∨ iterType it = u.wants then some (bconExtractStores it u) else none

/-- `bcon_extract_ctx_frame_t` -/
structure BconExtractFrame where
  i : Nat
  isArray : Bool
  iter : BsonIter

/-- `bcon_extract_ctx_t`: the frame on top and those below it, from the inside out. Their
number is `n`. -/
structure BconExtractCtx where
  top : BconExtractFrame
  below : List BconExtractFrame

/-- `bcon_extract_ctx_init`. The iterator of the outermost frame is not used. -/
def bconExtractCtxInit : BconExtractCtx :=
  { top := { i := 0, isArray := false, iter := BsonIter.zeroed }, below := [] }

/-- `STACK_ITER_CHILD` -/
def BconExtractCtx.child (ctx : BconExtractCtx) (root : BsonIter) : BsonIter :=
  if ctx.below = [] then root else ctx.top.iter

/-- What one turn of the loop of `bcon_extract_ctx_va` leaves. -/
inductive BconExtractTurn where
  | again (ctx : BconExtractCtx) (stores : BconStores) (ap : List VaArg)
  | returned (r : Bool) (ctx : BconExtractCtx) (stores : BconStores) (ap : List VaArg)
  | aborted

/-- `STACK_PUSH_DOC` and `STACK_PUSH_ARRAY` around `bson_iter_recurse`, whose result is not
looked at. The child of a recursion that fails is not set up. -/
def bconExtractPush (isArray : Bool) (it : BsonIter) (ctx : BconExtractCtx) (stores : BconStores)
    (ap : List VaArg) : BconExtractTurn :=
  if ctx.below.length < bconStackMax - 1 then
    match bsonIterRecurse it with
    | some child =>
      .again { top := { i := 0, isArray := isArray, iter := child }, below := ctx.top :: ctx.below }
        stores ap
    | none => .aborted
  else .aborted

/-- `STACK_POP_DOC` and `STACK_POP_ARRAY` -/
def bconExtractPop (isArray : Bool) (ctx : BconExtractCtx) (stores : BconStores) (ap : List VaArg) :
    BconExtractTurn :=
  if ctx.top.isArray = isArray then
    match ctx.below with
    | [] => .aborted
    | frame :: below => .again { top := frame, below := below } stores ap
  else .aborted

section Extract

variable (root : BsonIter)

/-- The turn behind the key: one more token, and what it asks for. -/
def bconExtractValue (key : Bytes) (ctx : BconExtractCtx) (stores : BconStores) (ap : List VaArg) :
    BconExtractTurn :=
  match bconExtractTokenize ap with
  | none | some (.end, _) => .aborted
  | some (.docEnd, ap) => bconExtractPop false ctx stores ap
  | some (.arrayEnd, ap) => bconExtractPop true ctx stores ap
  | some (token, ap) =>
    let (found, it) := bsonIterFind (ctx.child root) key
    if found then
      match token with
      | .docStart =>
        if iterType it = some .document then bconExtractPush false it ctx stores ap
        else .returned false ctx stores ap
      | .arrayStart =>
        if iterType it = some .array then bconExtractPush true it ctx stores ap
        else .returned false ctx stores ap
      | .value u =>
        match bconExtractSingle it u with
        | some new => .again ctx (stores ++ new) ap
        | none => .returned false ctx stores ap
      | _ => .aborted
    else .returned false ctx stores ap

/-- One turn of the loop of `bcon_extract_ctx_va`. -/
def bconExtractTurn (ctx : BconExtractCtx) (stores : BconStores) (ap : List VaArg) :
    BconExtractTurn :=
  if ctx.top.isArray then
    bconExtractValue root (decimal (u32 ctx.top.i))
      { ctx with top := { ctx.top with i := ctx.top.i + 1 } } stores ap
  else
    match bconExtractTokenize ap with
    | some (.end, ap) => .returned true ctx stores ap
    | some (.docEnd, ap) => bconExtractPop false ctx stores ap
    | some (.raw key, ap) => bconExtractValue root (cText key) ctx stores ap
    | _ => .aborted

def bconExtractLoop : Nat → BconExtractCtx → BconStores → List VaArg →
    Option (Bool × BconExtractCtx × BconStores × List VaArg)
  | 0, _, _, _ => none
  | fuel + 1, ctx, stores, ap =>
    match bconExtractTurn root ctx stores ap with
    | .again ctx stores ap => bconExtractLoop fuel ctx stores ap
    | .returned r ctx stores ap => some (r, ctx, stores, ap)
    | .aborted => none

end Extract

/-- `bcon_extract_ctx_va`: what it returns, the context, the stores and the arguments left,
or nothing where an assertion fails. Every turn takes an argument, so there are turns
enough. -/
def bconExtractCtxVa (bson : BsonRef) (ctx : BconExtractCtx) (ap : List VaArg) :
    Option (Bool × BconExtractCtx × BconStores × List VaArg) :=
  bconExtractLoop (bsonIterInit bson).2 (ap.length + 1) ctx [] ap

/-- `bcon_extract`: what it returns, and the stores. -/
def bconExtract (bson : BsonRef) (ap : List VaArg) : Option (Bool × BconStores) :=
  (bconExtractCtxVa bson bconExtractCtxInit ap).map fun r => (r.1, r.2.2.1)

end LibBson.Source
