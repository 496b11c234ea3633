import LibBson.Library.BigEndian

/-!
# ObjectIds of one context

`bson_oid_init` reads the clock when it begins and the counter when it ends;
between the two, other threads begin and end calls of their own and time goes
on. A `Generator` is a context with the wall clock, the calls in flight and
what was made so far; an `Event` is one step of one party.
Source: bson-oid.c:142-171, bson-context.c:49-361, bson-atomic.h:30-52.
-/

set_option autoImplicit false

namespace LibBson.Source
open LibBson.Library

/-- `bson_oid_t`. -/
structure BsonOid where
  bytes : Bytes
  size : bytes.length = 12
  deriving DecidableEq

/-- `bson_oid_compare`: `memcmp` over the whole struct. -/
def bsonOidCompare (oid1 oid2 : BsonOid) : Int := memcmp oid1.bytes oid2.bytes

/-- A buffer of known size. -/
abbrev Octets (n : Nat) := { bs : Bytes // bs.length = n }

def octetsBE (n x : Nat) : Octets n := ⟨beBytes n x, beBytes_length n x⟩

/-- The bits of `bson_context_flags_t` this code reads. -/
structure BsonContextFlags where
  threadSafe : Bool
  disableHostCache : Bool
  disablePidCache : Bool
  useTaskId : Bool

/-- `bson_context_t`, its function pointers as the flags that chose them. -/
structure BsonContext where
  flags : BsonContextFlags
  md5 : Octets 3
  pidbe : Octets 2
  seq32 : UInt32

/-- What the system answers: `digest` the first octets of the MD5 of
`gethostname`, `pid` the low half of `getpid`. -/
structure Identity where
  digest : Octets 3
  pid : UInt16
  deriving DecidableEq

/-- `_bson_context_init`. A cache that is switched off is left as it was. -/
def bsonContextInit (context : BsonContext) (flags : BsonContextFlags) (rand : UInt32)
    (host : Identity) (tid : UInt16) : BsonContext :=
  { flags
    seq32 := rand &&& 0x007FFFF0
    md5 := if flags.disableHostCache then context.md5 else host.digest
    pidbe :=
      if flags.disablePidCache then context.pidbe
      else octetsBE 2 (if flags.useTaskId then tid else host.pid).toNat }

/-- `oid_get_host`, then `oid_get_pid`. -/
def BsonContext.getHostPid (context : BsonContext) (host : Identity) : Octets 3 × Octets 2 :=
  (if context.flags.disableHostCache then host.digest else context.md5,
    if context.flags.disablePidCache then octetsBE 2 host.pid.toNat else context.pidbe)

/-- The counter value an OID gets: the atomic addition returns the new one,
`seq32++` the old one. -/
def BsonContext.seq (context : BsonContext) : UInt32 :=
  if context.flags.threadSafe then context.seq32 + 1 else context.seq32

/-- The three octets `oid_get_seq32` copies, from the second of the word. -/
def seqOctets (seq : UInt32) : Octets 3 :=
  ⟨(beBytes 4 seq.toNat).drop 1, by simp⟩

/-- What `bson_oid_init` has written when it returns. -/
def bsonOidInit (context : BsonContext) (now : UInt32) (host : Identity) : BsonOid :=
  let (digest, pid) := context.getHostPid host
  { bytes := beBytes 4 now.toNat ++ digest.1 ++ pid.1 ++ (seqOctets context.seq).1
    size := by simp [digest.2, pid.2, (seqOctets context.seq).2] }

/-- A call between its clock read and its return. `begun` counts the OIDs that
were made when it started. -/
structure OidCall where
  now : UInt32
  begun : Nat

structure MadeOid where
  oid : BsonOid
  begun : Nat

structure Generator where
  context : BsonContext
  clock : Nat
  calls : List (Nat × OidCall)
  made : List MadeOid

/-- `finish` draws the counter and ends the call. The call really returns some
time after, so whatever had returned before another call started is finished
here before that call begins. -/
inductive OidEvent
  | tick (later : Nat)
  | begin (thread : Nat)
  | finish (thread : Nat) (host : Identity)

/-- One step. The clock does not go back, a thread makes one call at a time, and
a context without `BSON_CONTEXT_THREAD_SAFE` is used by one thread at a time. -/
def Generator.step (g : Generator) : OidEvent → Option Generator
  | .tick later => if g.clock ≤ later then some { g with clock := later } else none
  | .begin thread =>
    if (g.calls.lookup thread).isSome then none
    else if !g.context.flags.threadSafe && !g.calls.isEmpty then none
    else
      let call := { now := UInt32.ofNat g.clock, begun := g.made.length }
      some { g with calls := (thread, call) :: g.calls }
  | .finish thread host =>
    match g.calls.lookup thread with
    | none => none
    | some call =>
      let oid := bsonOidInit g.context call.now host
      some { g with
        context := { g.context with seq32 := g.context.seq32 + 1 }
        calls := g.calls.filter (·.1 ≠ thread)
        made := g.made ++ [{ oid, begun := call.begun }] }

def Generator.run (g : Generator) : List OidEvent → Option Generator
  | [] => some g
  | e :: es => (g.step e).bind fun g' => g'.run es

/-- A context as `bson_context_new` hands it out. -/
def generator (context : BsonContext) (clock : Nat) : Generator :=
  { context, clock, calls := [], made := [] }

end LibBson.Source
