import LibBson.Source.Visit

/-!
# Validation

Source: bson.c:30-61, 3217-3444; bson-types.h:185-208. The callbacks share one
state: the offset of the last error (`-1` while there is none), the error itself
and the phase of the DBRef check. `bson_validate_funcs` refers to the callback
that visits a child with these functions; its definition here is by recursion on
a bound on the nesting, which `bson_validate` sets to the octets of the document.
-/

set_option autoImplicit false

namespace LibBson.Source
open LibBson.Library

/-- `bson_validate_flags_t` -/
structure ValidateFlags where
  utf8 : Bool := false
  dollarKeys : Bool := false
  dotKeys : Bool := false
  utf8AllowNull : Bool := false
  emptyKeys : Bool := false
  deriving DecidableEq, Repr

/-- `BSON_VALIDATE_NONE` -/
def ValidateFlags.none : ValidateFlags := {}

/-- `bson_validate_phase_t` -/
inductive ValidatePhase where
  | start | top | lfRefKey | lfRefUtf8 | lfIdKey | lfDbKey | lfDbUtf8 | notDbref
  deriving DecidableEq, Repr

/-- The calls of `VALIDATION_ERR`. -/
inductive ValidationErr where
  | corruptBson
  | corruptCodewscope
  | invalidUtf8 (key : Bytes)
  | emptyKey
  | dollarKey (key : Bytes)
  | dbrefKey (key : Bytes)
  | dotKey (key : Bytes)
  deriving DecidableEq, Repr

namespace ValidationErr

/-- The error code, a `bson_validate_flags_t`. -/
def code : ValidationErr → Nat
  | corruptBson | corruptCodewscope => 0
  | invalidUtf8 _ => 1
  | dollarKey _ | dbrefKey _ => 2
  | dotKey _ => 4
  | emptyKey => 16

/-- The text in front of a quoted key, or the whole text. -/
def text : ValidationErr → String × Option Bytes
  | corruptBson => ("corrupt BSON", none)
  | corruptCodewscope => ("corrupt code-with-scope", none)
  | invalidUtf8 key => ("invalid utf8 string for key ", some key)
  | emptyKey => ("empty key", none)
  | dollarKey key => ("keys cannot begin with \"$\": ", some key)
  | dbrefKey key => ("invalid key within DBRef subdocument: ", some key)
  | dotKey key => ("keys cannot contain \".\": ", some key)

end ValidationErr

structure ValidateState where
  flags : ValidateFlags
  errOffset : Int
  phase : ValidatePhase
  error : Option ValidationErr

namespace ValidateState

/-- `state->err_offset = offset; VALIDATION_ERR (…)` -/
def fail (s : ValidateState) (offset : Int) (e : ValidationErr) : ValidateState :=
  { s with errOffset := offset, error := some e }

def setPhase (s : ValidateState) (phase : ValidatePhase) : ValidateState :=
  { s with phase := phase }

/-- What `_bson_validate_internal` starts with. -/
def init (flags : ValidateFlags) : ValidateState :=
  { flags := flags, errOffset := -1, phase := .start, error := none }

end ValidateState

def bsonIterValidateUtf8 (it : BsonIter) (key utf8 : Bytes) (s : ValidateState) :
    Bool × ValidateState :=
  if s.flags.utf8 = true ∧ bsonUtf8Validate utf8 s.flags.utf8AllowNull = false then
    (true, s.fail it.off (.invalidUtf8 key))
  else if s.flags.dollarKeys = true then
    match s.phase with
    | .lfRefUtf8 => (false, s.setPhase .lfIdKey)
    | .lfDbUtf8 => (false, s.setPhase .notDbref)
    | _ => (false, s)
  else (false, s)

def bsonIterValidateCorrupt (it : BsonIter) (s : ValidateState) : ValidateState :=
  s.fail it.errOff .corruptBson

/-- "$ref", "$id", "$db" -/
def refKey : Bytes := [36, 114, 101, 102]

def idKey : Bytes := [36, 105, 100]

def dbKey : Bytes := [36, 100, 98]

/-- A key that was begun a DBRef with must be followed up. -/
def ValidatePhase.pending : ValidatePhase → Bool
  | lfIdKey | lfRefUtf8 | lfDbUtf8 => true
  | _ => false

/-- The `BSON_VALIDATE_DOLLAR_KEYS` part of `_bson_iter_validate_before`: the next
phase, or the error. -/
def dollarStep (phase : ValidatePhase) (key : Bytes) : Except ValidationErr ValidatePhase :=
  if key.head? = some 36 then
    if phase = .lfRefKey ∧ key = refKey then .ok .lfRefUtf8
    else if phase = .lfIdKey ∧ key = idKey then .ok .lfDbKey
    else if phase = .lfDbKey ∧ key = dbKey then .ok .lfDbUtf8
    else .error (.dollarKey key)
  else if phase.pending then .error (.dbrefKey key)
  else .ok .notDbref

def bsonIterValidateBefore (it : BsonIter) (key : Bytes) (s : ValidateState) :
    Bool × ValidateState :=
  let dot (s' : ValidateState) : Bool × ValidateState :=
    if s.flags.dotKeys = true ∧ 46 ∈ key then (true, s'.fail it.off (.dotKey key)) else (false, s')
  if s.flags.emptyKeys = true ∧ key = [] then (true, s.fail it.off .emptyKey)
  else if s.flags.dollarKeys = true then
    match dollarStep s.phase key with
    | .error e => (true, s.fail it.off e)
    | .ok phase => dot (s.setPhase phase)
  else dot s

/-- `_bson_iter_validate_document` with the functions the child is visited with. -/
def bsonIterValidateDocument (funcs : Visitor ValidateState) (it : BsonIter) (bson : BsonRef)
    (s : ValidateState) : Bool × ValidateState :=
  let phase := s.phase
  match bsonIterInit bson with
  | (false, _) => (true, { s with errOffset := it.off })
  | (true, child) =>
    let s := s.setPhase (if s.phase = .start then .top else .lfRefKey)
    let s := (bsonIterVisitAll funcs child s).data
    if s.phase.pending then
      (true, if s.errOffset ≤ 0 then { s with errOffset := it.off } else s)
    else (false, s.setPhase phase)

/-- `_bson_validate_internal` -/
def bsonValidateInternal (funcs : Visitor ValidateState) (bson : BsonRef) (flags : ValidateFlags) :
    ValidateState :=
  match bsonIterInit bson with
  | (false, _) => (ValidateState.init flags).fail 0 .corruptBson
  | (true, it) => (bsonIterValidateDocument funcs it bson (ValidateState.init flags)).2

/-- The callback returns false on a scope it has reported and true on a valid one. -/
def bsonIterValidateCodewscope (funcs : Visitor ValidateState) (it : BsonIter) (scope : BsonRef)
    (s : ValidateState) : Bool × ValidateState :=
  let inner := bsonValidateInternal funcs scope s.flags
  if inner.errOffset < 0 then (true, s)
  else
    -- `bson_validate` leaves `offset` at 0 unless the inner offset is positive
    let offset := if inner.errOffset > 0 then inner.errOffset else 0
    (false, s.fail (it.off + offset) .corruptCodewscope)

/-- `bson_validate_funcs` for documents with at most `depth` levels. -/
def bsonValidateFuncs : Nat → Visitor ValidateState
  | 0 => {}
  | depth + 1 =>
    { before := some fun it key _ s => bsonIterValidateBefore it key s
      corrupt := some bsonIterValidateCorrupt
      utf8 := some bsonIterValidateUtf8
      document := some fun it _ b s => bsonIterValidateDocument (bsonValidateFuncs depth) it b s
      array := some fun it _ b s => bsonIterValidateDocument (bsonValidateFuncs depth) it b s
      codewscope := some fun it _ v s =>
        bsonIterValidateCodewscope (bsonValidateFuncs depth) it v.2 s }

/-- The result of `bson_validate`, with what it stores to `offset`. -/
def bsonValidate (bson : BsonRef) (flags : ValidateFlags) : Bool × Option Int :=
  let state := bsonValidateInternal (bsonValidateFuncs bson.len) bson flags
  (state.errOffset < 0, if state.errOffset > 0 then some state.errOffset else none)

end LibBson.Source
