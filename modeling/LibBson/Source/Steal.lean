import LibBson.Source.Construct
import LibBson.Source.Writer

/-!
# Moving a document out of its `bson_t`

Source: bson.c:2317-2396 (`bson_steal`, `bson_destroy_with_steal`), 1951-1967
(`bson_reinit`), 2093-2191 (`bson_new_from_buffer`, `bson_copy_to`), 2295-2315
(`bson_reserve_buffer`), bson-private.h:45-97. A heap document reaches its octets through
`buf` and `buflen`, which point to `alloc` and `alloclen` of the same `bson_t` or to two
variables of the caller of `bson_new_from_buffer`, whose own `alloc` is NULL. Only
documents that are not children and have none open are moved, so that `parent` is left
out, and so is the document of a `bson_writer_t`, which is a view of its buffer.
-/

set_option autoImplicit false

namespace LibBson.Source
open LibBson.Library

/-- `bson_flags_t` -/
structure Flags where
  inline : Bool
  static : Bool
  rdonly : Bool
  child : Bool
  inChild : Bool
  noFree : Bool

/-- Where `buf` and `buflen` point to. -/
inductive Place where
  | own
  | caller

/-- `bson_impl_inline_t` and `bson_impl_alloc_t` -/
inductive BsonT where
  | inline (flags : Flags) (len : Nat) (data : Mem)
  | alloc (flags : Flags) (len depth offset : Nat) (buf : Place) (alloc : Option Mem)
    (alloclen : Nat) (realloc : Bool)

/-- The variables that `bson_new_from_buffer` was given the addresses of. -/
structure Caller where
  buf : Option Mem
  buflen : Nat

namespace BsonT

def flags : BsonT → Flags
  | inline flags .. => flags
  | alloc flags .. => flags

def len : BsonT → Nat
  | inline _ len _ => len
  | alloc _ len .. => len

/-- `*buf` -/
def buf (v : Caller) : BsonT → Option Mem
  | inline _ _ data => some data
  | alloc _ _ _ _ .own block .. => block
  | alloc _ _ _ _ .caller .. => v.buf

/-- The document as appends and readers find it; none where `*buf` is NULL. -/
def document (v : Caller) : BsonT → Option Chain
  | inline _ len data => some (.inline data len)
  | alloc _ len depth offset .own block alloclen realloc =>
    block.map fun m =>
      .alloc m alloclen realloc { len := len, depth := depth, offset := offset } []
  | alloc _ len depth offset .caller _ _ realloc =>
    v.buf.map fun m =>
      .alloc m v.buflen realloc { len := len, depth := depth, offset := offset } []

end BsonT

/-- `flags & (BSON_FLAG_CHILD | BSON_FLAG_IN_CHILD | BSON_FLAG_RDONLY)` -/
def Flags.unmovable (f : Flags) : Bool := f.child || f.inChild || f.rdonly

/-- The flags that `bson_init` sets. -/
def initFlags : Flags :=
  { inline := true, static := true, rdonly := false, child := false, inChild := false,
    noFree := false }

/-- The return value, `dst`, and `src` where it is not freed. `mem` is what `dst->data`
and the octets behind it hold before the call. -/
def bsonSteal (mem : Mem) (src : BsonT) : Bool × BsonT × Option BsonT :=
  let data := mem.write 0 [5, 0, 0, 0, 0]
  if src.flags.unmovable then (false, .inline initFlags 5 data, some src)
  else
    match src with
    | .inline flags len srcData =>
      (true, .inline initFlags len (data.write 0 (srcData.slice 0 bsonInlineDataSize)),
        if flags.static then some (.inline flags 0 srcData) else none)
    | .alloc flags len depth offset buf alloc alloclen realloc =>
      (true, .alloc { flags with static := true } len depth offset .own alloc alloclen realloc,
        if flags.static then some (.alloc flags 0 depth offset buf alloc alloclen realloc) else none)

/-- The returned buffer and `*length`; `block` is what `bson_malloc` leaves in it. -/
def bsonDestroyWithSteal (block : Mem) (v : Caller) (bson : BsonT) (steal : Bool) :
    Option Mem × Nat :=
  let length := bson.len
  if !steal then (none, length)
  else if bson.flags.unmovable then (none, length)
  else
    match bson with
    | .inline _ len data => (some (data.copyPrefix block len), length)
    | .alloc .. => (bson.buf v, length)

/-! ## Documents a caller can hold -/

def bsonReinit (c : Chain) : Chain := c.update (c.buf.write c.bson.offset [5, 0, 0, 0, 0]) 5

/-- NULL for a child and where the buffer cannot grow. -/
def bsonReserveBuffer (fresh : Nat → Mem) (size : Nat) (c : Chain) : Option Chain :=
  if c.parents = [] then (bsonGrow fresh size c).map fun c => c.update c.buf size else none

/-- `mem` is what `dst` holds before the call. -/
def bsonCopyTo (fresh : Nat → Mem) (mem : Mem) : Chain → Chain
  | .inline data len => .inline (mem.write 0 (data.slice 0 bsonInlineDataSize)) len
  | .alloc buf _ _ bson _ =>
    let len := nextPowerOfTwo bson.len
    .alloc ((buf.shift bson.offset).copyPrefix (fresh len) bson.len) len true
      { len := bson.len, depth := 0, offset := 0 } []

/-- How a document that is not a child lies in its `bson_t`. -/
def layOut (place : Place) (static : Bool) : Chain → BsonT
  | .inline data len => .inline { initFlags with static := static } len data
  | .alloc buf buflen realloc bson _ =>
    match place with
    | .own =>
      .alloc { initFlags with inline := false, static := static } bson.len bson.depth bson.offset
        .own (some buf) buflen realloc
    | .caller =>
      .alloc { initFlags with inline := false, static := static, noFree := true } bson.len
        bson.depth bson.offset .caller none 0 realloc

def ConstructCall.place : ConstructCall → Place
  | .newFromBuffer .. => .caller
  | _ => .own

/-- The documents that may be written to, after any calls and stores into their octets.
Growth leaves `buf` and `buflen` where they point to. -/
inductive Held (fresh : Nat → Mem) : Place → Chain → Prop
  | init (data : Mem) : Held fresh .own (bsonInit data)
  | made (call : ConstructCall) (c : Chain) (h : call.result fresh = .made c false) :
    Held fresh call.place c
  | copiedStatic (call : ConstructCall) (c : Chain) (mem : Mem)
    (h : call.result fresh = .made c true) : Held fresh .own (bsonCopyTo fresh mem c)
  | copied (place : Place) (c : Chain) (mem : Mem) (h : Held fresh place c) :
    Held fresh .own (bsonCopyTo fresh mem c)
  | called (place : Place) (c c' : Chain) (s : Step) (h : Held fresh place c)
    (hs : (bsonStep fresh c s).chain = some c') : Held fresh place c'
  | stored (place : Place) (c : Chain) (m : Mem) (h : Held fresh place c) :
    Held fresh place (c.update m c.bson.len)
  | reinited (place : Place) (c : Chain) (h : Held fresh place c) :
    Held fresh place (bsonReinit c)
  | reserved (place : Place) (c c' : Chain) (size : Nat) (h : Held fresh place c)
    (hs : bsonReserveBuffer fresh size c = some c') : Held fresh place c'
  | stolen (place : Place) (c c' : Chain) (static : Bool) (v : Caller) (mem : Mem)
    (h : Held fresh place c) (root : c.parents = [])
    (hs : (bsonSteal mem (layOut place static c)).2.1.document v = some c') : Held fresh .own c'

section Root

variable {fresh : Nat → Mem}

/-- Where the outermost of a chain's documents starts. -/
def Chain.root (c : Chain) : Nat := (outermost c.bson c.parents).offset

theorem outermost_offset (b : Impl) (len : Nat) (parents : List Impl) :
    (outermost { b with len := len } parents).offset = (outermost b parents).offset := by
  cases parents with
  | nil => rfl
  | cons p ps => rfl

theorem Chain.root_update (c : Chain) (m : Mem) (len : Nat) : (c.update m len).root = c.root := by
  rw [Chain.root, Chain.update_bson, Chain.update_parents]
  exact outermost_offset c.bson len c.parents

theorem bsonGrow_root {c c' : Chain} {size : Nat} (h : bsonGrow fresh size c = some c') :
    c'.root = c.root := by
  obtain ⟨hbson, hparents, -⟩ := bsonGrow_keeps h
  rw [Chain.root, hbson, hparents, Chain.root]

theorem bsonAppendInternal_root {c c' : Chain} {args : AppendArgs}
    (h : (bsonAppendInternal fresh c args).chain = some c') : c'.root = c.root := by
  rcases bsonAppendInternal_cases fresh c args with hfailed | ⟨c1, hgrow, hok⟩
  · rw [hfailed] at h
    cases h
    rfl
  · rw [hok] at h
    cases h
    rw [appendVa, Chain.root_update]
    exact bsonGrow_root hgrow

theorem openChild_root {c c' : Chain} (h : (openChild c).chain = some c') : c'.root = c.root := by
  cases c with
  | inline data len => cases h
  | alloc buf buflen realloc bson parents =>
    cases h
    rfl

theorem appendChild_root {c c' : Chain} {t : BsonType} {key : Bytes} {keyLength : Int}
    (h : (appendChild fresh t key keyLength c).chain = some c') : c'.root = c.root := by
  unfold appendChild at h
  cases hin : bsonAppendInternal fresh c (bsonAppendBsonBegin t key keyLength) with
  | aborted =>
    rw [hin] at h
    cases h
  | failed c1 =>
    rw [hin] at h
    cases h
    exact bsonAppendInternal_root (by rw [hin]; rfl)
  | ok c1 =>
    rw [hin] at h
    have hroot : c1.root = c.root := bsonAppendInternal_root (by rw [hin]; rfl)
    exact (openChild_root h).trans hroot

theorem bsonAppendBegin_root {c c' : Chain} {t : BsonType} {key : Bytes} {keyLength : Int}
    (h : (bsonAppendBegin fresh t key keyLength c).chain = some c') : c'.root = c.root := by
  rw [bsonAppendBegin_eq] at h
  split at h
  case isFalse => exact appendChild_root h
  case isTrue =>
    split at h
    · cases h
    · split at h
      · cases h
        rfl
      · next c1 hgrow =>
        split at h
        · cases h
        · exact (appendChild_root h).trans (bsonGrow_root hgrow)

theorem bsonAppendBsonEnd_root {c c' : Chain} (h : (bsonAppendBsonEnd c).chain = some c') :
    c'.root = c.root := by
  cases c with
  | inline data len => cases h
  | alloc buf buflen realloc child parents =>
    cases parents with
    | nil => cases h
    | cons bson parents =>
      cases h
      exact outermost_offset bson _ parents

/-- No call moves the outermost document within its buffer. -/
theorem bsonStep_root {c c' : Chain} (s : Step) (h : (bsonStep fresh c s).chain = some c') :
    c'.root = c.root := by
  cases s with
  | append call =>
    rw [bsonStep, bsonAppendCall] at h
    split at h
    · exact bsonAppendInternal_root h
    · cases h
      rfl
    · cases h
      rfl
  | documentBegin key keyLength => exact bsonAppendBegin_root h
  | arrayBegin key keyLength => exact bsonAppendBegin_root h
  | «end» => exact bsonAppendBsonEnd_root h

theorem bsonReserveBuffer_root {c c' : Chain} {size : Nat}
    (h : bsonReserveBuffer fresh size c = some c') : c'.root = c.root := by
  unfold bsonReserveBuffer at h
  split at h
  · obtain ⟨c1, hgrow, rfl⟩ := Option.map_eq_some_iff.mp h
    rw [Chain.root_update]
    exact bsonGrow_root hgrow
  · cases h

theorem bsonCopyTo_root (fresh : Nat → Mem) (mem : Mem) (c : Chain) :
    (bsonCopyTo fresh mem c).root = 0 := by
  cases c <;> rfl

theorem Construction.Sound.root {c : Chain} {readOnly : Bool}
    (h : (Construction.made c readOnly).Sound) : c.root = 0 := by
  rw [Chain.root, h.made.parents]
  exact h.made.offset

theorem bsonNewFromBufferTail_root {buf : Mem} {bufLen length : Nat} {c : Chain} {readOnly : Bool}
    (h : (bsonNewFromBufferTail bufLen length).val buf = .made c readOnly) : c.root = 0 := by
  simp only [bsonNewFromBufferTail, Read.val_bind, Read.val_byte, Read.val_ite, Read.val_pointer,
    Read.val_pure] at h
  split at h
  · cases h
  · cases h
    rfl

theorem ConstructCall.made_root (call : ConstructCall) {c : Chain} {readOnly : Bool}
    (h : call.result fresh = .made c readOnly) : c.root = 0 := by
  cases call with
  | initStatic data length =>
    have hsound := bsonInitStaticChain_sound data length
    rw [show (bsonInitStaticChain length).val data = .made c readOnly from h] at hsound
    exact hsound.root
  | sizedNew size =>
    have hsound := bsonSizedNew_sound fresh size
    rw [show bsonSizedNew fresh size = .made c readOnly from h] at hsound
    exact hsound.root
  | newFromData data length =>
    have hsound := bsonNewFromData_sound fresh data length
    rw [show (bsonNewFromData fresh length).val data = .made c readOnly from h] at hsound
    exact hsound.root
  | newFromBuffer buf bufLen =>
    cases buf with
    | none => exact bsonNewFromBufferTail_root h
    | some buf =>
      have hval : (bsonNewFromBuffer bufLen).val buf = .made c readOnly := h
      simp only [bsonNewFromBuffer, Read.val_ite, Read.val_bind, Read.val_le, Read.val_pure] at hval
      split at hval
      · cases hval
      · exact bsonNewFromBufferTail_root hval

/-- What a moved document is, in either place. -/
theorem stolen_document {place : Place} {static : Bool} {v : Caller} {mem : Mem} {c c' : Chain}
    (h : (bsonSteal mem (layOut place static c)).2.1.document v = some c') : c'.root = c.bson.offset := by
  cases c with
  | inline data len =>
    cases h
    rfl
  | alloc buf buflen realloc bson parents =>
    cases place with
    | own =>
      cases h
      rfl
    | caller => cases h

/-- The outermost document starts where its buffer does. -/
theorem Held.root {place : Place} {c : Chain} (h : Held fresh place c) : c.root = 0 := by
  induction h with
  | init data => rfl
  | made call c h => exact call.made_root h
  | copiedStatic call c mem h => exact bsonCopyTo_root fresh mem c
  | copied place c mem h ih => exact bsonCopyTo_root fresh mem c
  | called place c c' s h hs ih => exact (bsonStep_root s hs).trans ih
  | stored place c m h ih => exact (c.root_update m c.bson.len).trans ih
  | reinited place c h ih => exact (c.root_update _ 5).trans ih
  | reserved place c c' size h hs ih => exact (bsonReserveBuffer_root hs).trans ih
  | stolen place c c' static v mem h root hs ih =>
    rw [stolen_document hs, ← ih, Chain.root, root, outermost]

end Root

end LibBson.Source
