import LibBson.Source.BuildRuns
import LibBson.Library.ReadTrace

/-!
# Documents made from memory

Each constructor with the offsets it reads of the memory it adopts or copies.
Source: bson.c:1961-2144.
-/

set_option autoImplicit false

namespace LibBson.Source
open LibBson.Library LibBson.Spec

/-- What a constructor returns: a document, with `BSON_FLAG_RDONLY` or without,
`NULL` or `false`, or nothing after a failed `BSON_ASSERT`. -/
inductive Construction where
  | made (bson : Chain) (readOnly : Bool)
  | refused
  | aborted

section Constructors

-- what `malloc` and `realloc` leave in the block that a constructor makes
variable (fresh : Nat → Mem)

def bsonInitStaticChain (length : Nat) : Read Construction := do
  if length < 5 ∨ length > int32Max then pure .refused
  else
    let lenLe ← Read.le 0 4
    if lenLe ≠ length then pure .refused
    else
      let last ← Read.byte (length - 1)
      if last ≠ 0 then pure .refused
      else
        let data ← Read.pointer
        pure (.made (.alloc data length false { len := length, depth := 0, offset := 0 } []) true)

def bsonSizedNew (size : Nat) : Construction :=
  if size > int32Max then .aborted
  else if size ≤ bsonInlineDataSize then .made (bsonInit (fresh bsonInlineDataSize)) false
  else
    .made (.alloc ((fresh (max 5 size)).write 0 [5, 0, 0, 0, 0]) (max 5 size) true
      { len := 5, depth := 0, offset := 0 } []) false

def bsonNewFromData (length : Nat) : Read Construction := do
  if length < 5 ∨ length > int32Max then pure .refused
  else
    let last ← Read.byte (length - 1)
    if last ≠ 0 then pure .refused
    else
      let lenLe ← Read.le 0 4
      if length ≠ lenLe then pure .refused
      else
        match bsonSizedNew fresh length with
        | .made bson readOnly =>
          let data ← Read.slice 0 length
          pure (.made (bson.update (bson.buf.write 0 data) length) readOnly)
        | stop => pure stop

/-- From `(*buf)[length - 1]` on; `length` is a `uint32_t`. -/
def bsonNewFromBufferTail (bufLen length : Nat) : Read Construction := do
  let last ← Read.byte (u32sub length 1)
  if last ≠ 0 then pure .refused
  else
    let buf ← Read.pointer
    pure (.made (.alloc buf bufLen true { len := length, depth := 0, offset := 0 } []) false)

/-- On a `*buf` that is not `NULL`. -/
def bsonNewFromBuffer (bufLen : Nat) : Read Construction := do
  if bufLen < 5 ∨ bufLen > int32Max then pure .refused
  else
    let lenLe ← Read.le 0 4
    bsonNewFromBufferTail bufLen lenLe

end Constructors

/-- A call of a constructor with the memory its caller passes. -/
inductive ConstructCall where
  | initStatic (data : Mem) (length : Nat)
  | sizedNew (size : Nat)
  | newFromData (data : Mem) (length : Nat)
  | newFromBuffer (buf : Option Mem) (bufLen : Nat)

/-- The constructor and the memory it reads. A `NULL` buffer becomes a new block
that holds the empty document. -/
def ConstructCall.run (fresh : Nat → Mem) : ConstructCall → Read Construction × Mem
  | .initStatic data length => (bsonInitStaticChain length, data)
  | .sizedNew size => (pure (bsonSizedNew fresh size), fresh size)
  | .newFromData data length => (bsonNewFromData fresh length, data)
  | .newFromBuffer none _ =>
    (bsonNewFromBufferTail 5 5, ((fresh 5).write 0 (leBytes 4 5)).write 4 [0])
  | .newFromBuffer (some buf) bufLen => (bsonNewFromBuffer bufLen, buf)

/-- How large the caller says that memory is. -/
def ConstructCall.capacity : ConstructCall → Nat
  | .initStatic _ length => length
  | .sizedNew size => size
  | .newFromData _ length => length
  | .newFromBuffer none _ => 5
  | .newFromBuffer (some _) bufLen => bufLen

def ConstructCall.result (fresh : Nat → Mem) (call : ConstructCall) : Construction :=
  (call.run fresh).1.val (call.run fresh).2

/-- The document stands at the start of a buffer of its own, or of its caller's. -/
structure Chain.Rooted (c : Chain) : Prop where
  parents : c.parents = []
  offset : c.bson.offset = 0
  depth : c.bson.depth = 0
  capacity : c.capacity ≤ int32Max

/-- What appends and iterators rely on. -/
structure Chain.Represents (c : Chain) : Prop extends c.Rooted where
  least : 5 ≤ c.bson.len
  fits : c.bson.len ≤ c.capacity
  header : c.buf.le 0 4 = c.bson.len
  last : c.buf (c.bson.len - 1) = 0

def Construction.Sound : Construction → Prop
  | .made bson _ => bson.Represents
  | .refused => True
  | .aborted => True

/-- The call fails or makes a represented document, and reads only inside. -/
def ConstructCall.Safe (fresh : Nat → Mem) (call : ConstructCall) : Prop :=
  (call.result fresh).Sound ∧ (call.run fresh).1.Below (call.run fresh).2 call.capacity

theorem Chain.Rooted.update {c : Chain} (h : c.Rooted) (m : Mem) (len : Nat) :
    (c.update m len).Rooted := by
  constructor
  case parents => rw [Chain.update_parents, h.parents]
  case offset => rw [Chain.update_bson, h.offset]
  case depth => rw [Chain.update_bson, h.depth]
  case capacity => rw [Chain.update_capacity]; exact h.capacity

theorem Construction.Sound.made {bson : Chain} {readOnly : Bool}
    (h : (Construction.made bson readOnly).Sound) : bson.Represents := h

section Laws

variable (fresh : Nat → Mem)

theorem bsonInitStaticChain_sound (data : Mem) (length : Nat) :
    ((bsonInitStaticChain length).val data).Sound := by
  unfold bsonInitStaticChain
  rw [Read.val_ite]
  split
  case isTrue => exact trivial
  case isFalse hlen =>
    simp only [Read.val_bind, Read.val_le, Read.val_ite, Read.val_byte, Read.val_pointer,
      Read.val_pure]
    split
    case isTrue => exact trivial
    case isFalse hheader =>
      split
      case isTrue => exact trivial
      case isFalse hlast =>
        have hroot : (Chain.alloc data length false { len := length, depth := 0, offset := 0 }
            []).Rooted := ⟨rfl, rfl, rfl, Nat.le_of_not_lt fun h => hlen (Or.inr h)⟩
        refine ⟨hroot, ?_, Nat.le_refl _, not_not.mp hheader, not_not.mp hlast⟩
        exact Nat.le_of_not_lt fun h => hlen (Or.inl h)

theorem bsonInitStaticChain_below (data : Mem) (length : Nat) :
    (bsonInitStaticChain length).Below data length := by
  unfold bsonInitStaticChain
  rw [Read.below_ite]
  refine ⟨fun _ => Read.below_pure _ _ _, fun hlen => ?_⟩
  simp only [Read.below_bind, Read.below_ite, Read.below_byte, Read.below_le _ _ _ _ (by decide :
    0 < 4), Read.below_pure, Read.below_pointer, and_self, implies_true, and_true, true_and]
  omega

/-- A block that starts with the empty document. -/
theorem empty_represents (data : Mem) {c : Chain} (hbuf : c.buf = data.write 0 [5, 0, 0, 0, 0])
    (hlen : c.bson.len = 5) (hcap : 5 ≤ c.capacity) (hroot : c.Rooted) : c.Represents := by
  have hframe : Holds c.buf 0 (leBytes 4 5 ++ [0]) := by
    rw [hbuf]
    exact Mem.holds_write_self data 0 [5, 0, 0, 0, 0]
  have hle := (holds_append ..).mp hframe
  refine ⟨hroot, by omega, by omega, ?_, ?_⟩
  · rw [hlen]
    exact hle.1.le_eq
  · rw [hlen]
    exact ((holds_cons ..).mp hle.2).1

theorem bsonSizedNew_sound (size : Nat) : (bsonSizedNew fresh size).Sound := by
  unfold bsonSizedNew
  split
  case isTrue => exact trivial
  case isFalse hsize =>
    split
    case isTrue =>
      exact empty_represents (fresh bsonInlineDataSize) rfl rfl (by decide : 5 ≤ 120)
        ⟨rfl, rfl, rfl, (by decide : 120 ≤ int32Max)⟩
    case isFalse =>
      exact empty_represents (fresh (max 5 size)) rfl rfl (Nat.le_max_left 5 size)
        ⟨rfl, rfl, rfl, Nat.max_le.mpr ⟨by decide, Nat.le_of_not_lt hsize⟩⟩

/-- Room for `size` octets in front, which its length word does not claim yet. -/
theorem bsonSizedNew_made (size : Nat) (h : size ≤ int32Max) :
    ∃ bson, bsonSizedNew fresh size = .made bson false ∧ bson.Rooted ∧ size ≤ bson.capacity := by
  have hsound := bsonSizedNew_sound fresh size
  unfold bsonSizedNew at hsound ⊢
  rw [if_neg (Nat.not_lt.mpr h)] at hsound ⊢
  split at hsound
  case isTrue hsmall =>
    rw [if_pos hsmall]
    exact ⟨_, rfl, hsound.made.toRooted, hsmall⟩
  case isFalse hlarge =>
    rw [if_neg hlarge]
    exact ⟨_, rfl, hsound.made.toRooted, Nat.le_max_right 5 size⟩

theorem bsonNewFromData_sound (data : Mem) (length : Nat) :
    ((bsonNewFromData fresh length).val data).Sound := by
  unfold bsonNewFromData
  rw [Read.val_ite]
  split
  case isTrue => exact trivial
  case isFalse hlen =>
    simp only [Read.val_bind, Read.val_le, Read.val_ite, Read.val_byte]
    split
    case isTrue => exact trivial
    case isFalse hlast =>
      split
      case isTrue => exact trivial
      case isFalse hheader =>
        obtain ⟨bson, hmade, hroot, hcap⟩ := bsonSizedNew_made fresh length (by omega)
        have hle : (bson.buf.write 0 (data.slice 0 length)).le 0 4 = data.le 0 4 :=
          Mem.le_congr fun i hi => by
            rw [Nat.zero_add]
            exact Mem.write_slice_at _ _ _ _ (by omega)
        rw [hmade]
        simp only [Read.val_bind, Read.val_slice, Read.val_pure]
        refine ⟨hroot.update _ _, ?_, ?_, ?_, ?_⟩
        · rw [Chain.update_bson]
          exact Nat.le_of_not_lt fun h => hlen (Or.inl h)
        · rw [Chain.update_bson, Chain.update_capacity]
          exact hcap
        · rw [Chain.update_bson, Chain.update_buf, hle]
          exact (not_not.mp hheader).symm
        · rw [Chain.update_bson, Chain.update_buf]
          have hinside : length - 1 < length := by omega
          exact (Mem.write_slice_at _ _ _ _ hinside).trans (not_not.mp hlast)

theorem bsonNewFromData_below (data : Mem) (length : Nat) :
    (bsonNewFromData fresh length).Below data length := by
  unfold bsonNewFromData
  rw [Read.below_ite]
  refine ⟨fun _ => Read.below_pure _ _ _, fun hlen => ?_⟩
  obtain ⟨bson, hmade, -, -⟩ := bsonSizedNew_made fresh length (by omega)
  rw [hmade]
  simp only [Read.below_bind, Read.below_ite, Read.below_byte, Read.below_le _ _ _ _ (by decide :
    0 < 4), Read.below_pure, and_true, implies_true, true_and]
  refine ⟨by omega, fun _ => ⟨by omega, fun _ => ?_⟩⟩
  exact Read.below_slice _ _ _ _ (by omega)

/-- A length word below 5 names one of its own octets, all of them zero but the first. -/
theorem small_header {buf : Mem} {length : Nat} (hheader : buf.le 0 4 = length)
    (hpos : 1 ≤ length) (hsmall : length < 5) : buf (length - 1) = 0 ↔ length ≠ 1 := by
  have hword : (buf 0).toNat + 256 * ((buf 1).toNat + 256 * ((buf 2).toNat +
      256 * (buf 3).toNat)) = length := by
    rw [← hheader]
    simp [Mem.le, Mem.slice_succ, leNat]
  have hfirst : (buf 0).toNat = length := by omega
  have hzero : ∀ b : UInt8, b.toNat = 0 → b = 0 := fun b hb => UInt8.toNat_inj.mp hb
  have h1 : buf 1 = 0 := hzero _ (by omega)
  have h2 : buf 2 = 0 := hzero _ (by omega)
  have h3 : buf 3 = 0 := hzero _ (by omega)
  have hcases : length = 1 ∨ length = 2 ∨ length = 3 ∨ length = 4 := by omega
  rcases hcases with h | h | h | h
  · have hne : buf 0 ≠ 0 := by
      intro h0
      rw [h0] at hfirst
      exact absurd (hfirst.trans h) (by decide)
    simp [h, hne]
  · simp [h, h1]
  · simp [h, h2]
  · simp [h, h3]

/-- The last octet is read where the length word says, whatever that is. -/
theorem bsonNewFromBufferTail_sound_iff (buf : Mem) (bufLen : Nat) {length : Nat}
    (hheader : buf.le 0 4 = length) (hlen : 5 ≤ bufLen) (hmax : bufLen ≤ int32Max) :
    (((bsonNewFromBufferTail bufLen length).val buf).Sound ∧
        (bsonNewFromBufferTail bufLen length).Below buf bufLen) ↔
      length = 1 ∨ 5 ≤ length ∧ length ≤ bufLen := by
  have hlt : length < 4294967296 := hheader ▸ Mem.le_lt buf 0 4
  have hbelow : (bsonNewFromBufferTail bufLen length).Below buf bufLen ↔
      u32sub length 1 < bufLen := by
    simp only [bsonNewFromBufferTail, Read.below_bind, Read.below_ite, Read.below_byte,
      Read.below_pure, Read.below_pointer, implies_true, and_true]
  have hval : (bsonNewFromBufferTail bufLen length).val buf =
      if buf (u32sub length 1) ≠ 0 then .refused
      else .made (.alloc buf bufLen true { len := length, depth := 0, offset := 0 } []) false := by
    simp only [bsonNewFromBufferTail, Read.val_bind, Read.val_byte, Read.val_ite,
      Read.val_pointer, Read.val_pure]
  rw [hbelow, hval]
  unfold int32Max at hmax
  by_cases hzero : length = 0
  · -- The index wraps around to `UINT32_MAX`.
    subst hzero
    have hindex : u32sub 0 1 = 4294967295 := by decide
    rw [hindex]
    omega
  · rw [u32sub_of_le hlt (by omega)]
    constructor
    · intro h
      obtain ⟨hsound, hinside⟩ := h
      by_contra hcond
      have hsmall : length < 5 := by omega
      have hlast := (small_header hheader (by omega) hsmall).mpr (by omega)
      rw [if_neg (not_not.mpr hlast)] at hsound
      have hleast : 5 ≤ length := hsound.made.least
      omega
    · intro h
      refine ⟨?_, by omega⟩
      split
      case isTrue => exact trivial
      case isFalse hlast =>
        have hone : length ≠ 1 := by
          intro h1
          have hne := (small_header hheader (by omega) (by omega)).mp (not_not.mp hlast)
          exact hne h1
        refine ⟨⟨rfl, rfl, rfl, hmax⟩, ?_, ?_, hheader, not_not.mp hlast⟩
        · exact (h.resolve_left hone).1
        · exact (h.resolve_left hone).2

end Laws

/-- What appends keep, for the octets between the length word and the NUL. -/
theorem Chain.Represents.holding {c : Chain} (h : c.Represents) :
    Holding c (c.buf.slice 4 (c.bson.len - 5)) := by
  have hleast := h.least
  have hfits := h.fits
  have hoffset := h.offset
  have hdepth := h.depth
  have hcap := h.capacity
  unfold int32Max at hcap
  have hbody := holds_slice c.buf 4 (c.bson.len - 5)
  refine ⟨⟨⟨hleast, by omega, by omega⟩, ?_, ?_, fun _ => hdepth⟩, ?_⟩
  · rw [Mem.slice_length]
    omega
  · rw [hoffset]
    exact hbody
  · have hsum : c.bson.len - 5 + 5 = c.bson.len := by omega
    have hend : 0 + 4 + (c.bson.len - 5) = c.bson.len - 1 := by omega
    have hword := holds_le c.buf 0 4
    rw [h.header] at hword
    rw [hoffset, frame, Mem.slice_length, hsum, holds_append, leBytes_length, holds_append,
      Mem.slice_length, hend]
    exact ⟨hword, hbody, (holds_cons ..).mpr ⟨h.last, holds_nil _ _⟩⟩

end LibBson.Source
