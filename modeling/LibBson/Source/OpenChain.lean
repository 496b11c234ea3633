import LibBson.Source.AppendBytes

/-!
# The chain of open documents holds what was appended

`Holding c body`: the innermost document of the chain stands in its buffer as
the document with elements `body`. Every operation keeps it, and leaves the
octets in front of the document, where its parents' elements are, as they were
(`SameSpot`). Source: bson.c:115-222, 310-565.
-/

set_option autoImplicit false

namespace LibBson.Source
open LibBson.Library LibBson.Spec

/-- Whether growth may allocate: always for an inline document. -/
abbrev Chain.growable : Chain → Bool
  | inline .. => true
  | alloc _ _ realloc _ _ => realloc

/-- The elements of the innermost document, whatever its length word and its NUL
are: what an append relies on. -/
structure Carries (c : Chain) (body : Bytes) : Prop where
  fits : c.Fits 1
  len : c.bson.len = body.length + 5
  elements : Holds c.buf (c.bson.offset + 4) body
  root : c.parents = [] → c.bson.depth = 0

/-- The innermost document is complete. -/
structure Holding (c : Chain) (body : Bytes) : Prop extends Carries c body where
  content : Holds c.buf c.bson.offset (frame body)

/-- The chain's innermost document is the same one, and nothing in front of it
has changed. -/
structure SameSpot (c c' : Chain) : Prop where
  parents : c'.parents = c.parents
  offset : c'.bson.offset = c.bson.offset
  depth : c'.bson.depth = c.bson.depth
  before : ∀ i, i < c.bson.offset → c'.buf i = c.buf i

theorem SameSpot.refl (c : Chain) : SameSpot c c := ⟨rfl, rfl, rfl, fun _ _ => rfl⟩

theorem SameSpot.trans {a b c : Chain} (h : SameSpot a b) (h' : SameSpot b c) : SameSpot a c where
  parents := h'.parents.trans h.parents
  offset := h'.offset.trans h.offset
  depth := h'.depth.trans h.depth
  before := fun i hi => (h'.before i (by rw [h.offset]; exact hi)).trans (h.before i hi)

section Update

variable (c : Chain) (m : Mem) (len : Nat)

@[simp] theorem Chain.update_buf : (c.update m len).buf = m := by
  cases c <;> rfl

@[simp] theorem Chain.update_bson : (c.update m len).bson = { c.bson with len := len } := by
  cases c <;> rfl

@[simp] theorem Chain.update_parents : (c.update m len).parents = c.parents := by
  cases c <;> rfl

@[simp] theorem Chain.update_capacity : (c.update m len).capacity = c.capacity := by
  cases c <;> rfl

@[simp] theorem Chain.update_isInline : (c.update m len).isInline = c.isInline := by
  cases c <;> rfl

@[simp] theorem Chain.update_growable : (c.update m len).growable = c.growable := by
  cases c <;> rfl

end Update

/-! ## Growth -/

theorem Carries.grown {c c' : Chain} {body : Bytes} {size : Nat} (h : Carries c body)
    (hg : Grown c c' size) : Carries c' body := by
  have hlen := h.len
  have hroom := hg.room
  refine ⟨⟨?_, ?_, hg.addressable⟩, ?_, ?_, ?_⟩
  · rw [hg.bson]
    exact h.fits.len
  · rw [hg.bson]
    omega
  · rw [hg.bson]
    exact hlen
  · rw [hg.bson]
    exact h.elements.congr fun i hi => hg.content _ (by omega)
  · rw [hg.bson, hg.parents]
    exact h.root

/-- Growing keeps the document, its parents and whether it may grow. -/
theorem bsonGrow_keeps {fresh : Nat → Mem} {c c' : Chain} {size : Nat} (h : bsonGrow fresh size c = some c') :
    c'.bson = c.bson ∧ c'.parents = c.parents ∧ c'.growable = c.growable := by
  cases c with
  | inline data len =>
    simp only [bsonGrow, bsonImplInlineGrow] at h
    split at h
    · cases h
      exact ⟨rfl, rfl, rfl⟩
    · split at h
      · cases h
        exact ⟨rfl, rfl, rfl⟩
      · cases h
  | alloc buf buflen realloc bson parents =>
    simp only [bsonGrow, bsonImplAllocGrow] at h
    split at h
    · cases h
      exact ⟨rfl, rfl, rfl⟩
    · split at h
      · cases h
        exact ⟨rfl, rfl, rfl⟩
      · cases h

/-- Growth succeeds below 1 GiB; an inline document stays inline while it fits. -/
theorem bsonGrow_some (fresh : Nat → Mem) {c : Chain} (size : Nat) (hgrow : c.growable = true)
    (h1 : 1 ≤ c.bson.len + size)
    (hsize : c.bson.offset + c.bson.len + size + c.bson.depth ≤ 1073741824) :
    ∃ c', bsonGrow fresh size c = some c' ∧ c'.growable = true ∧
      c'.isInline = (c.isInline && decide (c.bson.len + size ≤ 120)) := by
  cases c with
  | inline data len =>
    simp only [Nat.zero_add, Nat.add_zero] at hsize h1
    simp only [bsonGrow, bsonImplInlineGrow, bsonInlineDataSize]
    by_cases hfits : len + size ≤ 120
    · exact ⟨.inline data len, by rw [if_pos hfits], rfl, by simp [hfits]⟩
    · have hu : u64 (len + size) = len + size := Nat.mod_eq_of_lt (by omega)
      have hle : nextPowerOfTwo (len + size) ≤ 2 ^ 30 :=
        nextPowerOfTwo_le (len + size) 30 (by omega) (by omega) (by omega)
      have hmax : nextPowerOfTwo (len + size) ≤ int32Max := Nat.le_trans hle (by decide)
      rw [if_neg hfits, hu, if_pos hmax]
      exact ⟨_, rfl, rfl, by simp [hfits]⟩
  | alloc buf buflen realloc bson parents =>
    have hr : realloc = true := hgrow
    subst hr
    have hsum : bson.offset + bson.len + size + bson.depth ≤ 1073741824 := hsize
    have hpos : 1 ≤ bson.len + size := h1
    have hu : u64 (bson.offset + bson.len + size + bson.depth) =
        bson.offset + bson.len + size + bson.depth := Nat.mod_eq_of_lt (by omega)
    have hle : nextPowerOfTwo (bson.offset + bson.len + size + bson.depth) ≤ 2 ^ 30 :=
      nextPowerOfTwo_le _ 30 (by omega) (by omega) (by omega)
    have hmax : nextPowerOfTwo (bson.offset + bson.len + size + bson.depth) ≤ int32Max :=
      Nat.le_trans hle (by decide)
    simp only [bsonGrow, bsonImplAllocGrow, hu]
    by_cases hfits : bson.offset + bson.len + size + bson.depth ≤ buflen
    · exact ⟨_, if_pos hfits, rfl, rfl⟩
    · simp only [if_neg hfits, hmax, and_self, if_true]
      exact ⟨_, rfl, rfl, rfl⟩

/-! ## Append -/

/-- The stores of an append complete the document with the new octets. -/
theorem appendVa_holding {c : Chain} {body : Bytes} (args : AppendArgs) (h : Carries c body)
    (room : c.bson.offset + c.bson.len + args.size + c.bson.depth ≤ c.capacity + 1)
    (hsize : c.bson.len + args.size < 4294967296) :
    Holding (appendVa c args) (body ++ args.bytes) ∧ SameSpot c (appendVa c args) := by
  have hlen := h.len
  have hbytes := args.bytes_length
  have happ : appendedLen c.bson args = (body ++ args.bytes).length + 5 := by
    rw [appendedLen, u32_of_lt hsize, List.length_append]
    omega
  have hpos : c.bson.offset + c.bson.len - 1 = c.bson.offset + 4 + body.length := by omega
  -- the three stores, outermost last
  have hbuf : (appendVa c args).buf =
      ((c.buf.write (c.bson.offset + 4 + body.length) args.bytes).write c.bson.offset
        (leBytes 4 ((body ++ args.bytes).length + 5))).write
        (c.bson.offset + 4 + body.length + args.bytes.length) [0] := by
    rw [appendVa, Chain.update_buf, appendStores, runStores_append, runStores_appendPairs, happ,
      hpos, ← hbytes]
    rfl
  have hbody : Holds (appendVa c args).buf (c.bson.offset + 4) body := by
    rw [hbuf]
    refine Mem.holds_write_frame (Mem.holds_write_frame (Mem.holds_write_frame h.elements ?_) ?_) ?_
    · omega
    · rw [leBytes_length]
      omega
    · omega
  have hnew : Holds (appendVa c args).buf (c.bson.offset + 4 + body.length) args.bytes := by
    rw [hbuf]
    refine Mem.holds_write_frame (Mem.holds_write_frame (Mem.holds_write_self _ _ _) ?_) ?_
    · rw [leBytes_length]
      omega
    · omega
  have hword : Holds (appendVa c args).buf c.bson.offset
      (leBytes 4 ((body ++ args.bytes).length + 5)) := by
    rw [hbuf]
    refine Mem.holds_write_frame (Mem.holds_write_self _ _ _) ?_
    rw [leBytes_length]
    omega
  have hnul : Holds (appendVa c args).buf
      (c.bson.offset + 4 + body.length + args.bytes.length) [0] := by
    rw [hbuf]
    exact Mem.holds_write_self _ _ _
  have hbson : (appendVa c args).bson = { c.bson with len := appendedLen c.bson args } :=
    Chain.update_bson ..
  have hfits := h.fits
  refine ⟨⟨⟨⟨?_, ?_, ?_⟩, ?_, ?_, ?_⟩, ?_⟩, ⟨Chain.update_parents .., ?_, ?_, ?_⟩⟩
  · rw [hbson, happ]
    simp
  · rw [hbson, appendVa, Chain.update_capacity, happ, List.length_append]
    simp only
    omega
  · rw [appendVa, Chain.update_capacity]
    exact hfits.addressable
  · rw [hbson, happ]
  · rw [hbson, holds_append]
    exact ⟨hbody, hnew⟩
  · rw [hbson, appendVa, Chain.update_parents]
    exact h.root
  · rw [hbson, frame, holds_append, leBytes_length, holds_append, holds_append]
    refine ⟨hword, ⟨hbody, hnew⟩, ?_⟩
    rwa [List.length_append, ← Nat.add_assoc]
  · rw [hbson]
  · rw [hbson]
  · intro i hi
    rw [hbuf, Mem.write_before _ _ _ _ (by omega), Mem.write_before _ _ _ _ hi,
      Mem.write_before _ _ _ _ (by omega)]

/-- What an append does: nothing, or the stores in the grown buffer. -/
theorem bsonAppendInternal_cases (fresh : Nat → Mem) (c : Chain) (args : AppendArgs) :
    bsonAppendInternal fresh c args = .failed c ∨
      ∃ c1, bsonGrow fresh args.nBytes c = some c1 ∧
        bsonAppendInternal fresh c args = .ok (appendVa c1 args) := by
  unfold bsonAppendInternal
  split
  · exact Or.inl rfl
  · cases hgrow : bsonGrow fresh args.nBytes c with
    | none => exact Or.inl rfl
    | some c1 => exact Or.inr ⟨c1, rfl, rfl⟩

theorem bsonAppendInternal_stored {fresh : Nat → Mem} {c c' : Chain} {args : AppendArgs}
    (h : bsonAppendInternal fresh c args = .ok c') :
    ∃ c1, bsonGrow fresh args.nBytes c = some c1 ∧ c' = appendVa c1 args := by
  rcases bsonAppendInternal_cases fresh c args with hfailed | ⟨c1, hgrow, hok⟩
  · rw [hfailed] at h
    cases h
  · rw [hok] at h
    exact ⟨c1, hgrow, (Outcome.ok.inj h).symm⟩

/-- An append that returns true has appended its octets. -/
theorem bsonAppendInternal_ok {fresh : Nat → Mem} {c c' : Chain} {body : Bytes} {args : AppendArgs}
    (h : bsonAppendInternal fresh c args = .ok c') (hold : Carries c body)
    (hn : args.size ≤ args.nBytes + 1) (hlt : args.nBytes < 4294967296)
    (hsize : c.bson.len + args.size < 4294967296) :
    Holding c' (body ++ args.bytes) ∧ SameSpot c c' := by
  obtain ⟨c1, hgrow, rfl⟩ := bsonAppendInternal_stored h
  have hg := bsonGrow_spec hgrow hold.fits (by omega) hlt
  have hroom := hg.room
  have hcar := hold.grown hg
  obtain ⟨hh, hs⟩ := appendVa_holding args hcar
    (by rw [hg.bson]; omega) (by rw [hg.bson]; exact hsize)
  refine ⟨hh, ⟨hs.parents.trans hg.parents, hs.offset.trans (by rw [hg.bson]),
    hs.depth.trans (by rw [hg.bson]), fun i hi => ?_⟩⟩
  have hlen := hold.len
  rw [hs.before i (by rw [hg.bson]; exact hi)]
  exact hg.content i (by omega)

/-- Below 1 GiB an append returns true. -/
theorem bsonAppendInternal_success (fresh : Nat → Mem) {c : Chain} {body : Bytes}
    (args : AppendArgs) (hold : Carries c body) (hgrow : c.growable = true)
    (hsize : c.bson.offset + c.bson.len + args.nBytes + c.bson.depth ≤ 1073741824) :
    ∃ c', bsonAppendInternal fresh c args = .ok c' ∧ c'.growable = true ∧
      c'.isInline = (c.isInline && decide (c.bson.len + args.nBytes ≤ 120)) := by
  have hlen := hold.len
  obtain ⟨c1, h1, h2, h3⟩ := bsonGrow_some fresh args.nBytes hgrow (by omega) hsize
  have hmax : ¬ args.nBytes > u64sub bsonMaxSize c.bson.len := by
    unfold bsonMaxSize
    rw [u64sub_of_le (by omega) (by omega)]
    omega
  refine ⟨appendVa c1 args, ?_, ?_, ?_⟩
  · rw [bsonAppendInternal, if_neg hmax, h1]
  · rw [appendVa, Chain.update_growable, h2]
  · rw [appendVa, Chain.update_isInline, h3]

/-! ## Begin and end of a child -/

/-- The innermost document is an empty child, opened in a parent that has the
octets `pre` in front of it. -/
structure ChildOf (c c' : Chain) (pre : Bytes) : Prop where
  parents : c'.parents = { c.bson with len := pre.length + 10 } :: c.parents
  offset : c'.bson.offset = c.bson.offset + 4 + pre.length
  depth : c'.bson.depth = c.bson.depth + 1
  before : ∀ i, i < c.bson.offset → c'.buf i = c.buf i
  elements : Holds c'.buf (c.bson.offset + 4) pre

theorem begin_bytes {t : BsonType} {key : Bytes} {keyLength : Int} {k : CStr}
    (hkey : k.bytes = textOf key keyLength) (hk : k.bytes.length < 2147483648) :
    (bsonAppendBsonBegin t key keyLength).bytes = header t k ++ frame [] := by
  rw [bsonAppendBsonBegin, keyedAppend_bytes hkey hk]
  · rfl
  · rfl

theorem begin_size_eq {t : BsonType} {key : Bytes} {keyLength : Int} {k : CStr}
    (hkey : k.bytes = textOf key keyLength) (hk : k.bytes.length < 2147483648) :
    (bsonAppendBsonBegin t key keyLength).size = k.bytes.length + 7 := by
  rw [← AppendArgs.bytes_length, begin_bytes hkey hk, List.length_append, header_length,
    frame_length]
  simp

/-- After the empty document has been appended to a heap parent it becomes the child. -/
theorem openChild_ok {c c' : Chain} {body hdr : Bytes} (h : openChild c = .ok c')
    (hold : Holding c (body ++ (hdr ++ frame []))) :
    Holding c' [] ∧ ChildOf c c' (body ++ hdr) ∧ c'.growable = c.growable := by
  cases c with
  | inline data len => cases h
  | alloc buf buflen realloc bson parents =>
    simp only [openChild, Outcome.ok.injEq] at h
    obtain ⟨⟨⟨hlen5, hroom, haddr⟩, hlen, -, hroot⟩, hcontent⟩ := hold
    have hlen' : bson.len = (body ++ hdr).length + 10 := by
      have hl : bson.len = (body ++ (hdr ++ frame [])).length + 5 := hlen
      rw [hl]
      simp [Nat.add_assoc]
    have hoff : bson.offset + bson.len - 1 - 5 = bson.offset + 4 + (body ++ hdr).length := by
      omega
    have hdepth : (if parents = [] then 1 else bson.depth + 1) = bson.depth + 1 := by
      split
      · next hnil =>
        have hz : bson.depth = 0 := hroot hnil
        rw [hz]
      · rfl
    have hroom' : bson.offset + bson.len + bson.depth ≤ buflen + 1 := hroom
    rw [hdepth, hoff] at h
    subst h
    -- the parent's octets up to the child, then the child
    have hall : Holds buf (bson.offset + 4) ((body ++ hdr) ++ (frame [] ++ [0])) := by
      have hc : Holds buf bson.offset (frame (body ++ (hdr ++ frame []))) := hcontent
      rw [frame, holds_append, leBytes_length] at hc
      have hassoc : body ++ (hdr ++ frame []) ++ [0] = body ++ hdr ++ (frame [] ++ [0]) := by simp
      rw [← hassoc]
      exact hc.2
    obtain ⟨hpre, hchild⟩ := (holds_append _ _ _ _).mp hall
    have hempty := ((holds_append _ _ _ _).mp hchild).1
    refine ⟨⟨⟨⟨Nat.le_refl 5, ?_, haddr⟩, rfl, holds_nil _ _, fun hnil => by cases hnil⟩,
      hempty⟩, ⟨?_, rfl, rfl, fun _ _ => rfl, hpre⟩, rfl⟩
    · show bson.offset + 4 + (body ++ hdr).length + 5 + (bson.depth + 1) ≤ buflen + 1
      omega
    · show bson :: parents = _
      rw [← hlen']

/-- The document after a call that returns, be it true or false. -/
def Outcome.chain : Outcome → Option Chain
  | .ok c => some c
  | .failed c => some c
  | .aborted => none

theorem bsonAppendInternal_returns (fresh : Nat → Mem) (c : Chain) (args : AppendArgs) :
    ∃ c', (bsonAppendInternal fresh c args).chain = some c' ∧ c'.parents = c.parents ∧
      c'.growable = c.growable := by
  rcases bsonAppendInternal_cases fresh c args with hfailed | ⟨c1, hgrow, hok⟩
  · rw [hfailed]
    exact ⟨c, rfl, rfl, rfl⟩
  · obtain ⟨-, hparents, hgrowable⟩ := bsonGrow_keeps hgrow
    rw [hok]
    refine ⟨appendVa c1 args, rfl, ?_, ?_⟩
    · rw [appendVa, Chain.update_parents, hparents]
    · rw [appendVa, Chain.update_growable, hgrowable]

theorem bsonAppendCall_returns (fresh : Nat → Mem) (c : Chain) (call : AppendCall) :
    ∃ c', (bsonAppendCall fresh c call).chain = some c' ∧ c'.parents = c.parents ∧
      c'.growable = c.growable := by
  unfold bsonAppendCall
  split
  · exact bsonAppendInternal_returns fresh c _
  · exact ⟨c, rfl, rfl, rfl⟩
  · exact ⟨c, rfl, rfl, rfl⟩

theorem openChild_heap (c : Chain) (h : c.isInline = false) :
    ∃ c', openChild c = .ok c' ∧ c'.growable = c.growable := by
  cases c with
  | inline data len => cases h
  | alloc buf buflen realloc bson parents => exact ⟨_, rfl, rfl⟩

/-- The append of the empty document and the opening of the child. -/
def appendChild (fresh : Nat → Mem) (t : BsonType) (key : Bytes) (keyLength : Int) (c : Chain) :
    Outcome :=
  match bsonAppendInternal fresh c (bsonAppendBsonBegin t key keyLength) with
  | .ok c => openChild c
  | .failed c => .failed c
  | .aborted => .aborted

theorem bsonAppendBegin_eq (fresh : Nat → Mem) (t : BsonType) (key : Bytes) (keyLength : Int)
    (c : Chain) :
    bsonAppendBegin fresh t key keyLength c =
      if c.isInline then
        if c.bson.len > 120 then .aborted
        else
          match bsonGrow fresh (u32sub 128 c.bson.len) c with
          | none => .failed c
          | some c => if c.isInline then .aborted else appendChild fresh t key keyLength c
      else appendChild fresh t key keyLength c := rfl

theorem appendChild_ok {fresh : Nat → Mem} {c c' : Chain} {body : Bytes} {t : BsonType}
    {key : Bytes} {keyLength : Int} {k : CStr}
    (h : appendChild fresh t key keyLength c = .ok c') (hold : Carries c body)
    (hkey : k.bytes = textOf key keyLength)
    (hsize : body.length + k.bytes.length + 12 ≤ 2147483648) :
    Holding c' [] ∧ ChildOf c c' (body ++ header t k) := by
  have hk : k.bytes.length < 2147483648 := by omega
  have hargs := begin_size_eq (t := t) hkey hk
  have hn := begin_nBytes t key keyLength
  rw [hargs, u32_of_lt (by omega)] at hn
  have hlen := hold.len
  unfold appendChild at h
  split at h
  · next c1 happ =>
    obtain ⟨hh, hs⟩ := bsonAppendInternal_ok happ hold (by omega) (by omega) (by omega)
    rw [begin_bytes hkey hk] at hh
    obtain ⟨hc, hof, -⟩ := openChild_ok h hh
    refine ⟨hc, ⟨?_, ?_, ?_, ?_, ?_⟩⟩
    · simp only [hof.parents, hs.parents, hs.offset, hs.depth]
    · rw [hof.offset, hs.offset]
    · rw [hof.depth, hs.depth]
    · intro i hi
      rw [hof.before i (by rw [hs.offset]; exact hi), hs.before i hi]
    · rw [← hs.offset]
      exact hof.elements
  · cases h
  · cases h

/-- A child that has been begun is empty, behind its key in the parent. -/
theorem bsonAppendBegin_ok {fresh : Nat → Mem} {c c' : Chain} {body : Bytes} {t : BsonType}
    {key : Bytes} {keyLength : Int} {k : CStr}
    (h : bsonAppendBegin fresh t key keyLength c = .ok c') (hold : Carries c body)
    (hkey : k.bytes = textOf key keyLength)
    (hsize : body.length + k.bytes.length + 12 ≤ 2147483648) :
    Holding c' [] ∧ ChildOf c c' (body ++ header t k) := by
  rw [bsonAppendBegin_eq] at h
  split at h
  · split at h
    · cases h
    · split at h
      · cases h
      · next c1 hgrow =>
        split at h
        · cases h
        · have hg := bsonGrow_spec hgrow hold.fits (by omega) (u32sub_lt _ _)
          have hlen := hold.len
          obtain ⟨hc, hof⟩ := appendChild_ok h (hold.grown hg) hkey hsize
          refine ⟨hc, ⟨?_, ?_, ?_, fun i hi => ?_, ?_⟩⟩
          · rw [hof.parents, hg.bson, hg.parents]
          · rw [hof.offset, hg.bson]
          · rw [hof.depth, hg.bson]
          · rw [hof.before i (by rw [hg.bson]; exact hi)]
            exact hg.content i (by omega)
          · rw [← hg.bson]
            exact hof.elements
  · exact appendChild_ok h hold hkey hsize

/-- Below 1 GiB a child can be begun, unless an assertion fails: the parent is
inline and longer than its 120 octets. -/
theorem bsonAppendBegin_success (fresh : Nat → Mem) {c : Chain} {body : Bytes} (t : BsonType)
    {key : Bytes} {keyLength : Int} {k : CStr} (hold : Carries c body)
    (hgrow : c.growable = true) (hinline : ¬ (c.isInline = true ∧ c.bson.len > 120))
    (hkey : k.bytes = textOf key keyLength)
    (hsize : c.bson.offset + c.bson.len + k.bytes.length + 7 + c.bson.depth ≤ 1073741824) :
    ∃ c', bsonAppendBegin fresh t key keyLength c = .ok c' ∧ c'.growable = true := by
  have hk : k.bytes.length < 2147483648 := by omega
  have hargs := begin_size_eq (t := t) hkey hk
  have hn := begin_nBytes t key keyLength
  rw [hargs, u32_of_lt (by omega)] at hn
  -- on the heap the append of the empty document opens the child
  have heap : ∀ c1, c1.isInline = false → c1.growable = true → Carries c1 body →
      c1.bson = c.bson → ∃ c', appendChild fresh t key keyLength c1 = .ok c' ∧
        c'.growable = true := by
    intro c1 hi1 hg1 hcar1 hb1
    obtain ⟨c2, h2, hg2, hi2⟩ := bsonAppendInternal_success fresh
      (bsonAppendBsonBegin t key keyLength) hcar1 hg1 (by rw [hb1]; omega)
    rw [hi1, Bool.false_and] at hi2
    obtain ⟨c3, h3, hg3⟩ := openChild_heap c2 hi2
    exact ⟨c3, by rw [appendChild, h2]; exact h3, hg3.trans hg2⟩
  rw [bsonAppendBegin_eq]
  cases hi : c.isInline with
  | false => simpa using heap c hi hgrow hold rfl
  | true =>
    have h120 : ¬ c.bson.len > 120 := fun hgt => hinline ⟨hi, hgt⟩
    have hlen := hold.len
    have hsub : u32sub 128 c.bson.len = 128 - c.bson.len := u32sub_of_le (by omega) (by omega)
    obtain ⟨c1, h1, hg1, hi1⟩ := bsonGrow_some fresh (u32sub 128 c.bson.len)
      hgrow (by omega) (by
        rw [hsub]
        cases c with
        | inline data len =>
          show 0 + len + (128 - len) + 0 ≤ 1073741824
          have hl : ¬ len > 120 := h120
          omega
        | alloc buf buflen realloc bson parents => cases hi)
    have hheap : c1.isInline = false := by
      rw [hi1, hsub, hi, Bool.true_and, decide_eq_false_iff_not]
      omega
    have hg := bsonGrow_spec h1 hold.fits (by omega) (u32sub_lt _ _)
    simpa [h120, h1, hheap] using heap c1 hheap hg1 (hold.grown hg) hg.bson

/-- Ending a child makes it an element of its parent. -/
theorem bsonAppendBsonEnd_ok {p c c' : Chain} {pre inner : Bytes}
    (h : bsonAppendBsonEnd c = .ok c') (hold : Holding c inner) (hof : ChildOf p c pre)
    (hsize : pre.length + inner.length + 10 ≤ 2147483648)
    (hroot : p.parents = [] → p.bson.depth = 0) :
    Holding c' (pre ++ frame inner) ∧ SameSpot p c' ∧ c'.growable = c.growable := by
  cases c with
  | inline data len => cases h
  | alloc buf buflen realloc child parents =>
    have hparents : parents = { p.bson with len := pre.length + 10 } :: p.parents := hof.parents
    have hoff : child.offset = p.bson.offset + 4 + pre.length := hof.offset
    have hdepth : child.depth = p.bson.depth + 1 := hof.depth
    have hlen : child.len = inner.length + 5 := hold.len
    have hroom : child.offset + child.len + child.depth ≤ buflen + 1 := hold.fits.room
    have hcontent : Holds buf child.offset (frame inner) := hold.content
    have helem : Holds buf (p.bson.offset + 4) pre := hof.elements
    subst hparents
    have hnew : u32 (u32sub (pre.length + 10 + child.len) 5) = (pre ++ frame inner).length + 5 := by
      rw [u32sub_of_le (by omega) (by omega), u32_of_lt (by omega), List.length_append,
        frame_length]
      omega
    simp only [bsonAppendBsonEnd, Outcome.ok.injEq, hnew] at h
    have hflen : (pre ++ frame inner).length = pre.length + inner.length + 5 := by
      rw [List.length_append, frame_length]
      omega
    generalize hm : runStores buf [(p.bson.offset + ((pre ++ frame inner).length + 5) - 1, [0]),
      (p.bson.offset, leBytes 4 ((pre ++ frame inner).length + 5))] = m at h
    have hbuf : m = (buf.write (p.bson.offset + 4 + (pre ++ frame inner).length) [0]).write
        p.bson.offset (leBytes 4 ((pre ++ frame inner).length + 5)) := by
      rw [← hm, show p.bson.offset + ((pre ++ frame inner).length + 5) - 1 =
        p.bson.offset + 4 + (pre ++ frame inner).length by omega]
      rfl
    have hbody : Holds m (p.bson.offset + 4) (pre ++ frame inner) := by
      rw [hbuf]
      refine Mem.holds_write_frame (Mem.holds_write_frame ?_ (by omega)) ?_
      · rw [holds_append, ← hoff]
        exact ⟨helem, hcontent⟩
      · rw [leBytes_length]
        omega
    have hword : Holds m p.bson.offset (leBytes 4 ((pre ++ frame inner).length + 5)) := by
      rw [hbuf]
      exact Mem.holds_write_self _ _ _
    have hnul : Holds m (p.bson.offset + 4 + (pre ++ frame inner).length) [0] := by
      rw [hbuf]
      refine Mem.holds_write_frame (Mem.holds_write_self _ _ _) ?_
      rw [leBytes_length]
      omega
    subst h
    refine ⟨⟨⟨⟨?_, ?_, hold.fits.addressable⟩, rfl, hbody, hroot⟩, ?_⟩,
      ⟨rfl, rfl, rfl, fun i hi => ?_⟩, rfl⟩
    · show 5 ≤ (pre ++ frame inner).length + 5
      omega
    · show p.bson.offset + ((pre ++ frame inner).length + 5) + p.bson.depth ≤ buflen + 1
      omega
    · show Holds m p.bson.offset (frame (pre ++ frame inner))
      rw [frame, holds_append, leBytes_length, holds_append]
      exact ⟨hword, hbody, hnul⟩
    · show m i = p.buf i
      have hi' : i < p.bson.offset := hi
      rw [hbuf, Mem.write_before _ _ _ _ hi', Mem.write_before _ _ _ _ (by omega)]
      exact hof.before i hi

end LibBson.Source
