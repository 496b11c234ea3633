import LibBson.Source.Buffer
import Mathlib.Data.List.TakeDrop

/-!
# Sizes, growth and stores of an append

One lemma for each helper of bson.c:84-408: what the declared total is, what
`_bson_grow` leaves, which octets `_bson_append_va` stores.
-/

set_option autoImplicit false

namespace LibBson.Source
open LibBson.Library

/-! ## Declared totals -/

@[simp] theorem pairsLength_nil : pairsLength [] = 0 := rfl

@[simp] theorem pairsLength_cons (p : Nat × Bytes) (ps : List (Nat × Bytes)) :
    pairsLength (p :: ps) = p.1 + pairsLength ps := rfl

theorem keyedAppend_used (type : BsonType) (key : Bytes) (keyLength : Int) (nPairs : Nat)
    (valueBytes : Int) (value : List (Nat × Bytes)) (h : nPairs = value.length + 3) :
    (keyedAppend type key keyLength nPairs valueBytes value).used =
      (1, [type.toByte]) :: (ofInt32 (defaultKeyLength key keyLength), key) :: (1, [0]) ::
        value := by
  subst h
  rw [AppendArgs.used]
  exact List.take_of_length_le (by simp [keyedAppend])

theorem keyedAppend_size (type : BsonType) (key : Bytes) (keyLength : Int) (nPairs : Nat)
    (valueBytes : Int) (value : List (Nat × Bytes)) (h : nPairs = value.length + 3) :
    (keyedAppend type key keyLength nPairs valueBytes value).size =
      2 + ofInt32 (defaultKeyLength key keyLength) + pairsLength value := by
  rw [AppendArgs.size, keyedAppend_used _ _ _ _ _ _ h]
  simp only [pairsLength_cons]
  omega

/-- Where the value's octets are declared right modulo `2 ^ 32`, the total is
the number of octets handed over, reduced to 32 bits. -/
theorem keyedAppend_nBytes (type : BsonType) (key : Bytes) (keyLength : Int) (nPairs : Nat)
    (valueBytes : Int) (value : List (Nat × Bytes)) (h : nPairs = value.length + 3)
    (declared : (valueBytes - pairsLength value) % 4294967296 = 0) :
    (keyedAppend type key keyLength nPairs valueBytes value).nBytes =
      u32 (keyedAppend type key keyLength nPairs valueBytes value).size := by
  rw [keyedAppend_size _ _ _ _ _ _ h]
  simp only [keyedAppend, ofInt32, u32]
  omega

/-! ## Growth -/

/-- The innermost document lies in its buffer, with an octet for the NUL of each
of its parents; `slack` octets may already stand past the end. No object is as
large as `2 ^ 62` octets. -/
structure Chain.Fits (c : Chain) (slack : Nat) : Prop where
  len : 5 ≤ c.bson.len
  room : c.bson.offset + c.bson.len + c.bson.depth ≤ c.capacity + slack
  addressable : c.capacity < 4611686018427387904

/-- What `_bson_grow` leaves: the same document in front of its NUL, and room for
`size` more octets. -/
structure Grown (c c' : Chain) (size : Nat) : Prop where
  bson : c'.bson = c.bson
  parents : c'.parents = c.parents
  room : c.bson.offset + c.bson.len + size + c.bson.depth ≤ c'.capacity
  addressable : c'.capacity < 4611686018427387904
  content : ∀ i, i + 1 < c.bson.offset + c.bson.len → c'.buf i = c.buf i

theorem bsonImplInlineGrow_spec {fresh : Nat → Mem} {data : Mem} {len size : Nat} {c' : Chain}
    (h : bsonImplInlineGrow fresh data len size = some c') (hlen : 1 ≤ len)
    (hsmall : len + size < 9223372036854775808) :
    Grown (.inline data len) c' size := by
  unfold bsonImplInlineGrow at h
  split at h
  · next hfits =>
    cases h
    exact ⟨rfl, rfl, by simpa [Chain.bson, Chain.capacity] using hfits,
      by simp [Chain.capacity, bsonInlineDataSize], fun _ _ => rfl⟩
  · have hle : len + size ≤ nextPowerOfTwo (u64 (len + size)) := by
      have hu : u64 (len + size) = len + size := Nat.mod_eq_of_lt (by omega)
      rw [hu]
      exact le_nextPowerOfTwo (len + size) (by omega) (by omega)
    simp only at h
    -- from here on only the bounds of the new size matter
    generalize nextPowerOfTwo (u64 (len + size)) = req at h hle
    split at h
    · next hreq =>
      cases h
      unfold int32Max at hreq
      refine ⟨rfl, rfl, by simpa [Chain.bson, Chain.capacity] using hle, ?_, ?_⟩
      · simp only [Chain.capacity]
        omega
      · intro i hi
        simp only at hi
        exact Mem.copyPrefix_of_lt _ _ _ _ (by omega)
    · cases h

theorem bsonImplAllocGrow_spec {fresh : Nat → Mem} {buf : Mem} {buflen : Nat} {realloc : Bool}
    {bson : Impl} {parents : List Impl} {size slack : Nat} {c' : Chain}
    (h : bsonImplAllocGrow fresh buf buflen realloc bson parents size = some c')
    (fits : (Chain.alloc buf buflen realloc bson parents).Fits slack) (hslack : slack ≤ 1)
    (hsize : size < 4294967296) :
    Grown (.alloc buf buflen realloc bson parents) c' size := by
  obtain ⟨hlen, hroom, haddr⟩ := fits
  simp only [Chain.bson, Chain.capacity] at hlen hroom haddr
  unfold bsonImplAllocGrow at h
  have hu : u64 (bson.offset + bson.len + size + bson.depth) =
      bson.offset + bson.len + size + bson.depth := Nat.mod_eq_of_lt (by omega)
  have hle := le_nextPowerOfTwo (bson.offset + bson.len + size + bson.depth) (by omega) (by omega)
  simp only [hu] at h
  generalize nextPowerOfTwo (bson.offset + bson.len + size + bson.depth) = req at h hle
  split at h
  · next hreq =>
    cases h
    exact ⟨rfl, rfl, hreq, haddr, fun _ _ => rfl⟩
  · split at h
    · next hreq =>
      cases h
      unfold int32Max at hreq
      refine ⟨rfl, rfl, hle, by simp only [Chain.capacity]; omega, fun i hi => ?_⟩
      simp only [Chain.bson] at hi
      exact Mem.copyPrefix_of_lt _ _ _ _ (by omega)
    · cases h

/-- `bson_grow` on a document of either kind. -/
theorem bsonGrow_spec {fresh : Nat → Mem} {c c' : Chain} {size slack : Nat}
    (h : bsonGrow fresh size c = some c') (fits : c.Fits slack) (hslack : slack ≤ 1)
    (hsize : size < 4294967296) : Grown c c' size := by
  cases c with
  | inline data len =>
    have hroom : 0 + len + 0 ≤ 120 + slack := fits.room
    have hlen : 5 ≤ len := fits.len
    exact bsonImplInlineGrow_spec h (by omega) (by omega)
  | alloc buf buflen realloc bson parents => exact bsonImplAllocGrow_spec h fits hslack hsize

/-! ## Stores -/

@[simp] theorem copied_length (s : Bytes) (n : Nat) : (copied s n).length = n :=
  List.takeD_length n s 0

/-- The pairs are stored one after the other. -/
theorem mem_appendPairs {buf : Nat} {pairs : List (Nat × Bytes)} {s : Nat × Bytes}
    (h : s ∈ appendPairs buf pairs) :
    buf ≤ s.1 ∧ s.1 + s.2.length ≤ buf + pairsLength pairs := by
  induction pairs generalizing buf with
  | nil => cases h
  | cons p ps ih =>
    simp only [appendPairs, List.mem_cons] at h
    rw [pairsLength_cons]
    rcases h with rfl | h
    · simp
    · obtain ⟨h1, h2⟩ := ih h
      omega

/-- The octets of an append. -/
def AppendArgs.bytes (args : AppendArgs) : Bytes := args.used.flatMap fun p => copied p.2 p.1

theorem pairs_bytes_length (pairs : List (Nat × Bytes)) :
    (pairs.flatMap fun p => copied p.2 p.1).length = pairsLength pairs := by
  induction pairs with
  | nil => rfl
  | cons p ps ih => simp [ih]

theorem AppendArgs.bytes_length (args : AppendArgs) : args.bytes.length = args.size :=
  pairs_bytes_length args.used

theorem runStores_append (m : Mem) (s t : List (Nat × Bytes)) :
    runStores m (s ++ t) = runStores (runStores m s) t := by
  simp [runStores]

/-- The loop of `_bson_append_va` is one copy of all the octets. -/
theorem runStores_appendPairs (m : Mem) (buf : Nat) (pairs : List (Nat × Bytes)) :
    runStores m (appendPairs buf pairs) =
      m.write buf (pairs.flatMap fun p => copied p.2 p.1) := by
  induction pairs generalizing m buf with
  | nil => simp [appendPairs, runStores]
  | cons p ps ih =>
    have hrest := ih (m.write buf (copied p.2 p.1)) (buf + p.1)
    have hjoin := Mem.write_write_append m buf (copied p.2 p.1)
      (ps.flatMap fun p => copied p.2 p.1)
    rw [copied_length] at hjoin
    rw [List.flatMap_cons, ← hjoin, ← hrest]
    rfl

end LibBson.Source
