import LibBson.Source.OpenChain

/-!
# The true size of an element and the lengths it changes

Element sizes without any 32-bit conversion, when an append is refused, and the
lengths that the open documents have once their children are ended.
Source: bson.c:115-186, 310-565, 752-1958.
-/

set_option autoImplicit false

namespace LibBson.Source
open LibBson.Library

/-! ## True sizes -/

def trueTextSize (s : Bytes) (length : Int) : Nat :=
  if length < 0 then strlen s else length.toNat

def trueStringSize (s : Bytes) : Nat := strlen s + 1

def trueValueSize : Field → Nat
  | .code j => 4 + trueStringSize j
  | .codeWithScope j none => 4 + trueStringSize j
  | .codeWithScope j (some scope) => 8 + trueStringSize j + scope.len
  | .dbpointer c _ => 4 + trueStringSize c + 12
  | .regex r o =>
    trueStringSize (r.getD []) + ((bsonAppendRegexOptionsSorted (o.getD [])).length + 1)
  | .utf8 (some v) length | .symbol (some v) length => 4 + trueTextSize v length + 1
  | f => valueSize f

/-- The size of the element a call appends, over unbounded integers. -/
def trueSize : Step → Nat
  | .append (.concat src) => if bsonEmpty src then 0 else u32sub src.len 5
  | .append call =>
    match call.keyed with
    | some (key, keyLength, f) => 2 + trueTextSize key keyLength + trueValueSize f
    | none => 0
  | .documentBegin key keyLength | .arrayBegin key keyLength =>
    2 + trueTextSize key keyLength + 5
  | .end => 0

/-- What the call's `n_bytes` counts of it: for a regex all but the last NUL. -/
def trueDeclared (s : Step) : Nat := if appendsRegex s then trueSize s - 1 else trueSize s

theorem trueTextSize_eq {s : Bytes} {length : Int} (h : trueTextSize s length < 4294967296) :
    keySize s length = trueTextSize s length := by
  unfold keySize trueTextSize at *
  split at h
  · rename_i hneg
    rw [if_pos hneg, if_pos hneg, u32_of_lt h]
  · rename_i hneg
    rw [if_neg hneg, if_neg hneg, ofInt32_of_nonneg (by omega) (by omega)]

theorem trueStringSize_eq {s : Bytes} (h : trueStringSize s < 4294967296) :
    cStringSize s = trueStringSize s := u32_of_lt h

theorem trueValueSize_eq {f : Field} (h : trueValueSize f < 4294967296) :
    valueSize f = trueValueSize f := by
  cases f
  case code j =>
    simp only [trueValueSize] at h ⊢
    rw [valueSize, trueStringSize_eq (by omega)]
  case codeWithScope j scope =>
    cases scope <;> simp only [trueValueSize] at h ⊢ <;>
      rw [valueSize, trueStringSize_eq (by omega)]
  case dbpointer c oid =>
    simp only [trueValueSize] at h ⊢
    rw [valueSize, trueStringSize_eq (by omega)]
  case regex r o =>
    simp only [trueValueSize] at h ⊢
    rw [valueSize, trueStringSize_eq (by omega)]
  case utf8 v length =>
    cases v
    case none => rfl
    case some v =>
      simp only [trueValueSize] at h ⊢
      rw [valueSize, textSize, trueTextSize_eq (by omega)]
  case symbol v length =>
    cases v
    case none => rfl
    case some v =>
      simp only [trueValueSize] at h ⊢
      rw [valueSize, textSize, trueTextSize_eq (by omega)]
  all_goals rfl

/-- Below `2 ^ 32` no conversion on the way to the size loses anything. -/
theorem trueSize_eq {s : Step} {args : AppendArgs} (h : stepArgs s = some args)
    (hlt : trueDeclared s < 4294967296) : stepSize s = trueSize s := by
  have hle : trueSize s ≤ 4294967296 := by
    unfold trueDeclared at hlt
    split at hlt <;> omega
  cases s with
  | append call =>
    cases hk : call.keyed with
    | some k =>
      obtain ⟨key, keyLength, f⟩ := k
      have htrue : trueSize (.append call) = 2 + trueTextSize key keyLength + trueValueSize f := by
        cases call <;> first | cases hk; done | simp [trueSize, hk]
      rw [htrue] at hle ⊢
      rw [(keyed_call hk).2.1, elementSize, trueTextSize_eq (by omega), trueValueSize_eq (by omega)]
    | none =>
      cases call with
      | concat src =>
        cases he : bsonEmpty src with
        | true => simp [stepArgs, AppendCall.request, he] at h
        | false => simp [stepSize, trueSize, he]
      | field key keyLength f => cases hk
      | value key keyLength v => simp [stepSize, trueSize, hk]
      | iter key keyLength it => simp [stepSize, trueSize, hk]
  | documentBegin key keyLength =>
    simp only [trueSize] at hle ⊢
    rw [stepSize, trueTextSize_eq (by omega)]
  | arrayBegin key keyLength =>
    simp only [trueSize] at hle ⊢
    rw [stepSize, trueTextSize_eq (by omega)]
  | «end» => rfl

theorem stepArgs_declared {s : Step} {args : AppendArgs} (h : stepArgs s = some args)
    (hlt : trueDeclared s < 4294967296) : args.nBytes = trueDeclared s ∧ args.size = trueSize s := by
  obtain ⟨hsize, hexact, hregex⟩ := stepArgs_spec h
  have heq := trueSize_eq h hlt
  refine ⟨?_, by rw [hsize, heq]⟩
  unfold trueDeclared at hlt ⊢
  split
  case isTrue hr =>
    rw [if_pos hr] at hlt
    rw [(hregex hr).2, heq, u32_of_lt hlt]
  case isFalse hr =>
    rw [if_neg hr] at hlt
    rw [hexact (by simpa using hr), heq, u32_of_lt hlt]

theorem stepArgs_nBytes_lt {s : Step} {args : AppendArgs} (h : stepArgs s = some args) :
    args.nBytes < 4294967296 := by
  obtain ⟨-, hexact, hregex⟩ := stepArgs_spec h
  cases hr : appendsRegex s with
  | true =>
    rw [(hregex hr).2]
    exact u32_lt _
  | false =>
    rw [hexact hr]
    exact u32_lt _

/-- A call that reaches no `_bson_append` appends nothing. -/
theorem trueSize_none {s : Step} (h : stepArgs s = none) : trueSize s = 0 ∧ trueDeclared s = 0 := by
  have hsize : trueSize s = 0 := by
    cases s with
    | append call =>
      cases hk : call.keyed with
      | some k =>
        obtain ⟨key, keyLength, f⟩ := k
        rw [(keyed_call hk).1] at h
        cases h
      | none =>
        cases call with
        | concat src =>
          cases he : bsonEmpty src with
          | true => simp [trueSize, he]
          | false => simp [stepArgs, AppendCall.request, he] at h
        | field key keyLength f => cases hk
        | value key keyLength v => simp [trueSize, hk]
        | iter key keyLength it => simp [trueSize, hk]
    | documentBegin key keyLength => cases h
    | arrayBegin key keyLength => cases h
    | «end» => rfl
  refine ⟨hsize, ?_⟩
  unfold trueDeclared
  split <;> omega

/-! ## When an append is refused -/

/-- `_bson_grow` finds no room for `size` octets and cannot make it. -/
def Chain.Full (c : Chain) (size : Nat) : Prop :=
  c.capacity < c.bson.offset + c.bson.len + size + c.bson.depth ∧
    (c.growable = false ∨ 1073741824 < c.bson.offset + c.bson.len + size + c.bson.depth)

/-- `_bson_append` returns false: the document would be longer than
`BSON_MAX_SIZE`, or its buffer cannot take the octets. -/
def Chain.Refuses (c : Chain) (size : Nat) : Prop :=
  bsonMaxSize < c.bson.len + size ∨ c.Full size

instance (c : Chain) (size : Nat) : Decidable (c.Full size) :=
  inferInstanceAs (Decidable (_ ∧ (_ ∨ _)))

instance (c : Chain) (size : Nat) : Decidable (c.Refuses size) :=
  inferInstanceAs (Decidable (_ ∨ _))

theorem bsonGrow_none_iff {fresh : Nat → Mem} {c : Chain} {size : Nat} (fits : c.Fits 1)
    (hsize : size < 4294967296) : bsonGrow fresh size c = none ↔ c.Full size := by
  obtain ⟨hlen, hroom, haddr⟩ := fits
  have hpow : ∀ v : Nat, 1 ≤ v → v ≤ 9223372036854775808 →
      (nextPowerOfTwo v ≤ int32Max ↔ v ≤ 1073741824) := by
    intro v h1 hv
    unfold int32Max
    constructor
    · intro hle
      by_contra hgt
      have := lt_nextPowerOfTwo v 30 (by omega) hv
      omega
    · intro hle
      have := nextPowerOfTwo_le v 30 h1 (by omega) (by omega)
      omega
  cases c with
  | inline data len =>
    simp only [Chain.capacity, bsonInlineDataSize] at hlen hroom
    have hu : u64 (len + size) = len + size := Nat.mod_eq_of_lt (by omega)
    simp only [bsonGrow, bsonImplInlineGrow, Chain.Full, Chain.capacity,
      Chain.growable, bsonInlineDataSize, hu]
    have hp := hpow (len + size) (by omega) (by omega)
    split
    · simp
      omega
    · split
      · simp
        omega
      · simp
        omega
  | alloc buf buflen realloc bson parents =>
    simp only [Chain.bson, Chain.capacity] at hlen hroom haddr
    have hu : u64 (bson.offset + bson.len + size + bson.depth) =
      bson.offset + bson.len + size + bson.depth := Nat.mod_eq_of_lt (by omega)
    have hp := hpow (bson.offset + bson.len + size + bson.depth) (by omega) (by omega)
    simp only [bsonGrow, bsonImplAllocGrow, Chain.Full, Chain.capacity, Chain.bson,
      Chain.growable, hu, hp]
    split
    · simp
      omega
    · split
      · rename_i hr
        simp [hr.2]
        omega
      · rename_i hr
        cases realloc <;> simp at hr ⊢ <;> omega

theorem bsonGrow_heap {fresh : Nat → Mem} {c c' : Chain} {size : Nat}
    (h : bsonGrow fresh size c = some c') (hheap : c.isInline = false) : c'.isInline = false := by
  cases c with
  | inline data len => cases hheap
  | alloc buf buflen realloc bson parents =>
    simp only [bsonGrow, bsonImplAllocGrow] at h
    split at h
    · cases h
      rfl
    · split at h
      · cases h
        rfl
      · cases h

theorem bsonAppendInternal_refused (fresh : Nat → Mem) {c : Chain} {args : AppendArgs}
    (fits : c.Fits 1) (hlen : c.bson.len ≤ bsonMaxSize) (hsize : args.nBytes < 4294967296)
    (h : c.Refuses args.nBytes) : bsonAppendInternal fresh c args = .failed c := by
  unfold bsonAppendInternal
  have hmax : bsonMaxSize < 18446744073709551616 := by decide
  rw [u64sub_of_le hmax hlen]
  by_cases hbig : args.nBytes > bsonMaxSize - c.bson.len
  · rw [if_pos hbig]
  · have hfull : c.Full args.nBytes := h.resolve_left (by omega)
    rw [if_neg hbig, (bsonGrow_none_iff fits hsize).mpr hfull]

/-- Otherwise the document is longer by what is handed over. -/
theorem bsonAppendInternal_accepted (fresh : Nat → Mem) {c : Chain} {args : AppendArgs}
    (fits : c.Fits 1) (hlen : c.bson.len ≤ bsonMaxSize) (hsize : args.nBytes < 4294967296)
    (h : ¬ c.Refuses args.nBytes) :
    ∃ c', bsonAppendInternal fresh c args = .ok c' ∧
      c'.bson = { c.bson with len := u32 (c.bson.len + args.size) } ∧ c'.parents = c.parents ∧
      (c.isInline = false → c'.isInline = false) := by
  unfold bsonAppendInternal
  have hmax : bsonMaxSize < 18446744073709551616 := by decide
  have hle : ¬ bsonMaxSize < c.bson.len + args.nBytes := fun hgt => h (Or.inl hgt)
  have hroom : ¬ args.nBytes > bsonMaxSize - c.bson.len := by omega
  rw [u64sub_of_le hmax hlen, if_neg hroom]
  cases hgrow : bsonGrow fresh args.nBytes c with
  | none => exact absurd (Or.inr ((bsonGrow_none_iff fits hsize).mp hgrow)) h
  | some c1 =>
    have hg := bsonGrow_spec hgrow fits (Nat.le_refl 1) hsize
    refine ⟨appendVa c1 args, rfl, ?_, ?_, ?_⟩
    · rw [appendVa, Chain.update_bson, hg.bson, appendedLen]
    · rw [appendVa, Chain.update_parents, hg.parents]
    · intro hheap
      rw [appendVa, Chain.update_isInline]
      exact bsonGrow_heap hgrow hheap

/-! ## Lengths of the open documents -/

/-- The length of the innermost document, and of each it is a child of once all
inside it are ended. -/
def enclosing : Nat → List Impl → List Nat
  | len, [] => [len]
  | len, bson :: parents => len :: enclosing (bson.len + len - 5) parents

def Chain.lengths (c : Chain) : List Nat := enclosing c.bson.len c.parents

/-- A `bson_t` with any chain of open parents: each document is at least an empty
one, and none becomes longer than `BSON_MAX_SIZE` when what is open is ended. -/
structure Chain.Open (c : Chain) : Prop where
  fits : c.Fits 1
  least : ∀ bson ∈ c.parents, 5 ≤ bson.len
  lengths : ∀ n ∈ c.lengths, n ≤ bsonMaxSize

theorem enclosing_head (len : Nat) (parents : List Impl) : len ∈ enclosing len parents := by
  cases parents <;> simp [enclosing]

theorem Chain.Open.len {c : Chain} (h : c.Open) : c.bson.len ≤ bsonMaxSize :=
  h.lengths _ (enclosing_head _ _)

theorem enclosing_length (len : Nat) (parents : List Impl) :
    (enclosing len parents).length = parents.length + 1 := by
  induction parents generalizing len with
  | nil => rfl
  | cons bson parents ih => rw [enclosing, List.length_cons, ih, List.length_cons]

/-- What is added to a document is added to all around it. -/
theorem enclosing_add (len n : Nat) (parents : List Impl) (hlen : 5 ≤ len)
    (hleast : ∀ bson ∈ parents, 5 ≤ bson.len) :
    enclosing (len + n) parents = (enclosing len parents).map (· + n) := by
  induction parents generalizing len with
  | nil => rfl
  | cons bson parents ih =>
    have hbson := hleast bson (List.mem_cons_self ..)
    have hsum : bson.len + (len + n) - 5 = bson.len + len - 5 + n := by omega
    rw [enclosing, enclosing, List.map_cons, hsum, ih _ (by omega) fun b hb =>
      hleast b (List.mem_cons_of_mem _ hb)]

theorem bsonAppendBsonEnd_len {c : Chain} {bson : Impl} {parents : List Impl}
    (h : c.parents = bson :: parents) (hsum : 5 ≤ bson.len + c.bson.len)
    (hlt : bson.len + c.bson.len - 5 < 4294967296) :
    ∃ c', bsonAppendBsonEnd c = .ok c' ∧ c'.bson.len = bson.len + c.bson.len - 5 ∧
      c'.parents = parents := by
  cases c with
  | inline data len => cases h
  | alloc buf buflen realloc child chain =>
    cases h
    have hsum' : 5 ≤ bson.len + child.len := hsum
    have hlt' : bson.len + child.len - 5 < 4294967296 := hlt
    have hword : u32 (u32sub (bson.len + child.len) 5) = bson.len + child.len - 5 := by
      unfold u32 u32sub
      omega
    exact ⟨_, rfl, hword, rfl⟩

section Ends

variable (fresh : Nat → Mem)

/-- End the `k` innermost documents. -/
def endChildren (k : Nat) (c : Chain) : Outcome := bsonSteps fresh c (List.replicate k .end)

theorem endChildren_succ (k : Nat) (c : Chain) :
    endChildren fresh (k + 1) c =
      match bsonAppendBsonEnd c with
      | .ok c => endChildren fresh k c
      | stop => stop := by
  rw [endChildren, List.replicate_succ, bsonSteps, bsonStep]
  rfl

/-- Children can be ended as long as there are any. -/
theorem endChildren_ok (k : Nat) (c : Chain) (hk : k ≤ c.parents.length) :
    ∃ a, endChildren fresh k c = .ok a := by
  induction k generalizing c with
  | zero => exact ⟨c, rfl⟩
  | succ k ih =>
    cases c with
    | inline data len => simp at hk
    | alloc buf buflen realloc child chain =>
      cases chain with
      | nil => simp at hk
      | cons bson parents =>
        rw [endChildren_succ, bsonAppendBsonEnd]
        exact ih _ (Nat.le_of_succ_le_succ hk)

theorem endChildren_len (k : Nat) (c a : Chain) (hlen : 5 ≤ c.bson.len)
    (hleast : ∀ bson ∈ c.parents, 5 ≤ bson.len) (hlt : ∀ n ∈ c.lengths, n < 4294967296)
    (h : endChildren fresh k c = .ok a) : c.lengths[k]? = some a.bson.len := by
  induction k generalizing c with
  | zero =>
    obtain rfl := Outcome.ok.inj h
    rw [Chain.lengths]
    cases c.parents <;> rfl
  | succ k ih =>
    rw [endChildren_succ] at h
    cases hparents : c.parents with
    | nil =>
      cases c with
      | inline data len => cases h
      | alloc buf buflen realloc child chain =>
        obtain rfl : chain = [] := hparents
        cases h
    | cons bson parents =>
      have hbson := hleast bson (by rw [hparents]; exact List.mem_cons_self ..)
      have hlengths : c.lengths = c.bson.len :: enclosing (bson.len + c.bson.len - 5) parents := by
        rw [Chain.lengths, hparents, enclosing]
      have hsum : bson.len + c.bson.len - 5 < 4294967296 := by
        refine hlt _ ?_
        rw [hlengths]
        exact List.mem_cons_of_mem _ (enclosing_head _ _)
      obtain ⟨c1, hend, hlen1, hparents1⟩ := bsonAppendBsonEnd_len hparents (by omega) hsum
      have hlengths1 : c1.lengths = enclosing (bson.len + c.bson.len - 5) parents := by
        rw [Chain.lengths, hlen1, hparents1]
      rw [hend] at h
      rw [hlengths, List.getElem?_cons_succ, ← hlengths1]
      refine ih c1 (by omega) ?_ ?_ h
      · intro b hb
        rw [hparents1] at hb
        exact hleast b (by rw [hparents]; exact List.mem_cons_of_mem _ hb)
      · intro n hn
        rw [hlengths1] at hn
        exact hlt n (by rw [hlengths]; exact List.mem_cons_of_mem _ hn)

end Ends

/-! ## One call -/

/-- The declared size fits 32 bits, and the call is refused or leaves every open
document within `BSON_MAX_SIZE`. -/
def Admits (c : Chain) (s : Step) : Prop :=
  trueDeclared s < 4294967296 ∧
    (c.Refuses (trueDeclared s) ∨ ∀ n ∈ c.lengths, n + trueSize s ≤ bsonMaxSize)

instance (c : Chain) (s : Step) : Decidable (Admits c s) :=
  inferInstanceAs (Decidable (_ ∧ (_ ∨ ∀ n ∈ c.lengths, _)))

/-- A begin leaves a new innermost document. -/
def opened : Step → Nat
  | .documentBegin .. | .arrayBegin .. => 1
  | _ => 0

def closed : Step → Nat
  | .end => 1
  | _ => 0

/-- What a successful append leaves: the document longer by `size`, and in it a
new innermost one if a child was begun. -/
def Appended (c c' : Chain) (size : Nat) : Nat → Prop
  | 0 => c'.bson.len = u32 (c.bson.len + size) ∧ c'.parents = c.parents
  | _ => c'.bson.len = 5 ∧
    c'.parents = { c.bson with len := u32 (c.bson.len + size) } :: c.parents

theorem opened_le (s : Step) : opened s ≤ 1 := by
  cases s <;> simp [opened]

theorem Appended.parents_length {c c' : Chain} {size child : Nat} (h : Appended c c' size child)
    (hchild : child ≤ 1) : c'.parents.length = c.parents.length + child := by
  cases child with
  | zero => rw [h.2, Nat.add_zero]
  | succ child =>
    obtain rfl : child = 0 := by omega
    rw [h.2, List.length_cons]

theorem Appended.lengths {c c' : Chain} {size child : Nat} (h : Appended c c' size child)
    (hchild : child ≤ 1) (hc : c.Open) (hlt : c.bson.len + size < 4294967296) :
    c'.lengths = List.replicate child 5 ++ c.lengths.map (· + size) ∧ 5 ≤ c'.bson.len ∧
      ∀ bson ∈ c'.parents, 5 ≤ bson.len := by
  have hlen := hc.fits.len
  have hgrown : enclosing (u32 (c.bson.len + size)) c.parents = c.lengths.map (· + size) := by
    rw [u32_of_lt hlt, enclosing_add _ _ _ hlen hc.least, Chain.lengths]
  cases child with
  | zero =>
    refine ⟨?_, ?_, ?_⟩
    · rw [Chain.lengths, h.1, h.2, hgrown, List.replicate_zero, List.nil_append]
    · rw [h.1, u32_of_lt hlt]
      omega
    · rw [h.2]
      exact hc.least
  | succ child =>
    obtain rfl : child = 0 := by omega
    obtain ⟨hlen', hparents⟩ := h
    refine ⟨?_, ?_, ?_⟩
    · rw [Chain.lengths, hlen', hparents, enclosing, Nat.add_sub_cancel, hgrown]
      rfl
    · rw [hlen']
    · intro bson hbson
      rw [hparents] at hbson
      rcases List.mem_cons.mp hbson with hbson | hbson
      · rw [hbson, u32_of_lt hlt]
        simp only
        omega
      · exact hc.least bson hbson

/-- The innermost document as it was. -/
structure SameDocument (c c' : Chain) : Prop where
  bson : c'.bson = c.bson
  parents : c'.parents = c.parents
  octets : ∀ i, i < c.bson.offset + c.bson.len → c'.buf i = c.buf i

theorem SameDocument.refl (c : Chain) : SameDocument c c := ⟨rfl, rfl, fun _ _ => rfl⟩

/-- How a call that hands `args` to `_bson_append` ends. -/
structure CallOutcome (c : Chain) (args : AppendArgs) (child : Nat) (out : Outcome) : Prop where
  ok : ∀ c', out = .ok c' → ¬ c.Refuses args.nBytes ∧ Appended c c' args.size child
  failed : ∀ c', out = .failed c' → SameDocument c c'
  accepted : c.isInline = false ∨ child = 0 → ¬ c.Refuses args.nBytes → ∃ c', out = .ok c'

section Outcomes

variable (fresh : Nat → Mem) {c : Chain} {args : AppendArgs}

theorem bsonAppendInternal_outcome (hc : c.Open) (hsize : args.nBytes < 4294967296) :
    CallOutcome c args 0 (bsonAppendInternal fresh c args) := by
  by_cases hr : c.Refuses args.nBytes
  · rw [bsonAppendInternal_refused fresh hc.fits hc.len hsize hr]
    refine ⟨fun c' h => (by cases h), fun c' h => ?_, fun _ hn => absurd hr hn⟩
    obtain rfl := Outcome.failed.inj h
    exact SameDocument.refl c
  · obtain ⟨c1, hok, hbson, hparents, -⟩ :=
      bsonAppendInternal_accepted fresh hc.fits hc.len hsize hr
    rw [hok]
    refine ⟨fun c' h => ?_, fun c' h => (by cases h), fun _ _ => ⟨c1, rfl⟩⟩
    obtain rfl := Outcome.ok.inj h
    exact ⟨hr, by rw [hbson], hparents⟩

theorem openChild_shape {c c' : Chain} (h : openChild c = .ok c') :
    c'.bson.len = 5 ∧ c'.parents = c.bson :: c.parents := by
  cases c with
  | inline data len => cases h
  | alloc buf buflen realloc bson parents =>
    cases h
    exact ⟨rfl, rfl⟩

theorem appendChild_outcome (t : BsonType) (key : Bytes) (keyLength : Int) (hc : c.Open)
    (hheap : c.isInline = false) :
    CallOutcome c (bsonAppendBsonBegin t key keyLength) 1 (appendChild fresh t key keyLength c) := by
  have hsize : (bsonAppendBsonBegin t key keyLength).nBytes < 4294967296 := by
    rw [begin_nBytes]
    exact u32_lt _
  unfold appendChild
  by_cases hr : c.Refuses (bsonAppendBsonBegin t key keyLength).nBytes
  · rw [bsonAppendInternal_refused fresh hc.fits hc.len hsize hr]
    refine ⟨fun c' h => (by cases h), fun c' h => ?_, fun _ hn => absurd hr hn⟩
    obtain rfl := Outcome.failed.inj h
    exact SameDocument.refl c
  · obtain ⟨c1, hok, hbson, hparents, hkept⟩ :=
      bsonAppendInternal_accepted fresh hc.fits hc.len hsize hr
    rw [hok]
    obtain ⟨c2, hopen, -⟩ := openChild_heap c1 (hkept hheap)
    obtain ⟨hlen2, hparents2⟩ := openChild_shape hopen
    simp only [hopen]
    refine ⟨fun c' h => ?_, fun c' h => (by cases h), fun _ _ => ⟨c2, rfl⟩⟩
    obtain rfl := Outcome.ok.inj h
    exact ⟨hr, hlen2, by rw [hparents2, hbson, hparents]⟩

/-- An inline parent moves to a block of 128 octets. -/
theorem bsonGrow_inline (data : Mem) {len : Nat} (hlen : len ≤ 120) :
    bsonGrow fresh (u32sub 128 len) (.inline data len) =
      some (.alloc (data.copyPrefix (fresh 128) len) 128 true
        { len := len, depth := 0, offset := 0 } []) := by
  have hsub : u32sub 128 len = 128 - len := u32sub_of_le (by decide) (by omega)
  have hsum : len + (128 - len) = 128 := by omega
  have hreq : nextPowerOfTwo (u64 128) = 128 := by decide
  rw [bsonGrow, bsonImplInlineGrow, hsub, hsum, hreq]
  rfl

/-- The append of a child's empty document fails where `_bson_append` refuses it. -/
theorem appendChild_answers {t : BsonType} {key : Bytes} {keyLength : Int} (fits : c.Fits 1)
    (hlen : c.bson.len ≤ bsonMaxSize) (hheap : c.isInline = false) :
    (c.Refuses (bsonAppendBsonBegin t key keyLength).nBytes →
        ∃ c', appendChild fresh t key keyLength c = .failed c') ∧
      (¬ c.Refuses (bsonAppendBsonBegin t key keyLength).nBytes →
        ∃ c', appendChild fresh t key keyLength c = .ok c') := by
  have hsize : (bsonAppendBsonBegin t key keyLength).nBytes < 4294967296 := by
    rw [begin_nBytes]
    exact u32_lt _
  unfold appendChild
  constructor
  · intro hr
    rw [bsonAppendInternal_refused fresh fits hlen hsize hr]
    exact ⟨c, rfl⟩
  · intro hr
    obtain ⟨c1, hok, -, -, hkept⟩ := bsonAppendInternal_accepted fresh fits hlen hsize hr
    obtain ⟨c2, hopen, -⟩ := openChild_heap c1 (hkept hheap)
    rw [hok]
    exact ⟨c2, hopen⟩

/-- A block of 128 octets is refused what the 120 octets of an inline document are. -/
theorem refuses_moved (data m : Mem) (len n : Nat) :
    (Chain.inline data len).Refuses n ↔
      (Chain.alloc m 128 true { len := len, depth := 0, offset := 0 } []).Refuses n := by
  simp only [Chain.Refuses, Chain.Full, Chain.capacity, Chain.growable, bsonInlineDataSize,
    Bool.true_eq_false, false_or]
  omega

theorem bsonAppendBegin_answers {t : BsonType} {key : Bytes} {keyLength : Int}
    (fits : c.Fits 1) (hlen : c.bson.len ≤ bsonMaxSize)
    (hsmall : c.isInline = true → c.bson.len ≤ 120) :
    (c.Refuses (bsonAppendBsonBegin t key keyLength).nBytes →
        ∃ c', bsonAppendBegin fresh t key keyLength c = .failed c') ∧
      (¬ c.Refuses (bsonAppendBsonBegin t key keyLength).nBytes →
        ∃ c', bsonAppendBegin fresh t key keyLength c = .ok c') := by
  rw [bsonAppendBegin_eq]
  cases c with
  | alloc buf buflen realloc bson parents => exact appendChild_answers fresh fits hlen rfl
  | inline data len =>
    have hshort : len ≤ 120 := hsmall rfl
    have hleast : 5 ≤ len := fits.len
    have hfits : (Chain.alloc (data.copyPrefix (fresh 128) len) 128 true
        { len := len, depth := 0, offset := 0 } []).Fits 1 :=
      ⟨hleast, (by omega : 0 + len + 0 ≤ 128 + 1), (by decide : 128 < 4611686018427387904)⟩
    simp only [if_true]
    rw [if_neg (Nat.not_lt.mpr hshort), bsonGrow_inline fresh data hshort]
    simp only [Bool.false_eq_true, if_false]
    rw [refuses_moved data (data.copyPrefix (fresh 128) len)]
    exact appendChild_answers fresh hfits hlen rfl

theorem bsonAppendBegin_outcome {t : BsonType} {key : Bytes} {keyLength : Int} (hc : c.Open) :
    CallOutcome c (bsonAppendBsonBegin t key keyLength) 1
      (bsonAppendBegin fresh t key keyLength c) := by
  rw [bsonAppendBegin_eq]
  cases c with
  | alloc buf buflen realloc bson parents => exact appendChild_outcome fresh t key keyLength hc rfl
  | inline data len =>
    have hleast : 5 ≤ len := hc.fits.len
    simp only [if_true]
    split
    case isTrue =>
      refine ⟨fun c' h => (by cases h), fun c' h => (by cases h), fun h => ?_⟩
      rcases h with h | h <;> cases h
    case isFalse hlong =>
      have hsmall : len ≤ 120 := Nat.le_of_not_lt hlong
      have hlengths : ∀ n ∈ (Chain.inline data len).lengths, n ≤ bsonMaxSize := hc.lengths
      rw [bsonGrow_inline fresh data hsmall]
      simp only [Bool.false_eq_true, if_false]
      have hmoved : (Chain.alloc (data.copyPrefix (fresh 128) len) 128 true
          { len := len, depth := 0, offset := 0 } []).Open :=
        ⟨⟨hleast, (by omega : 0 + len + 0 ≤ 128 + 1), (by decide : 128 < 4611686018427387904)⟩,
          fun b hb => (by cases hb), hlengths⟩
      obtain ⟨hok, hfailed, -⟩ := appendChild_outcome fresh t key keyLength hmoved rfl
      refine ⟨fun c' h => ?_, fun c' h => ?_, fun h => ?_⟩
      · obtain ⟨hnot, happended⟩ := hok c' h
        refine ⟨fun hr => hnot ?_, happended⟩
        -- What the 120 octets and growth refuse, the 128 octets and growth refuse.
        rcases hr with hr | ⟨-, hr⟩
        · exact Or.inl hr
        · have hbig := hr.resolve_left (by simp)
          refine Or.inr ⟨?_, Or.inr hbig⟩
          exact Nat.lt_trans (by decide : 128 < 1073741824) hbig
      · obtain ⟨hbson, hparents, hoctets⟩ := hfailed c' h
        refine ⟨hbson, hparents, fun i hi => ?_⟩
        rw [hoctets i hi]
        have hlt : i < 0 + len := hi
        exact Mem.copyPrefix_of_lt _ _ _ _ (by omega)
      · rcases h with h | h <;> cases h

/-- Every call of the append API that reaches `_bson_append`. -/
theorem bsonStep_outcome {s : Step} (hc : c.Open) (hs : stepArgs s = some args) :
    CallOutcome c args (opened s) (bsonStep fresh c s) := by
  have hsize := stepArgs_nBytes_lt hs
  cases s with
  | append call =>
    cases hreq : call.request with
    | append args' =>
      simp only [stepArgs, hreq, Option.some_inj] at hs
      subst hs
      rw [bsonStep, bsonAppendCall, hreq]
      exact bsonAppendInternal_outcome fresh hc hsize
    | done ret => simp [stepArgs, hreq] at hs
  | documentBegin key keyLength =>
    obtain rfl := Option.some.inj hs
    exact bsonAppendBegin_outcome fresh hc
  | arrayBegin key keyLength =>
    obtain rfl := Option.some.inj hs
    exact bsonAppendBegin_outcome fresh hc
  | «end» => cases hs

end Outcomes

end LibBson.Source
