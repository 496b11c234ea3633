import LibBson.Source.AppendSizes
import LibBson.Source.StealRuns

/-!
# Calls in two heaps

Two documents that agree up to their ends may differ in what `malloc` and `realloc` left
behind these. Growth takes the octets of a document along, appends write from its NUL on,
and the end of a child writes the NUL of its parent, so that the same calls end alike on
both, whatever the two heaps contain. Source: bson.c:84-222, 310-565.
-/

set_option autoImplicit false

namespace LibBson.Source
open LibBson.Library

/-- The two chains are the same up to their buffers, which agree on the first `n` octets. -/
inductive AgreeTo (n : Nat) : Chain → Chain → Prop
  | inline (data data' : Mem) (len : Nat) (h : ∀ i, i < n → data' i = data i) :
    AgreeTo n (.inline data len) (.inline data' len)
  | alloc (buf buf' : Mem) (buflen : Nat) (realloc : Bool) (bson : Impl) (parents : List Impl)
      (h : ∀ i, i < n → buf' i = buf i) :
    AgreeTo n (.alloc buf buflen realloc bson parents) (.alloc buf' buflen realloc bson parents)

namespace AgreeTo

variable {n : Nat} {c c' : Chain}

theorem bson (h : AgreeTo n c c') : c'.bson = c.bson := by
  cases h <;> rfl

theorem isInline (h : AgreeTo n c c') : c'.isInline = c.isInline := by
  cases h <;> rfl

theorem octets (h : AgreeTo n c c') : ∀ i, i < n → c'.buf i = c.buf i := by
  cases h with
  | inline data data' len h => exact h
  | alloc buf buf' buflen realloc bson parents h => exact h

theorem mono {k : Nat} (h : AgreeTo n c c') (hk : k ≤ n) : AgreeTo k c c' := by
  cases h with
  | inline data data' len h =>
    exact .inline _ _ _ fun i hi => h i (Nat.lt_of_lt_of_le hi hk)
  | alloc buf buf' buflen realloc bson parents h =>
    exact .alloc _ _ _ _ _ _ fun i hi => h i (Nat.lt_of_lt_of_le hi hk)

end AgreeTo

/-! ## What the calls keep -/

/-- A child ends in front of the NUL of its parent and leaves room for it. -/
def Linked : Impl → List Impl → Prop
  | bson, [] => bson.depth = 0
  | child, bson :: parents =>
    5 ≤ bson.len ∧ bson.offset + bson.len ≤ child.offset + 6 ∧ bson.depth + 1 ≤ child.depth ∧
      Linked bson parents

theorem Linked.resized {bson bson' : Impl} {parents : List Impl} (h : Linked bson parents)
    (hoffset : bson'.offset = bson.offset) (hdepth : bson'.depth = bson.depth) :
    Linked bson' parents := by
  cases parents with
  | nil => exact hdepth.trans h
  | cons parent parents =>
    obtain ⟨hlen, hinside, hdeep, hrest⟩ := h
    exact ⟨hlen, by rw [hoffset]; exact hinside, by rw [hdepth]; exact hdeep, hrest⟩

/-- The innermost document lies in its buffer and in its parents; no buffer is larger than
`_bson_grow` makes it. -/
structure Chain.InOrder (c : Chain) : Prop where
  fits : c.Fits 1
  small : c.capacity ≤ int32Max
  linked : Linked c.bson c.parents

/-- The total an append declares is the size of its pairs, or one octet less. -/
def AppendArgs.Declared (args : AppendArgs) : Prop :=
  args.nBytes = u32 args.size ∨ 1 ≤ args.size ∧ args.nBytes = u32 (args.size - 1)

theorem declared_of_step {s : Step} {args : AppendArgs} (h : stepArgs s = some args) :
    args.Declared := by
  obtain ⟨hsize, hplain, hregex⟩ := stepArgs_spec h
  unfold AppendArgs.Declared
  rw [hsize]
  cases happends : appendsRegex s with
  | false => exact Or.inl (hplain happends)
  | true => exact Or.inr (hregex happends)

theorem AppendArgs.Declared.lt {args : AppendArgs} (h : args.Declared) :
    args.nBytes < 4294967296 := by
  rcases h with h | ⟨-, h⟩ <;> rw [h] <;> exact Nat.mod_lt _ (by decide)

/-- The length behind an append is what was declared, and an octet more behind a regex. -/
theorem appendedLen_bounds {bson : Impl} {args : AppendArgs} (h : args.Declared)
    (hlen : bson.len + args.nBytes + 1 < 4294967296) :
    bson.len + args.nBytes ≤ appendedLen bson args ∧
      appendedLen bson args ≤ bson.len + args.nBytes + 1 := by
  unfold appendedLen
  unfold AppendArgs.Declared at h
  unfold u32 at *
  omega

section Calls

variable {fresh fresh' : Nat → Mem} {c c' : Chain} {n : Nat}

theorem bsonGrow_small {size : Nat} (h : bsonGrow fresh size c = some c')
    (hsmall : c.capacity ≤ int32Max) : c'.capacity ≤ int32Max := by
  cases c with
  | inline data len =>
    simp only [bsonGrow, bsonImplInlineGrow] at h
    split at h
    · cases h
      exact hsmall
    · split at h
      · next hreq =>
        cases h
        exact hreq
      · cases h
  | alloc buf buflen realloc bson parents =>
    simp only [bsonGrow, bsonImplAllocGrow] at h
    split at h
    · cases h
      exact hsmall
    · split at h
      · next hreq =>
        cases h
        exact hreq.1
      · cases h

theorem Chain.InOrder.grown {size : Nat} (h : c.InOrder) (hsize : size < 4294967296)
    (hgrow : bsonGrow fresh size c = some c') :
    c'.InOrder ∧ c'.bson = c.bson ∧
      c.bson.offset + c.bson.len + size + c.bson.depth ≤ c'.capacity := by
  have hg := bsonGrow_spec hgrow h.fits (Nat.le_refl 1) hsize
  have hroom := hg.room
  refine ⟨⟨⟨?_, ?_, hg.addressable⟩, bsonGrow_small hgrow h.small, ?_⟩, hg.bson, hroom⟩
  · rw [hg.bson]
    exact h.fits.len
  · rw [hg.bson]
    omega
  · rw [hg.bson, hg.parents]
    exact h.linked

/-- An append keeps the order, and leaves an octet less than it may unless it is a regex. -/
theorem Chain.InOrder.appended {args : AppendArgs} (h : c.InOrder) (hargs : args.Declared)
    (hok : bsonAppendInternal fresh c args = .ok c') :
    c'.InOrder ∧ (args.nBytes = u32 args.size →
      c'.bson.offset + c'.bson.len + c'.bson.depth ≤ c'.capacity) := by
  obtain ⟨c1, hgrow, rfl⟩ := bsonAppendInternal_stored hok
  obtain ⟨⟨⟨hlen, -, haddr⟩, hsmall, hlinked⟩, hbson, hroom⟩ := h.grown hargs.lt hgrow
  rw [hbson] at hlen hlinked
  have hmax := hsmall
  unfold int32Max at hmax
  obtain ⟨hle, hge⟩ := @appendedLen_bounds c.bson args hargs (by omega)
  rw [appendVa, Chain.update_capacity, Chain.update_bson, hbson]
  refine ⟨⟨⟨?_, ?_, ?_⟩, ?_, ?_⟩, fun hexact => ?_⟩
  · rw [Chain.update_bson, hbson]
    exact Nat.le_trans hlen (Nat.le_trans (Nat.le_add_right _ _) hle)
  · rw [Chain.update_bson, Chain.update_capacity, hbson]
    simp only
    omega
  · rw [Chain.update_capacity]
    exact haddr
  · rw [Chain.update_capacity]
    exact hsmall
  · rw [Chain.update_bson, Chain.update_parents, hbson]
    exact hlinked.resized rfl rfl
  · have hsame : appendedLen c.bson args = c.bson.len + args.nBytes := by
      unfold appendedLen
      unfold u32 at *
      omega
    simp only [hsame]
    omega

theorem Chain.InOrder.opened (h : c.InOrder)
    (hroom : c.bson.offset + c.bson.len + c.bson.depth ≤ c.capacity)
    (hok : openChild c = .ok c') :
    c'.InOrder ∧ c'.bson.offset + c'.bson.len ≤ c.bson.offset + c.bson.len := by
  cases c with
  | inline data len => cases hok
  | alloc buf buflen realloc bson parents =>
    cases hok
    have hlen : 5 ≤ bson.len := h.fits.len
    have hfits : bson.offset + bson.len + bson.depth ≤ buflen := hroom
    have hlinked : Linked bson parents := h.linked
    have hdepth : (if parents = [] then 1 else bson.depth + 1) = bson.depth + 1 := by
      split
      · next hnil =>
        rw [hnil] at hlinked
        have hz : bson.depth = 0 := hlinked
        rw [hz]
      · rfl
    rw [hdepth]
    refine ⟨⟨⟨Nat.le_refl 5, ?_, h.fits.addressable⟩, h.small,
      ⟨hlen, ?_, Nat.le_refl _, hlinked⟩⟩, ?_⟩
    · show bson.offset + bson.len - 1 - 5 + 5 + (bson.depth + 1) ≤ buflen + 1
      omega
    · show bson.offset + bson.len ≤ bson.offset + bson.len - 1 - 5 + 6
      omega
    · show bson.offset + bson.len - 1 - 5 + 5 ≤ bson.offset + bson.len
      omega

theorem Chain.InOrder.ended (h : c.InOrder) (hok : bsonAppendBsonEnd c = .ok c') :
    c'.InOrder ∧ c'.bson.offset + c'.bson.len ≤ c.bson.offset + c.bson.len + 1 := by
  cases c with
  | inline data len => cases hok
  | alloc buf buflen realloc child parents =>
    cases parents with
    | nil => cases hok
    | cons bson parents =>
      cases hok
      have hchild : Linked child (bson :: parents) := h.linked
      obtain ⟨hparent, hinside, hdepth, hlinked⟩ := hchild
      have hlen : 5 ≤ child.len := h.fits.len
      have hroom : child.offset + child.len + child.depth ≤ buflen + 1 := h.fits.room
      have hsmall : buflen ≤ 2147483647 := h.small
      have hnew : u32 (u32sub (bson.len + child.len) 5) = bson.len + child.len - 5 := by
        rw [u32sub_of_le (by omega) (by omega), u32_of_lt (by omega)]
      rw [hnew]
      refine ⟨⟨⟨?_, ?_, h.fits.addressable⟩, h.small, hlinked.resized rfl rfl⟩, ?_⟩
      · show 5 ≤ bson.len + child.len - 5
        omega
      · show bson.offset + (bson.len + child.len - 5) + bson.depth ≤ buflen + 1
        omega
      · show bson.offset + (bson.len + child.len - 5) ≤ child.offset + child.len + 1
        omega

/-! ## Calls end alike -/

/-- The octets of the buffer that growth takes along. -/
def Chain.kept : Chain → Nat
  | inline _ len => len
  | alloc _ buflen _ _ _ => buflen

theorem Chain.Fits.kept (h : c.Fits 1) : c.bson.offset + c.bson.len ≤ c.kept + 1 := by
  cases c with
  | inline data len =>
    rw [Chain.bson, Chain.kept, Nat.zero_add]
    exact Nat.le_succ len
  | alloc buf buflen realloc bson parents =>
    have hroom : bson.offset + bson.len + bson.depth ≤ buflen + 1 := h.room
    exact Nat.le_trans (Nat.le_add_right _ _) hroom

variable (fresh fresh') in
theorem bsonGrow_agree (size : Nat) (h : AgreeTo n c c') (hn : n ≤ c.kept) :
    Option.Rel (AgreeTo n) (bsonGrow fresh size c) (bsonGrow fresh' size c') := by
  have hcopy : ∀ {m m' block block' : Mem} {k : Nat}, n ≤ k → (∀ i, i < n → m' i = m i) →
      ∀ i, i < n → m'.copyPrefix block' k i = m.copyPrefix block k i := by
    intro m m' block block' k hk hm i hi
    rw [Mem.copyPrefix_of_lt _ _ _ _ (by omega), Mem.copyPrefix_of_lt _ _ _ _ (by omega)]
    exact hm i hi
  cases h with
  | inline data data' len h =>
    simp only [bsonGrow, bsonImplInlineGrow]
    split
    · exact .some (.inline _ _ _ h)
    · split
      · exact .some (.alloc _ _ _ _ _ _ (hcopy hn h))
      · exact .none
  | alloc buf buf' buflen realloc bson parents h =>
    simp only [bsonGrow, bsonImplAllocGrow]
    split
    · exact .some (.alloc _ _ _ _ _ _ h)
    · split
      · exact .some (.alloc _ _ _ _ _ _ (hcopy hn h))
      · exact .none

/-- The stores of an append decide what stands behind the NUL they begin at. -/
theorem appendVa_agree (args : AppendArgs)
    (h : AgreeTo (c.bson.offset + c.bson.len - 1) c c') :
    AgreeTo (c.bson.offset + appendedLen c.bson args) (appendVa c args) (appendVa c' args) := by
  cases h with
  | inline data data' len h =>
    refine .inline _ _ _ fun i hi => appendStores_agree _ _ (fun j hj => h j ?_) hi
    exact Nat.lt_sub_of_add_lt hj
  | alloc buf buf' buflen realloc bson parents h =>
    refine .alloc _ _ _ _ _ _ fun i hi => appendStores_agree _ _ (fun j hj => h j ?_) hi
    exact Nat.lt_sub_of_add_lt hj

/-- Two documents whose octets are the same. -/
structure ChainsAlike (c c' : Chain) : Prop where
  inOrder : c.InOrder
  agree : AgreeTo (c.bson.offset + c.bson.len) c c'

variable (fresh fresh') in
theorem bsonAppendInternal_alike {args : AppendArgs} (hargs : args.Declared) (h : ChainsAlike c c') :
    EndAlike ChainsAlike (bsonAppendInternal fresh c args) (bsonAppendInternal fresh' c' args) := by
  have happended : ∀ c1, bsonAppendInternal fresh c args = .ok c1 → _ :=
    fun _ => h.inOrder.appended hargs
  unfold bsonAppendInternal at happended ⊢
  rw [h.agree.bson]
  split
  · exact .failed c c' h
  · next hroom =>
    have hkept := h.inOrder.fits.kept
    have hgrow := bsonGrow_agree fresh fresh' args.nBytes
      (h.agree.mono (k := c.bson.offset + c.bson.len - 1) (Nat.sub_le _ _)) (by omega)
    rw [if_neg hroom] at happended
    cases hone : bsonGrow fresh args.nBytes c with
    | none =>
      rw [hone] at hgrow
      generalize bsonGrow fresh' args.nBytes c' = grown' at hgrow
      cases hgrow
      exact .failed c c' h
    | some c1 =>
      have hbson := (bsonGrow_keeps hone).1
      rw [hone] at hgrow
      rw [hone] at happended
      generalize bsonGrow fresh' args.nBytes c' = grown' at hgrow
      cases hgrow with
      | some hsame =>
        rw [← hbson] at hsame
        refine .ok _ _ ⟨(happended _ rfl).1, ?_⟩
        rw [appendVa, Chain.update_bson]
        exact appendVa_agree args hsame

variable (fresh fresh') in
theorem bsonAppendCall_alike (call : AppendCall) (h : ChainsAlike c c') :
    EndAlike ChainsAlike (bsonAppendCall fresh c call) (bsonAppendCall fresh' c' call) := by
  unfold bsonAppendCall
  cases hreq : call.request with
  | append args =>
    have hargs : args.Declared := by
      apply declared_of_step (s := .append call)
      rw [stepArgs, hreq]
    exact bsonAppendInternal_alike fresh fresh' hargs h
  | done b =>
    cases b with
    | true => exact .ok c c' h
    | false => exact .failed c c' h

theorem openChild_alike (h : ChainsAlike c c')
    (hroom : c.bson.offset + c.bson.len + c.bson.depth ≤ c.capacity) :
    EndAlike ChainsAlike (openChild c) (openChild c') := by
  have hopened : ∀ c1, openChild c = .ok c1 → _ := fun _ => h.inOrder.opened hroom
  obtain ⟨-, hagree⟩ := h
  cases hagree with
  | inline data data' len h => exact .aborted
  | alloc buf buf' buflen realloc bson parents h =>
    obtain ⟨horder, hle⟩ := hopened _ rfl
    exact .ok _ _ ⟨horder, .alloc _ _ _ _ _ _ fun i hi => h i (Nat.lt_of_lt_of_le hi hle)⟩

variable (fresh fresh') in
theorem appendChild_alike (t : BsonType) (key : Bytes) (keyLength : Int) (h : ChainsAlike c c') :
    EndAlike ChainsAlike (appendChild fresh t key keyLength c)
      (appendChild fresh' t key keyLength c') := by
  have hbytes := begin_nBytes t key keyLength
  have hargs : (bsonAppendBsonBegin t key keyLength).Declared := Or.inl hbytes
  have happended : ∀ c1, bsonAppendInternal fresh c _ = .ok c1 → _ :=
    fun _ => h.inOrder.appended hargs
  have hin := bsonAppendInternal_alike fresh fresh' hargs h
  unfold appendChild
  generalize bsonAppendInternal fresh' c' (bsonAppendBsonBegin t key keyLength) = o' at hin ⊢
  cases hout : bsonAppendInternal fresh c (bsonAppendBsonBegin t key keyLength) with
  | ok c1 =>
    rw [hout] at hin
    cases hin with
    | ok _ c1' h1 => exact openChild_alike h1 ((happended c1 hout).2 hbytes)
  | failed c1 =>
    rw [hout] at hin
    cases hin with
    | failed _ c1' h1 => exact .failed c1 c1' h1
  | aborted =>
    rw [hout] at hin
    cases hin
    exact .aborted

variable (fresh fresh') in
theorem bsonAppendBegin_alike (t : BsonType) (key : Bytes) (keyLength : Int) (h : ChainsAlike c c') :
    EndAlike ChainsAlike (bsonAppendBegin fresh t key keyLength c)
      (bsonAppendBegin fresh' t key keyLength c') := by
  rw [bsonAppendBegin_eq, bsonAppendBegin_eq, h.agree.isInline, h.agree.bson]
  split
  · next hinline =>
    split
    · exact .aborted
    · -- the octets of an inline document all move to the heap
      have hsize : u32sub 128 c.bson.len < 4294967296 := u32sub_lt _ _
      have hkept : c.bson.offset + c.bson.len ≤ c.kept := by
        cases c with
        | inline data len => exact Nat.le_of_eq (Nat.zero_add len)
        | alloc => cases hinline
      have hgrow := bsonGrow_agree fresh fresh' (u32sub 128 c.bson.len) h.agree hkept
      cases hone : bsonGrow fresh (u32sub 128 c.bson.len) c with
      | none =>
        rw [hone] at hgrow
        generalize bsonGrow fresh' (u32sub 128 c.bson.len) c' = grown' at hgrow
        cases hgrow
        exact .failed c c' h
      | some c1 =>
        obtain ⟨horder, hbson, -⟩ := h.inOrder.grown hsize hone
        rw [hone] at hgrow
        generalize bsonGrow fresh' (u32sub 128 c.bson.len) c' = grown' at hgrow
        cases hgrow with
        | some hsame =>
          simp only [hsame.isInline]
          split
          · exact .aborted
          · rw [← hbson] at hsame
            exact appendChild_alike fresh fresh' t key keyLength ⟨horder, hsame⟩
  · exact appendChild_alike fresh fresh' t key keyLength h

theorem bsonAppendBsonEnd_alike (h : ChainsAlike c c') :
    EndAlike ChainsAlike (bsonAppendBsonEnd c) (bsonAppendBsonEnd c') := by
  have hended : ∀ c1, bsonAppendBsonEnd c = .ok c1 → _ := fun _ => h.inOrder.ended
  obtain ⟨-, hagree⟩ := h
  cases hagree with
  | inline data data' len h => exact .aborted
  | alloc buf buf' buflen realloc child parents h =>
    cases parents with
    | nil => exact .aborted
    | cons bson parents =>
      obtain ⟨horder, hle⟩ := hended _ rfl
      refine .ok _ _ ⟨horder, .alloc _ _ _ _ _ _ fun i hi => ?_⟩
      simp only [Chain.bson] at hi hle
      generalize u32 (u32sub (bson.len + child.len) 5) = len at hi hle ⊢
      simp only [runStores, List.foldl_cons, List.foldl_nil]
      -- the NUL of the parent is the only octet behind the child
      refine write_agree _ _ (Or.inl (write_agree _ _ ?_))
      by_cases hnul : bson.offset + len - 1 ≤ i
      · exact Or.inr ⟨hnul, by rw [List.length_singleton]; omega⟩
      · have hchild : i < child.offset + child.len := by omega
        exact Or.inl (h i hchild)

variable (fresh fresh') in
theorem bsonStep_alike (s : Step) (h : ChainsAlike c c') :
    EndAlike ChainsAlike (bsonStep fresh c s) (bsonStep fresh' c' s) := by
  cases s with
  | append call => exact bsonAppendCall_alike fresh fresh' call h
  | documentBegin key keyLength => exact bsonAppendBegin_alike fresh fresh' .document key keyLength h
  | arrayBegin key keyLength => exact bsonAppendBegin_alike fresh fresh' .array key keyLength h
  | «end» => exact bsonAppendBsonEnd_alike h

variable (fresh fresh') in
/-- What any calls make of a document does not depend on what new blocks contain. -/
theorem bsonSteps_alike (steps : List Step) (h : ChainsAlike c c') :
    EndAlike ChainsAlike (bsonSteps fresh c steps) (bsonSteps fresh' c' steps) := by
  induction steps generalizing c c' with
  | nil => exact .ok c c' h
  | cons s steps ih =>
    have hs := bsonStep_alike fresh fresh' s h
    simp only [bsonSteps]
    generalize bsonStep fresh c s = o at hs ⊢
    generalize bsonStep fresh' c' s = o' at hs ⊢
    cases hs with
    | aborted => exact .aborted
    | failed c1 c1' h1 => exact .failed c1 c1' h1
    | ok c1 c1' h1 => exact ih h1

theorem Moved.alike (h : Moved c c') (horder : c.InOrder) : ChainsAlike c c' := by
  cases h with
  | same =>
    refine ⟨horder, ?_⟩
    cases c with
    | inline data len => exact .inline _ _ _ fun _ _ => rfl
    | alloc buf buflen realloc bson parents => exact .alloc _ _ _ _ _ _ fun _ _ => rfl
  | inline data data' len h =>
    refine ⟨horder, .inline _ _ _ fun i hi => h i ?_⟩
    rwa [Chain.bson, Nat.zero_add] at hi

theorem ChainsAlike.sameDocument (h : ChainsAlike c c') : SameDocument c c' where
  bson := h.agree.bson
  parents := by
    obtain ⟨-, hagree⟩ := h
    cases hagree <;> rfl
  octets := h.agree.octets

theorem bsonInit_alike (data data' : Mem) : ChainsAlike (bsonInit data) (bsonInit data') := by
  have hroom : 0 + 5 + 0 ≤ bsonInlineDataSize + 1 := by decide
  have haddr : bsonInlineDataSize < 4611686018427387904 := by decide
  have hsmall : bsonInlineDataSize ≤ int32Max := by decide
  refine ⟨⟨⟨Nat.le_refl 5, hroom, haddr⟩, hsmall, rfl⟩, .inline _ _ _ fun i hi => ?_⟩
  exact write_agree 0 _ (Or.inr ⟨Nat.zero_le i, hi⟩)

/-- What a reader of the two documents sees is the same. -/
theorem ChainsAlike.ref (h : ChainsAlike c c') :
    c'.ref.len = c.ref.len ∧ ∀ i, i < c.ref.len → c'.ref.data i = c.ref.data i := by
  have hbson := h.agree.bson
  refine ⟨congrArg Impl.len hbson, fun i hi => ?_⟩
  simp only [Chain.ref] at hi ⊢
  rw [hbson, Mem.shift_apply, Mem.shift_apply]
  exact h.agree.octets _ (Nat.add_lt_add_left hi _)

end Calls

end LibBson.Source
