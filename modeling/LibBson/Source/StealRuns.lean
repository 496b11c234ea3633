import LibBson.Source.Steal

/-!
# Calls on a moved document

A copy of an inline document agrees with it on its octets and may differ behind them.
What appends write and what growth copies never depends on those, so that any calls end
alike on both.
-/

set_option autoImplicit false

namespace LibBson.Source
open LibBson.Library

/-- `c'` is `c`, or a copy of its inline octets. -/
inductive Moved : Chain → Chain → Prop
  | same (c : Chain) : Moved c c
  | inline (data data' : Mem) (len : Nat) (h : ∀ i, i < len → data' i = data i) :
    Moved (.inline data len) (.inline data' len)

/-- Two calls end the same way, with related documents. -/
inductive EndAlike (R : Chain → Chain → Prop) : Outcome → Outcome → Prop
  | ok (c c' : Chain) (h : R c c') : EndAlike R (.ok c) (.ok c')
  | failed (c c' : Chain) (h : R c c') : EndAlike R (.failed c) (.failed c')
  | aborted : EndAlike R .aborted .aborted

theorem EndAlike.mono {R S : Chain → Chain → Prop} (hRS : ∀ c c', R c c' → S c c')
    {o o' : Outcome} (h : EndAlike R o o') : EndAlike S o o' := by
  cases h with
  | ok c c' h => exact .ok c c' (hRS c c' h)
  | failed c c' h => exact .failed c c' (hRS c c' h)
  | aborted => exact .aborted

theorem EndAlike.refl {R : Chain → Chain → Prop} (hR : ∀ c, R c c) (o : Outcome) :
    EndAlike R o o := by
  cases o with
  | ok c => exact .ok c c (hR c)
  | failed c => exact .failed c c (hR c)
  | aborted => exact .aborted

/-! ## Stores -/

theorem write_agree {m m' : Mem} {i : Nat} (o : Nat) (bs : Bytes)
    (h : m' i = m i ∨ o ≤ i ∧ i < o + bs.length) : m'.write o bs i = m.write o bs i := by
  by_cases hin : o ≤ i ∧ i < o + bs.length
  · obtain ⟨k, rfl⟩ := Nat.exists_eq_add_of_le hin.1
    rw [Mem.write_at _ _ _ _ (by omega), Mem.write_at _ _ _ _ (by omega)]
  · rw [Mem.write_frame _ _ _ _ (by omega), Mem.write_frame _ _ _ _ (by omega)]
    exact h.resolve_right hin

/-- An append writes from the NUL of the document to the NUL behind the new octets. -/
theorem appendStores_agree {m m' : Mem} (bson : Impl) (args : AppendArgs)
    (h : ∀ i, i + 1 < bson.offset + bson.len → m' i = m i) {i : Nat}
    (hi : i < bson.offset + appendedLen bson args) :
    runStores m' (appendStores bson args) i = runStores m (appendStores bson args) i := by
  have hlen : appendedLen bson args ≤ bson.len + args.size := Nat.mod_le _ _
  have hbytes : (args.used.flatMap fun p => copied p.2 p.1).length = args.size := args.bytes_length
  simp only [appendStores, runStores_append, runStores_appendPairs]
  simp only [runStores, List.foldl_cons, List.foldl_nil]
  -- the NUL at the end, the octets in front of it, and what stands before those
  by_cases hnul : bson.offset + bson.len - 1 + args.size ≤ i
  · exact write_agree _ _ (Or.inr ⟨hnul, by simp; omega⟩)
  · refine write_agree _ _ (Or.inl (write_agree _ _ (Or.inl (write_agree _ _ ?_))))
    by_cases hold : i + 1 < bson.offset + bson.len
    · exact Or.inl (h i hold)
    · exact Or.inr ⟨by omega, by rw [hbytes]; omega⟩

theorem copyPrefix_agree {m m' : Mem} (block : Mem) {n : Nat} (h : ∀ i, i < n → m' i = m i) :
    m'.copyPrefix block n = m.copyPrefix block n := by
  funext i
  unfold Mem.copyPrefix
  split
  · next hi => exact h i hi
  · rfl

/-! ## Calls -/

section Calls

variable {fresh : Nat → Mem} {c c' : Chain}

theorem Moved.bson (h : Moved c c') : c'.bson = c.bson := by
  cases h <;> rfl

theorem Moved.sameDocument (h : Moved c c') : SameDocument c c' := by
  cases h with
  | same => exact SameDocument.refl c
  | inline data data' len h =>
    refine ⟨rfl, rfl, fun i hi => h i ?_⟩
    rwa [Chain.bson, Nat.zero_add] at hi

variable (fresh) in
theorem bsonGrow_moved (size : Nat) (h : Moved c c') :
    Option.Rel Moved (bsonGrow fresh size c) (bsonGrow fresh size c') := by
  cases h with
  | same =>
    cases bsonGrow fresh size c with
    | none => exact .none
    | some c1 => exact .some (.same c1)
  | inline data data' len h =>
    simp only [bsonGrow, bsonImplInlineGrow]
    split
    · exact .some (.inline data data' len h)
    · split
      · rw [copyPrefix_agree _ h]
        exact .some (.same _)
      · exact .none

theorem appendVa_moved (args : AppendArgs) (h : Moved c c') :
    Moved (appendVa c args) (appendVa c' args) := by
  cases h with
  | same => exact .same _
  | inline data data' len h =>
    refine .inline _ _ _ fun i hi => appendStores_agree _ _ (fun j hj => h j ?_) ?_
    · rw [Nat.zero_add] at hj
      exact Nat.lt_of_succ_lt hj
    · rwa [Nat.zero_add]

variable (fresh) in
theorem bsonAppendInternal_moved (args : AppendArgs) (h : Moved c c') :
    EndAlike Moved (bsonAppendInternal fresh c args) (bsonAppendInternal fresh c' args) := by
  unfold bsonAppendInternal
  rw [h.bson]
  split
  · exact .failed c c' h
  · have hgrow := bsonGrow_moved fresh args.nBytes h
    generalize bsonGrow fresh args.nBytes c = grown at hgrow ⊢
    generalize bsonGrow fresh args.nBytes c' = grown' at hgrow ⊢
    cases hgrow with
    | none => exact .failed c c' h
    | some hmoved => exact .ok _ _ (appendVa_moved args hmoved)

variable (fresh) in
theorem bsonAppendBegin_moved (t : BsonType) (key : Bytes) (keyLength : Int) (h : Moved c c') :
    EndAlike Moved (bsonAppendBegin fresh t key keyLength c)
      (bsonAppendBegin fresh t key keyLength c') := by
  cases h with
  | same => exact EndAlike.refl .same _
  | inline data data' len h =>
    rw [bsonAppendBegin_eq, bsonAppendBegin_eq]
    simp only [if_true]
    split
    · exact .aborted
    · next hshort =>
      -- the parent moves to the heap, which copies its octets only
      rw [bsonGrow_inline fresh data (by omega), bsonGrow_inline fresh data' (by omega),
        copyPrefix_agree _ h]
      exact EndAlike.refl .same _

variable (fresh) in
theorem bsonStep_moved (s : Step) (h : Moved c c') :
    EndAlike Moved (bsonStep fresh c s) (bsonStep fresh c' s) := by
  cases s with
  | append call =>
    simp only [bsonStep, bsonAppendCall]
    split
    · exact bsonAppendInternal_moved fresh _ h
    · exact .ok c c' h
    · exact .failed c c' h
  | documentBegin key keyLength => exact bsonAppendBegin_moved fresh .document key keyLength h
  | arrayBegin key keyLength => exact bsonAppendBegin_moved fresh .array key keyLength h
  | «end» =>
    cases h with
    | same => exact EndAlike.refl .same _
    | inline data data' len h => exact .aborted

variable (fresh) in
/-- Any calls end alike on a document and on its copy. -/
theorem bsonSteps_moved (steps : List Step) (h : Moved c c') :
    EndAlike Moved (bsonSteps fresh c steps) (bsonSteps fresh c' steps) := by
  induction steps generalizing c c' with
  | nil => exact .ok c c' h
  | cons s steps ih =>
    have hs := bsonStep_moved fresh s h
    simp only [bsonSteps]
    generalize bsonStep fresh c s = o at hs ⊢
    generalize bsonStep fresh c' s = o' at hs ⊢
    cases hs with
    | aborted => exact .aborted
    | failed c1 c1' h1 => exact .failed c1 c1' h1
    | ok c1 c1' h1 => exact ih h1

end Calls

/-- A run of calls on a document that may be written to. -/
theorem Held.run {fresh : Nat → Mem} {place : Place} {c c' : Chain} {steps : List Step}
    (h : Held fresh place c) (hrun : bsonSteps fresh c steps = .ok c') : Held fresh place c' := by
  induction steps generalizing c with
  | nil =>
    cases hrun
    exact h
  | cons s steps ih =>
    obtain ⟨c1, hstep, hrest⟩ := bsonSteps_cons_ok.mp hrun
    have hchain : (bsonStep fresh c s).chain = some c1 := by rw [hstep]; rfl
    exact ih (.called place c c1 s h hchain) hrest

end LibBson.Source
