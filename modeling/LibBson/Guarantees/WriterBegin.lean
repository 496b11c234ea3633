import LibBson.Source.WriterRuns

/-!
# `bson_writer_begin` in its caller's buffer

For every buffer, length and offset and behind every run of begun, appended to, ended
and rolled back documents. Source: bson-writer.c:158-271.
-/

set_option autoImplicit false

namespace LibBson.Guarantees
open LibBson.Library LibBson.Source LibBson.Spec

/-- The stores of `bson_writer_begin`: `memset` and the first octet. -/
def beginStores (offset : Nat) : List (Nat × Bytes) := [(offset + 1, [0, 0, 0, 0, 0]), (offset, [5])]

/-- What `*buf` holds when `*buflen` is `buflen`: as before, or copied to a new block. -/
def grownBuf (fresh : Nat → Mem) (w : BsonWriter) (buflen : Nat) : Mem :=
  if buflen = w.buflen then w.buf else w.buf.copyPrefix (fresh buflen) w.buflen

/-- The begin that left `w'` has made the stores of an empty document and no others, all below
`*buflen`, and the document is open at the offset. -/
structure BeginsInBuffer (fresh : Nat → Mem) (w w' : BsonWriter) : Prop where
  stored : w'.buf = runStores (grownBuf fresh w w'.buflen) (beginStores w.offset)
  below : ∀ s ∈ beginStores w.offset, s.1 + s.2.length ≤ w'.buflen
  document : w'.offset = w.offset ∧ Holds w'.buf w.offset (frame []) ∧
    w'.b = some ({ len := 5, depth := 0, offset := w.offset }, [])

/-- `*buflen` after `k` turns of the loop, in the arithmetic of `size_t`. -/
def buflenAfter (buflen : Nat) : Nat → Nat
  | 0 => buflen
  | k + 1 => if buflenAfter buflen k = 0 then 64 else u64 (buflenAfter buflen k * 2)

/-- The first of the lengths that reaches the end of an empty document reaches past
it. -/
def PassesEnd (w : BsonWriter) : Prop :=
  w.offset + 5 < 18446744073709551616 ∧
    ∃ k, w.offset + 5 < buflenAfter w.buflen k ∧ ∀ j < k, buflenAfter w.buflen j < w.offset + 5

section Begin

variable {fresh : Nat → Mem} {w w' : BsonWriter} {granted : Bool}

/-- The loop stops at the first length that is enough. -/
theorem doubleBuflen_first {need buflen fuel i n : Nat}
    (h : BsonWriter.doubleBuflen need fuel (buflenAfter buflen i) = some n)
    (hbefore : ∀ j < i, buflenAfter buflen j < need) :
    ∃ k, n = buflenAfter buflen k ∧ need ≤ n ∧ ∀ j < k, buflenAfter buflen j < need := by
  induction fuel generalizing i with
  | zero => cases h
  | succ fuel ih =>
    rw [BsonWriter.doubleBuflen] at h
    split at h
    · next hmore =>
      refine ih (i := i + 1) h fun j hj => ?_
      rcases Nat.lt_succ_iff_lt_or_eq.mp hj with hlt | rfl
      · exact hbefore j hlt
      · exact hmore
    · next henough =>
      cases h
      exact ⟨i, rfl, Nat.le_of_not_lt henough, hbefore⟩

theorem buflenAfter_lt {buflen : Nat} (h : buflen < 18446744073709551616) (k : Nat) :
    buflenAfter buflen k < 18446744073709551616 := by
  induction k with
  | zero => exact h
  | succ k ih =>
    rw [buflenAfter]
    split
    · decide
    · exact Nat.mod_lt _ (by decide)

/-- A begin that succeeds stores at the offset, in the first buffer that is enough. -/
theorem begin_first (h : w.beginDocument fresh granted = some (true, w')) :
    (∃ v : BsonWriter, w' = v.startDocument ∧ v.offset = w.offset ∧
        v.buf = grownBuf fresh w w'.buflen) ∧
      ∃ k, w'.buflen = buflenAfter w.buflen k ∧ u64 (w.offset + 5) ≤ w'.buflen ∧
        ∀ j < k, buflenAfter w.buflen j < u64 (w.offset + 5) := by
  unfold BsonWriter.beginDocument at h
  split at h
  · cases h
  · simp only at h
    split at h
    · next hroom =>
      cases h
      exact ⟨⟨w, rfl, rfl, (if_pos rfl).symm⟩, 0, rfl, hroom,
        fun j hj => absurd hj (Nat.not_lt_zero j)⟩
    · next hfull =>
      split at h
      · cases h
      · split at h
        · cases h
        · next buflen hdouble =>
          split at h
          · cases h
            obtain ⟨k, hk, hneed, hbefore⟩ := doubleBuflen_first (i := 0) hdouble
              fun j hj => absurd hj (Nat.not_lt_zero j)
            have hlonger : buflen ≠ w.buflen := by omega
            exact ⟨⟨_, rfl, rfl, (if_neg hlonger).symm⟩, k, hk, hneed, hbefore⟩
          · cases h

/-- A begin that succeeds leaves a buffer as long as one of these lengths. -/
theorem begin_buflen {ret : Bool} (h : w.beginDocument fresh granted = some (ret, w')) :
    ∃ k, w'.buflen = buflenAfter w.buflen k := by
  cases ret with
  | true =>
    obtain ⟨-, k, hk, -⟩ := begin_first h
    exact ⟨k, hk⟩
  | false =>
    unfold BsonWriter.beginDocument at h
    split at h
    · cases h
    · simp only at h
      split at h
      · cases h
      · split at h
        · cases h
          exact ⟨0, rfl⟩
        · split at h
          · cases h
          · split at h
            · cases h
            · cases h

theorem below_iff {offset buflen : Nat} :
    (∀ s ∈ beginStores offset, s.1 + s.2.length ≤ buflen) ↔ offset + 5 < buflen := by
  simp only [beginStores, List.forall_mem_cons, List.length_cons, List.length_nil,
    List.not_mem_nil, false_implies, implies_true, and_true]
  omega

theorem begins_iff (hsize : w.buflen < 18446744073709551616)
    (h : w.beginDocument fresh granted = some (true, w')) :
    BeginsInBuffer fresh w w' ↔ PassesEnd w := by
  obtain ⟨⟨v, hv, hoffset, hbuf⟩, k, hk, hneed, hbefore⟩ := begin_first h
  have hlt := buflenAfter_lt hsize k
  have hpasses : w.offset + 5 < w'.buflen ↔ PassesEnd w := by
    constructor
    · intro hpast
      have hwhole : u64 (w.offset + 5) = w.offset + 5 := Nat.mod_eq_of_lt (by omega)
      rw [hwhole] at hbefore
      exact ⟨by omega, k, by omega, hbefore⟩
    · rintro ⟨hfits, k', hpast, hbefore'⟩
      have hwhole : u64 (w.offset + 5) = w.offset + 5 := Nat.mod_eq_of_lt hfits
      rw [hwhole] at hneed hbefore
      -- both are the first length that is not below the end
      rcases Nat.lt_trichotomy k k' with hless | rfl | hmore
      · have hshort := hbefore' k hless
        omega
      · omega
      · have hshort := hbefore k' hmore
        omega
  rw [← hpasses, ← below_iff]
  constructor
  · intro h
    exact h.below
  · intro hbelow
    rw [hv] at hbuf hbelow ⊢
    refine ⟨?_, hbelow, hoffset, ?_, ?_⟩
    · rw [← hbuf, ← hoffset]
      rfl
    · rw [← hoffset]
      exact startDocument_holds v
    · rw [← hoffset]
      rfl

end Begin

/-! ## Behind a run of calls -/

section Run

variable {fresh : Nat → Mem} {c c' : Chain} {w w' : BsonWriter} {bound : Nat}

theorem bsonGrow_capacity_lt {size : Nat} (hbound : int32Max < bound)
    (hinline : bsonInlineDataSize < bound) (h : bsonGrow fresh size c = some c')
    (hc : c.capacity < bound) : c'.capacity < bound := by
  cases c with
  | inline data len =>
    simp only [bsonGrow, bsonImplInlineGrow] at h
    split at h
    · cases h
      exact hinline
    · split at h
      · next hreq =>
        cases h
        exact Nat.lt_of_le_of_lt hreq hbound
      · cases h
  | alloc buf buflen realloc bson parents =>
    simp only [bsonGrow, bsonImplAllocGrow] at h
    split at h
    · cases h
      exact hc
    · split at h
      · next hreq =>
        cases h
        exact Nat.lt_of_le_of_lt hreq.1 hbound
      · cases h

/-- No call on a chain makes a buffer longer than `INT32_MAX` octets. -/
theorem bsonStep_capacity_lt {s : Step} (hbound : int32Max < bound)
    (hheap : c.isInline = false) (h : bsonStep fresh c s = .ok c') (hc : c.capacity < bound) :
    c'.capacity < bound := by
  have hinternal : ∀ args c1, bsonAppendInternal fresh c args = .ok c1 → c1.capacity < bound := by
    intro args c1 hok
    obtain ⟨c2, hgrow, rfl⟩ := bsonAppendInternal_stored hok
    rw [appendVa, Chain.update_capacity]
    exact bsonGrow_capacity_lt hbound (Nat.lt_trans (by decide) hbound) hgrow hc
  have hbegin : ∀ t key keyLength, bsonAppendBegin fresh t key keyLength c = .ok c' →
      c'.capacity < bound := by
    intro t key keyLength hok
    rw [bsonAppendBegin_eq, hheap] at hok
    simp only [Bool.false_eq_true, if_false, appendChild] at hok
    split at hok
    · next c1 hone =>
      rw [(openChild_capacity hok).1]
      exact hinternal _ c1 hone
    · cases hok
    · cases hok
  cases s with
  | append call =>
    rw [bsonStep, bsonAppendCall] at h
    cases hreq : call.request with
    | append args =>
      rw [hreq] at h
      exact hinternal args c' h
    | done ret =>
      rw [hreq] at h
      cases ret with
      | true =>
        cases h
        exact hc
      | false => cases h
  | documentBegin key keyLength => exact hbegin _ _ _ h
  | arrayBegin key keyLength => exact hbegin _ _ _ h
  | «end» =>
    rw [(bsonAppendBsonEnd_capacity h).1]
    exact hc

theorem withChain_buflen (h : c.capacity < bound) (hw : w.buflen < bound) :
    (w.withChain c).buflen < bound := by
  cases c with
  | inline data len => exact hw
  | alloc buf buflen realloc bson parents => exact h

theorem step_buflen {op : WriterOp} {ret : Bool} (h : w.step fresh op = some (ret, w'))
    (hw : w.buflen < 18446744073709551616) : w'.buflen < 18446744073709551616 := by
  cases op with
  | begin granted =>
    obtain ⟨k, hk⟩ := begin_buflen h
    rw [hk]
    exact buflenAfter_lt hw k
  | append s granted =>
    rw [BsonWriter.step] at h
    split at h
    · cases h
    · next bson parents hb =>
      split at h
      · cases h
      · split at h
        · next c hok =>
          cases h
          exact withChain_buflen (bsonStep_capacity_lt (by decide) rfl hok hw) hw
        · next c hfailed =>
          cases h
          rw [bsonStep_failed rfl hfailed]
          exact withChain_buflen hw hw
        · cases h
  | «end» =>
    obtain ⟨v, hend, heq⟩ := Option.map_eq_some_iff.mp h
    unfold BsonWriter.endDocument at hend
    split at hend
    · cases hend
    · cases hend
      cases heq
      exact hw
  | rollback =>
    cases h
    exact hw

theorem run_buflen {ops : List WriterOp} {rets : List Bool} (h : w.run fresh ops = some (rets, w'))
    (hw : w.buflen < 18446744073709551616) : w'.buflen < 18446744073709551616 := by
  induction ops generalizing w rets with
  | nil =>
    cases h
    exact hw
  | cons op ops ih =>
    rw [BsonWriter.run] at h
    split at h
    · cases h
    · next ret v hstep =>
      obtain ⟨⟨rets', last⟩, hrun, heq⟩ := Option.map_eq_some_iff.mp h
      cases heq
      exact ih hrun (step_buflen hstep hw)

end Run

/-- Behind any run of calls, a begin that succeeds stores inside the buffer exactly if
that does not end with the fifth octet behind the offset. -/
theorem writer_begin_iff (fresh : Nat → Mem) (buf : Mem) (buflen offset : Nat) (realloc : Bool)
    (hbuflen : buflen < 18446744073709551616) (ops : List WriterOp) (rets : List Bool)
    (w w' : BsonWriter) (granted : Bool)
    (hrun : (bsonWriterNew buf buflen offset realloc).run fresh ops = some (rets, w))
    (hbegin : w.beginDocument fresh granted = some (true, w')) :
    BeginsInBuffer fresh w w' ↔ PassesEnd w :=
  begins_iff (run_buflen hrun hbuflen) hbegin

/-- On a buffer of 5 octets the first begin succeeds and clears a sixth. -/
theorem begin_past_five :
    ∃ w', (bsonWriterNew (fun _ => 0) 5 0 false).beginDocument (fun _ _ => 0) true =
        some (true, w') ∧ w'.buflen = 5 ∧
      ¬ BeginsInBuffer (fun _ _ => 0) (bsonWriterNew (fun _ => 0) 5 0 false) w' := by
  refine ⟨_, rfl, rfl, fun h => ?_⟩
  have hclears := h.below (1, [0, 0, 0, 0, 0]) (by decide)
  exact absurd hclears (by decide)

/-- Behind a document that has been ended. -/
theorem writer_begin_iff_second :
    ∃ w w', (bsonWriterNew (fun _ => 0) 10 0 false).run (fun _ _ => 0) [.begin true, .end] =
        some ([true, true], w) ∧ (BeginsInBuffer (fun _ _ => 0) w w' ↔ PassesEnd w) :=
  ⟨_, _, rfl, writer_begin_iff (fun _ _ => 0) (fun _ => 0) 10 0 false (by decide)
    [.begin true, .end] _ _ _ true rfl rfl⟩

end LibBson.Guarantees
