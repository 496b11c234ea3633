import LibBson.Source.ReaderRuns

/-!
# The states a handle reader goes through

A run of calls is a run of passes of the loop in `_bson_reader_handle_read`, the first
of which the constructor makes. Inside a pass that refills, the buffer is doubled, its
octets are moved to its head and `read_func` is called.
Source: bson-reader.c:89-183, 353-375, 395-503.
-/

set_option autoImplicit false

namespace LibBson.Source
open LibBson.Library LibBson.Spec

namespace BsonReaderHandle

/-- The reader as `bson_reader_new_from_handle` first fills its buffer. -/
def initial (handle : List ReadResult) : BsonReaderHandle :=
  { handle := handle, done := false, failed := false, «end» := 0, len := 1024, offset := 0,
    bytesRead := 0, data := fun _ => 0 }

/-- The octets read and not yet handed out. -/
def unconsumed (r : BsonReaderHandle) : Bytes := r.data.slice r.offset (r.end - r.offset)

/-- What the handle will still be asked for. -/
def ahead (r : BsonReaderHandle) : Bytes := if r.done then [] else delivered r.handle

section Passes

variable (fresh : Nat → Mem)

/-- The reader as a pass of the loop enters `_bson_reader_handle_fill_buffer`; none if
the pass does not. -/
def filling (r : BsonReaderHandle) : Option BsonReaderHandle :=
  if r.done then none
  else if u64sub r.end r.offset < 4 then some r
  else
    let blen := i32 (r.data.le r.offset 4)
    if blen < 5 then none
    else if blen > i32 (u64sub r.end r.offset) then
      if blen > i32 r.len then r.growBuffer fresh else some r
    else none

/-- The reader as `read_func` is called, and the octets it is asked for. -/
def request (g : BsonReaderHandle) : BsonReaderHandle × Nat :=
  if g.done = false ∧ g.offset = 0 ∧ g.end = 0 then (g, g.len)
  else (g.moveToHead, u64sub g.moveToHead.len g.moveToHead.end)

/-- The readers at the passes of a run of calls, with the documents yielded. -/
inductive Reached (handle : List ReadResult) : List Bytes → BsonReaderHandle → Prop
  | initial : Reached handle [] (initial handle)
  | again {docs : List Bytes} {r r' : BsonReaderHandle} (before : Reached handle docs r)
      (turn : r.turn fresh = .again r') : Reached handle docs r'
  | null {docs : List Bytes} {r r' : BsonReaderHandle} {eof : Bool} (before : Reached handle docs r)
      (turn : r.turn fresh = .done none eof r') : Reached handle docs r'
  | document {docs : List Bytes} {r r' : BsonReaderHandle} {b : BsonRef} {eof : Bool}
      (before : Reached handle docs r) (turn : r.turn fresh = .done (some b) eof r') :
      Reached handle (docs ++ [b.octets]) r'

end Passes

variable {fresh : Nat → Mem} {handle : List ReadResult} {docs : List Bytes}
  {r r' g : BsonReaderHandle} {bs : Bytes}

/-! ## A pass and its refill -/

/-- A pass goes on exactly where it refills, with what the refill leaves. -/
theorem turn_again_iff :
    r.turn fresh = .again r' ↔ ∃ g, r.filling fresh = some g ∧ g.fillBuffer = some r' := by
  have hrefill (g : BsonReaderHandle) : g.refill = .again r' ↔ g.fillBuffer = some r' := by
    rw [refill]
    cases g.fillBuffer with
    | none => simp
    | some s => rw [Turn.again.injEq, Option.some.injEq]
  unfold turn filling
  cases r.done with
  | true => simp
  | false =>
    by_cases hshort : u64sub r.end r.offset < 4
    · simp [hshort, hrefill]
    · by_cases hsmall : i32 (r.data.le r.offset 4) < 5
      · simp [hshort, hsmall]
      · by_cases hmore : i32 (r.data.le r.offset 4) > i32 (u64sub r.end r.offset)
        · by_cases hgrow : i32 (r.data.le r.offset 4) > i32 r.len
          · simp only [hshort, hsmall, hmore, hgrow, growAndRefill, if_true, if_false,
              Bool.false_eq_true]
            cases r.growBuffer fresh with
            | none => simp
            | some g => simp [hrefill]
          · simp [hshort, hsmall, hmore, hgrow, growAndRefill, hrefill]
        · simp only [hshort, hsmall, hmore, if_false, Bool.false_eq_true]
          cases bsonInitStatic (r.data.shift r.offset) (ofInt32 (i32 (r.data.le r.offset 4))) with
          | none => simp
          | some b => simp

/-- A refill makes the one call of `read_func` it is asked to. -/
theorem fillBuffer_request (h : g.fillBuffer = some r') :
    r'.handle = (readFunc g.request.2 g.request.1.handle).2 := by
  unfold fillBuffer at h
  unfold request
  split at h
  · next hfirst =>
    rw [if_pos hfirst]
    cases h
    unfold firstRead
    rcases readFunc g.len g.handle with ⟨ret, handle'⟩
    match ret with
    | none => rfl
    | some [] => rfl
    | some (b :: bs) => rfl
  · next hlater =>
    rw [if_neg hlater]
    simp only at h
    split at h
    · cases h
      unfold readMore
      rcases readFunc (u64sub g.moveToHead.len g.moveToHead.end) g.moveToHead.handle
        with ⟨ret, handle'⟩
      match ret with
      | none => rfl
      | some [] => rfl
      | some (b :: bs) => rfl
    · cases h

/-! ## Calls are passes -/

/-- The constructor is a pass over a reader with nothing in its buffer. -/
theorem turn_initial (fresh : Nat → Mem) (handle : List ReadResult) :
    (initial handle).turn fresh = (initial handle).refill := by
  have hempty : u64sub (initial handle).end (initial handle).offset < 4 :=
    (by decide : u64sub 0 0 < 4)
  unfold turn
  exact (if_neg Bool.false_ne_true).trans (if_pos hempty)

theorem reached_new (h : bsonReaderNewFromHandle handle = some r) :
    Reached fresh handle [] r := by
  refine .again .initial ?_
  rw [turn_initial, refill]
  have hfill : (initial handle).fillBuffer = some r := h
  rw [hfill]

theorem Reached.turns {b : Option BsonRef} {eof : Bool} (fuel : Nat) (h : Reached fresh handle docs r)
    (hr : BsonReaderHandle.turns fresh fuel r = .done b eof r') :
    Reached fresh handle (docs ++ (b.map BsonRef.octets).toList) r' := by
  induction fuel generalizing r with
  | zero => cases hr
  | succ fuel ih =>
    cases hturn : r.turn fresh with
    | again s =>
      rw [turns_again fuel hturn] at hr
      exact ih (.again h hturn) hr
    | crash =>
      rw [BsonReaderHandle.turns, hturn] at hr
      cases hr
    | done b₁ eof₁ s =>
      rw [turns_done fuel hturn] at hr
      cases hr
      cases b with
      | none =>
        rw [Option.map_none, Option.toList_none, List.append_nil]
        exact .null h hturn
      | some b => exact .document h hturn

/-- A call of `bson_reader_read` that returns is some passes. -/
theorem Reached.read {b : Option BsonRef} {eof : Bool} (h : Reached fresh handle docs r)
    (hr : r.read fresh = .done b eof r') :
    Reached fresh handle (docs ++ (b.map BsonRef.octets).toList) r' :=
  Reached.turns _ h hr

/-! ## A pass that ends the call -/

theorem refill_ne_done {b : Option BsonRef} {eof : Bool} : r.refill ≠ .done b eof r' := by
  unfold refill
  cases r.fillBuffer with
  | none => exact fun h => (nomatch h)
  | some g => exact fun h => (nomatch h)

theorem growAndRefill_ne_done {blen : Int} {b : Option BsonRef} {eof : Bool} :
    r.growAndRefill fresh blen ≠ .done b eof r' := by
  unfold growAndRefill
  split
  · cases r.growBuffer fresh with
    | none => exact fun h => (nomatch h)
    | some g => exact refill_ne_done
  · exact refill_ne_done

/-- Every way a pass can end a call: the reader is done or refuses what stands at its
offset, or it hands that out. -/
theorem turn_done_cases {b : Option BsonRef} {eof : Bool} (h : r.turn fresh = .done b eof r') :
    b = none ∧ r' = r ∨
      r.done = false ∧ 4 ≤ u64sub r.end r.offset ∧ 5 ≤ i32 (r.data.le r.offset 4) ∧
        i32 (r.data.le r.offset 4) ≤ i32 (u64sub r.end r.offset) ∧
        r' = { r with offset := u64 (r.offset + ofInt32 (i32 (r.data.le r.offset 4))) } ∧
        ∃ d, b = some d ∧
          bsonInitStatic (r.data.shift r.offset) (ofInt32 (i32 (r.data.le r.offset 4))) = some d := by
  unfold turn at h
  split at h
  · cases h
    exact Or.inl ⟨rfl, rfl⟩
  · next hdone =>
    split at h
    · exact absurd h refill_ne_done
    · next hfour =>
      simp only at h
      split at h
      · cases h
        exact Or.inl ⟨rfl, rfl⟩
      · next hfive =>
        split at h
        · exact absurd h growAndRefill_ne_done
        · next hwhole =>
          split at h
          · cases h
            exact Or.inl ⟨rfl, rfl⟩
          · next d hinit =>
            cases h
            exact Or.inr ⟨by simpa using hdone, by omega, by omega, by omega, rfl, d, rfl, hinit⟩

/-- The length word of a document handed out is its length. -/
theorem turn_document_len {b : BsonRef} {eof : Bool} (h : r.turn fresh = .done (some b) eof r') :
    b.len = r.data.le r.offset 4 ∧ 5 ≤ b.len := by
  have hword : r.data.le r.offset 4 < 4294967296 := Mem.le_lt r.data r.offset 4
  rcases turn_done_cases h with ⟨hnone, -⟩ | ⟨-, -, hfive, -, -, d, hsome, hinit⟩
  · cases hnone
  · cases hsome
    rw [bsonInitStatic_eq hinit]
    unfold i32 at hfive ⊢
    unfold ofInt32
    simp only
    omega

theorem turn_done_len {b : Option BsonRef} {eof : Bool} (h : r.turn fresh = .done b eof r') :
    r'.len = r.len := by
  rcases turn_done_cases h with ⟨-, rfl⟩ | ⟨-, -, -, -, rfl, -⟩
  · rfl
  · rfl

/-- A pass that ends the call did not want more. -/
theorem not_wantsMore_of_done {consumed : Nat} (hbuf : r.Buffers consumed bs)
    (hstarted : 0 < r.end) {b : Option BsonRef} {eof : Bool} (h : r.turn fresh = .done b eof r') :
    ¬ r.wantsMore := by
  intro hmore
  rcases turn_wantsMore fresh hbuf hstarted hmore with ⟨hcrash, -⟩ | ⟨r₁, hagain, -⟩
  · rw [h] at hcrash
    cases hcrash
  · rw [h] at hagain
    cases hagain

/-- A pass that goes on did. -/
theorem wantsMore_of_again {consumed : Nat} (hbuf : r.Buffers consumed bs) (hdone : r.done = false)
    (h : r.turn fresh = .again r') : r.wantsMore := by
  by_contra hstops
  rcases turn_stops fresh hbuf hdone hstops with ⟨hnone, -⟩ | ⟨b, r₁, hsome, -⟩
  · rw [h] at hnone
    cases hnone
  · rw [h] at hsome
    cases hsome

/-! ## What the passes keep -/

/-- Octets that begin with their own number as a length word. -/
def IsFramed (d : Bytes) : Prop := 5 ≤ d.length ∧ leNat (d.take 4) = d.length

/-- What carries the invariant from pass to pass. -/
inductive Holding (handle : List ReadResult) (docs : List Bytes) (r : BsonReaderHandle) : Prop
  | initial (none : docs = []) (new : r = .initial handle)
  | running (bs : Bytes) (done : r.done = false) (started : 0 < r.end)
      (buffers : r.Buffers docs.flatten.length bs)
      (stream : docs.flatten ++ (bs ++ delivered r.handle) = delivered handle)
      (framed : ∀ d ∈ docs, IsFramed d)
  | stopped (bs : Bytes) (done : r.done = true) (buffers : r.Buffers docs.flatten.length bs)
      (stream : docs.flatten ++ bs = delivered handle)

theorem initial_buffers (handle : List ReadResult) :
    (initial handle).Buffers 0 [] :=
  ⟨rfl, Nat.zero_le _, ⟨10, by decide, by decide, rfl⟩, holds_nil _ _, rfl⟩

theorem buffers_unconsumed {consumed : Nat} (h : r.Buffers consumed bs) : r.unconsumed = bs := by
  have horder := h.order
  have hlen : r.end - r.offset = bs.length := by omega
  rw [unconsumed, hlen]
  exact h.content.slice_eq

/-- A document handed out is framed, and the next stands at the new offset. -/
theorem Holding.document (h : Holding handle docs r) {b : BsonRef} {eof : Bool}
    (hturn : r.turn fresh = .done (some b) eof r') : Holding handle (docs ++ [b.octets]) r' := by
  cases h with
  | initial none new =>
    subst new
    rw [turn_initial] at hturn
    cases hturn
  | stopped bs done buffers stream =>
    rw [turn_done fresh done] at hturn
    cases hturn
  | running bs done started buffers stream framed =>
    obtain ⟨hlen, hfive⟩ := turn_document_len hturn
    have hstops := not_wantsMore_of_done buffers started hturn
    rcases turn_stops fresh buffers done hstops with
      ⟨hnone, -⟩ | ⟨b₁, r₁, hsome, hdone, hend, hhandle, -, -, hoctets, hle, hbuf⟩
    · rw [hturn] at hnone
      cases hnone
    · rw [hturn] at hsome
      cases hsome
      have hcount : (docs ++ [b.octets]).flatten.length = docs.flatten.length + b.len := by
        simp [hoctets, List.length_take, Nat.min_eq_left hle]
      have hhead : leNat (b.octets.take 4) = b.len := by
        have hsplit := buffers.content
        rw [← List.take_append_drop 4 bs, holds_append] at hsplit
        have hfour : (bs.take 4).length = 4 := by rw [List.length_take]; omega
        rw [hoctets, List.take_take, Nat.min_eq_left (by omega), ← hsplit.1.le_eq_leNat hfour]
        exact hlen.symm
      refine .running (bs.drop b.len) hdone (by rw [hend]; exact started) (by rw [hcount]; exact hbuf)
        ?_ ?_
      · rw [hhandle, ← stream, hoctets]
        simp only [List.flatten_append, List.flatten_cons, List.flatten_nil, List.append_nil,
          List.append_assoc]
        rw [← List.append_assoc (List.take b.len bs), List.take_append_drop]
      · intro d hd
        rcases List.mem_append.mp hd with hd | hd
        · exact framed d hd
        · obtain rfl := List.mem_singleton.mp hd
          have hlength : b.octets.length = b.len := by simp [BsonRef.octets]
          exact ⟨by omega, by rw [hhead, hlength]⟩

/-- A call that yields nothing leaves the reader as it is. -/
theorem Holding.null (h : Holding handle docs r) {eof : Bool}
    (hturn : r.turn fresh = .done none eof r') : Holding handle docs r' := by
  rcases turn_done_cases hturn with ⟨-, rfl⟩ | ⟨-, -, -, -, -, d, hsome, -⟩
  · exact h
  · cases hsome

/-- A pass that refills keeps what was in the buffer in front of what it reads. -/
theorem Holding.again (h : Holding handle docs r) (hturn : r.turn fresh = .again r') :
    Holding handle docs r' := by
  cases h with
  | stopped bs done buffers stream =>
    rw [turn_done fresh done] at hturn
    cases hturn
  | initial none new =>
    subst none new
    obtain ⟨r₁, hnew, -, -, hcases⟩ := new_cases handle
    have hfill : (BsonReaderHandle.initial handle).fillBuffer = some r₁ := hnew
    rw [turn_initial, refill, hfill] at hturn
    cases hturn
    rcases hcases with ⟨hdone, hnil, hbuf⟩ | ⟨hdone, hstarted, -, bs, hbuf, hstream⟩
    · exact .stopped [] hdone hbuf hnil.symm
    · exact .running bs hdone hstarted hbuf hstream (fun d hd => by cases hd)
  | running bs done started buffers stream framed =>
    have hmore := wantsMore_of_again buffers done hturn
    rcases turn_wantsMore fresh buffers started hmore with
      ⟨hcrash, -⟩ | ⟨r₁, hagain, -, hcases⟩
    · rw [hturn] at hcrash
      cases hcrash
    · rw [hturn] at hagain
      cases hagain
      rcases hcases with hended | ⟨chunk, hfilled⟩
      · refine .stopped bs hended.done hended.buffers ?_
        rw [← stream, hended.none, List.append_nil]
      · have hchunk := List.length_pos_of_ne_nil hfilled.more
        have horder := hfilled.buffers.order
        rw [List.length_append] at horder
        refine .running (bs ++ chunk) (hfilled.done.trans done) (by omega) hfilled.buffers ?_ framed
        rw [← stream, hfilled.delivered]
        simp only [List.append_assoc]

theorem Holding.of_reached (h : Reached fresh handle docs r) : Holding handle docs r := by
  induction h with
  | initial => exact .initial rfl rfl
  | again before turn ih => exact ih.again turn
  | null before turn ih => exact ih.null turn
  | document before turn ih => exact ih.document turn

end BsonReaderHandle

end LibBson.Source
