import LibBson.Source.ReaderRefills

/-!
# The buffer of a handle reader

For every stream of documents below 1 GiB, whatever pieces `read_func` delivers it in
and wherever it fails, and at every pass of every call, inside a refill too.
Source: bson-reader.c:89-135, 353-375, 395-503.
-/

set_option autoImplicit false

namespace LibBson.Guarantees
open LibBson.Library LibBson.Source LibBson.Spec BsonReaderHandle

/-- Behind whole documents no length word of the stream is `bound` or more. -/
def DocumentsBelow (bound : Int) (stream : Bytes) : Prop :=
  ∀ (docs : List Bytes) (rest : Bytes), (∀ d ∈ docs, IsFramed d) → docs.flatten ++ rest = stream →
    4 ≤ rest.length → i32 (leNat (rest.take 4)) < bound

/-- The counters of a reader that has yielded `docs`, and the octets of the stream. -/
structure BufferInvariant (handle : List ReadResult) (docs : List Bytes) (r : BsonReaderHandle) :
    Prop where
  order : r.offset ≤ r.end ∧ r.end ≤ r.len
  /-- Nothing is lost, doubled or swapped. -/
  stream : docs.flatten ++ (r.unconsumed ++ r.ahead) = delivered handle
  /-- In the arithmetic of `size_t`. -/
  position : u64 (u64sub r.bytesRead r.end + r.offset) = u64 docs.flatten.length

/-- A refill of the buffer of `r`, entered as `g`. -/
structure RefillInvariant (handle : List ReadResult) (docs : List Bytes)
    (r g : BsonReaderHandle) : Prop where
  entered : BufferInvariant handle docs g
  called : BufferInvariant handle docs g.request.1
  kept : g.unconsumed = r.unconsumed ∧ g.request.1.unconsumed = r.unconsumed
  asks : 0 < g.request.2
  fits : g.request.1.end + g.request.2 ≤ g.request.1.len
  /-- And it is what `read_func` is called for. -/
  made : ∀ r', g.fillBuffer = some r' →
    r'.handle = (readFunc g.request.2 g.request.1.handle).2

section Run

variable {fresh : Nat → Mem} {handle : List ReadResult} {docs : List Bytes}
  {r r' g : BsonReaderHandle} {bs : Bytes}

theorem BufferInvariant.of_buffers (h : r.Buffers docs.flatten.length bs)
    (hstream : docs.flatten ++ (bs ++ r.ahead) = delivered handle) :
    BufferInvariant handle docs r := by
  have horder := h.order
  have hinside := h.inside
  have hword := h.len_le
  refine ⟨⟨by omega, hinside⟩, ?_, ?_⟩
  · rw [buffers_unconsumed h]
    exact hstream
  · rw [h.count]
    unfold u64sub u64
    omega

/-- The length word at the offset is that of a document of the stream. -/
theorem word_below (hsmall : DocumentsBelow 1073741824 (delivered handle))
    (hbuf : r.Buffers docs.flatten.length bs) (hfour : 4 ≤ bs.length)
    (hstream : docs.flatten ++ (bs ++ delivered r.handle) = delivered handle)
    (hframed : ∀ d ∈ docs, IsFramed d) : i32 (r.data.le r.offset 4) < 1073741824 := by
  have hholds : Holds r.data r.offset (bs.take 4) := by
    have hsplit := hbuf.content
    rw [← List.take_append_drop 4 bs, holds_append] at hsplit
    exact hsplit.1
  have hword := hsmall docs _ hframed hstream (by rw [List.length_append]; omega)
  rw [List.take_append_of_le_length hfour] at hword
  rw [hholds.le_eq_leNat (by rw [List.length_take]; omega)]
  exact hword

theorem invariant_of_holding (h : Holding handle docs r) : BufferInvariant handle docs r := by
  cases h with
  | initial none new =>
    subst none new
    exact .of_buffers (initial_buffers handle) rfl
  | running bs done started buffers stream framed =>
    refine .of_buffers buffers ?_
    rw [ahead, done]
    exact stream
  | stopped bs done buffers stream =>
    refine .of_buffers buffers ?_
    rw [ahead, done]
    simpa using stream

/-- The buffer does not outgrow 1 GiB. -/
theorem reached_small (hsmall : DocumentsBelow 1073741824 (delivered handle))
    (h : Reached fresh handle docs r) : r.len ≤ 1073741824 := by
  induction h with
  | initial => exact (by decide : 1024 ≤ 1073741824)
  | null before hturn ih => rwa [turn_done_len hturn]
  | document before hturn ih => rwa [turn_done_len hturn]
  | again before hturn ih =>
    cases Holding.of_reached before with
    | stopped bs done buffers stream =>
      rw [turn_done _ done] at hturn
      cases hturn
    | initial none new =>
      subst new
      obtain ⟨r₁, hnew, hlen, -⟩ := new_cases handle
      have hfill : (initial handle).fillBuffer = some r₁ := hnew
      rw [turn_initial, refill, hfill] at hturn
      cases hturn
      omega
    | running bs done started buffers stream framed =>
      have hmore := wantsMore_of_again buffers done hturn
      rcases turn_wantsMore _ buffers started hmore with ⟨hcrash, -⟩ | ⟨r₁, hagain, hgrown, -⟩
      · rw [hturn] at hcrash
        cases hcrash
      · rw [hturn] at hagain
        cases hagain
        rcases hgrown with hsame | ⟨hdouble, hfour, hlong⟩
        · omega
        · rw [buffers.kept] at hfour
          have hword := word_below hsmall buffers hfour stream framed
          rw [i32_of_lt (by omega)] at hlong
          exact doubled_le buffers.size hdouble (by omega)

/-- A refill entered with room left: the octets move to the head, the rest is asked for. -/
theorem refill_of_room (hdone : g.done = false) (hstarted : 0 < g.end)
    (hbuf : g.Buffers docs.flatten.length bs) (hroom : bs.length < g.len)
    (hstream : docs.flatten ++ (bs ++ delivered g.handle) = delivered handle)
    (hsame : r.unconsumed = bs) : RefillInvariant handle docs r g := by
  obtain ⟨hmove, hoff⟩ := hbuf.moveToHead
  have hrequest : g.request = (g.moveToHead, u64sub g.moveToHead.len g.moveToHead.end) :=
    if_neg (by omega)
  have hahead : g.ahead = delivered g.handle := by rw [ahead, hdone]; rfl
  have hahead' : g.moveToHead.ahead = g.ahead := rfl
  have hend : g.moveToHead.end = bs.length := hbuf.kept
  have hlen : g.moveToHead.len = g.len := rfl
  have hword := hbuf.len_le
  have hsize : u64sub g.moveToHead.len g.moveToHead.end = g.len - bs.length := by
    rw [hend, hlen, u64sub_of_le (by omega) (by omega)]
  rw [← hahead] at hstream
  refine ⟨.of_buffers hbuf hstream, ?_, ⟨?_, ?_⟩, ?_, ?_, fun _ => fillBuffer_request⟩
  · rw [hrequest]
    exact .of_buffers hmove (by rw [hahead']; exact hstream)
  · rw [hsame, buffers_unconsumed hbuf]
  · rw [hrequest, hsame]
    exact buffers_unconsumed hmove
  · rw [hrequest, hsize]
    omega
  · rw [hrequest, hsize, hend, hlen]
    omega

theorem refill_of_holding (h : Holding handle docs r) (small : r.len ≤ 1073741824)
    (hfill : r.filling fresh = some g) : RefillInvariant handle docs r g := by
  have hinvariant := invariant_of_holding h
  cases h with
  | stopped bs done buffers stream =>
    rw [filling, done] at hfill
    cases hfill
  | initial none new =>
    subst new
    have hempty : u64sub (initial handle).end
        (initial handle).offset < 4 := (by decide : u64sub 0 0 < 4)
    rw [filling, if_neg (by exact Bool.false_ne_true), if_pos hempty] at hfill
    cases hfill
    exact ⟨hinvariant, hinvariant, ⟨rfl, rfl⟩, Nat.zero_lt_succ _,
      Nat.le_of_eq (Nat.zero_add _), fun _ => fillBuffer_request⟩
  | running bs done started buffers stream framed =>
    have hkept := buffers.kept
    have hge := buffers.len_ge
    have hunconsumed := buffers_unconsumed buffers
    rw [filling, if_neg (by rw [done]; exact Bool.false_ne_true)] at hfill
    split at hfill
    · cases hfill
      exact refill_of_room done started buffers (by omega) stream hunconsumed
    · simp only at hfill
      split at hfill
      · cases hfill
      · split at hfill
        · next hlong =>
          split at hfill
          · rcases growBuffer_cases fresh buffers with
              ⟨hnone, -⟩ | ⟨g₁, hgrow, hbuf, hlen, hend, hhandle, hdone, -⟩
            · rw [hfill] at hnone
              cases hnone
            · rw [hfill] at hgrow
              cases hgrow
              have hinside := buffers.inside
              have horder := buffers.order
              exact refill_of_room (hdone.trans done) (by omega) hbuf (by omega)
                (by rw [hhandle]; exact stream) hunconsumed
          · next hshort =>
            cases hfill
            have hinside := buffers.inside
            have horder := buffers.order
            rw [hkept, i32_of_lt (by omega : bs.length < 2147483648)] at hlong
            rw [i32_of_lt (by omega : r.len < 2147483648)] at hshort
            exact refill_of_room done started buffers (by omega) stream hunconsumed
        · cases hfill

/-- No pass runs out of buffer or fails an assertion. -/
theorem no_crash_of_holding (fresh : Nat → Mem) (h : Holding handle docs r)
    (small : r.len ≤ 1073741824) : r.turn fresh ≠ .crash := by
  intro hcrash
  cases h with
  | stopped bs done buffers stream =>
    rw [turn_done fresh done] at hcrash
    cases hcrash
  | initial none new =>
    subst new
    rw [turn_initial] at hcrash
    cases hcrash
  | running bs done started buffers stream framed =>
    by_cases hmore : r.wantsMore
    · rcases turn_wantsMore fresh buffers started hmore with
        ⟨-, hmax⟩ | ⟨r₁, hagain, -⟩
      · omega
      · rw [hcrash] at hagain
        cases hagain
    · rcases turn_stops fresh buffers done hmore with
        ⟨hnone, -⟩ | ⟨b₁, r₁, hsome, -⟩
      · rw [hcrash] at hnone
        cases hnone
      · rw [hcrash] at hsome
        cases hsome

end Run

/-- At every pass of every run of calls the counters are in order and count the
documents yielded; a refill keeps the octets that are left, in order, and asks for at
least one octet and no more than there is room for. -/
theorem reader_buffer_invariant (fresh : Nat → Mem) (handle : List ReadResult)
    (hsmall : DocumentsBelow 1073741824 (delivered handle)) (docs : List Bytes)
    (r : BsonReaderHandle) (h : Reached fresh handle docs r) :
    BufferInvariant handle docs r ∧ r.turn fresh ≠ .crash ∧
      ∀ g, r.filling fresh = some g → RefillInvariant handle docs r g := by
  have hholding := Holding.of_reached h
  have hlen := reached_small hsmall h
  exact ⟨invariant_of_holding hholding, no_crash_of_holding fresh hholding hlen,
    fun g hfill => refill_of_holding hholding hlen hfill⟩

/-- `{}` in two pieces. -/
def emptyInPieces : List ReadResult := [.octets [5, 0], .octets [0, 0, 0]]

theorem emptyInPieces_below : DocumentsBelow 1073741824 (delivered emptyInPieces) := by
  intro docs rest hframed hstream hfour
  have hdelivered : delivered emptyInPieces = [5, 0, 0, 0, 0] := rfl
  rw [hdelivered] at hstream
  cases docs with
  | nil =>
    rw [List.flatten_nil, List.nil_append] at hstream
    rw [hstream]
    decide
  | cons d docs =>
    have hfive := (hframed d List.mem_cons_self).1
    have hlength := congrArg List.length hstream
    simp only [List.flatten_cons, List.length_append, List.length_cons, List.length_nil] at hlength
    omega

theorem emptyInPieces_reached :
    ∃ r, Reached (fun _ _ => 0) emptyInPieces [[5, 0, 0, 0, 0]] r := by
  have hone : Reached (fun _ _ => 0) emptyInPieces [] _ :=
    reached_new rfl
  have htwo := hone.again rfl
  have hdocument := htwo.document rfl
  exact ⟨_, hdocument⟩

/-- Behind `{}` in two pieces. -/
theorem reader_buffer_invariant_empty :
    ∃ r, BufferInvariant emptyInPieces [[5, 0, 0, 0, 0]] r ∧
      r.turn (fun _ _ => 0) ≠ .crash ∧
      ∀ g, r.filling (fun _ _ => 0) = some g →
        RefillInvariant emptyInPieces [[5, 0, 0, 0, 0]] r g := by
  obtain ⟨r, hreached⟩ := emptyInPieces_reached
  exact ⟨r, reader_buffer_invariant (fun _ _ => 0) emptyInPieces emptyInPieces_below _ r hreached⟩

end LibBson.Guarantees
