import LibBson.Spec.Stream
import LibBson.Source.DecodeLaws

/-!
# A handle reader's buffer and its stream

`Buffers r consumed bs`: the reader has handed out `consumed` octets and holds
`bs`, the next octets of the stream. A refill appends what the handle delivers
or finds its end; a turn of the loop does nothing else to the buffer.
Source: bson-reader.c:89-135, 353-375, 395-503.
-/

set_option autoImplicit false

namespace LibBson.Source
open LibBson.Library LibBson.Spec

theorem readFunc_fits {n : Nat} {bs : Bytes} (rest : List ReadResult) (h : bs.length ≤ n) :
    readFunc n (.octets bs :: rest) = (some bs, rest) := if_pos h

theorem readFunc_long {n : Nat} {bs : Bytes} (rest : List ReadResult) (h : ¬ bs.length ≤ n) :
    readFunc n (.octets bs :: rest) = (some (bs.take n), .octets (bs.drop n) :: rest) := if_neg h

theorem pending_octets (bs : Bytes) (rest : List ReadResult) :
    BsonReaderHandle.pending (.octets bs :: rest) =
      bs.length + 1 + BsonReaderHandle.pending rest := rfl

/-- What one call of `read_func` takes from the stream, if asked for an octet. -/
theorem readFunc_cases (n : Nat) (handle : List ReadResult) (hn : 0 < n) :
    ((readFunc n handle).1 = none ∧ delivered handle = [] ∧ endsInError handle = true) ∨
    ((readFunc n handle).1 = some [] ∧ delivered handle = [] ∧ endsInError handle = false) ∨
    (∃ b bs, (readFunc n handle).1 = some (b :: bs) ∧ (b :: bs).length ≤ n ∧
      delivered handle = (b :: bs) ++ delivered (readFunc n handle).2 ∧
      endsInError (readFunc n handle).2 = endsInError handle ∧
      BsonReaderHandle.pending (readFunc n handle).2 < BsonReaderHandle.pending handle) := by
  match handle with
  | [] => exact Or.inr (Or.inl ⟨rfl, rfl, rfl⟩)
  | .error :: rest => exact Or.inl ⟨rfl, rfl, rfl⟩
  | .octets [] :: rest =>
    rw [readFunc_fits rest (Nat.zero_le n)]
    exact Or.inr (Or.inl ⟨rfl, rfl, rfl⟩)
  | .octets (b :: bs) :: rest =>
    refine Or.inr (Or.inr ?_)
    by_cases hle : (b :: bs).length ≤ n
    · rw [readFunc_fits rest hle, pending_octets]
      exact ⟨b, bs, rfl, hle, rfl, rfl, by simp only; omega⟩
    · obtain ⟨k, rfl⟩ : ∃ k, n = k + 1 := ⟨n - 1, by omega⟩
      have hlt : k < bs.length := by
        simp only [List.length_cons] at hle
        omega
      obtain ⟨c, cs, hdrop⟩ : ∃ c cs, bs.drop k = c :: cs :=
        List.exists_cons_of_ne_nil (by simp [hlt])
      have hsplit : bs.take k ++ (c :: cs) = bs := by rw [← hdrop, List.take_append_drop]
      have hlen : (c :: cs).length = bs.length - k := by rw [← hdrop, List.length_drop]
      rw [readFunc_long rest hle, List.take_succ_cons, List.drop_succ_cons, hdrop, pending_octets,
        pending_octets]
      refine ⟨b, bs.take k, rfl, ?_, ?_, rfl, ?_⟩
      · simp only [List.length_cons, List.length_take]
        omega
      · rw [delivered, delivered, List.cons_append, List.cons_append, ← List.append_assoc, hsplit]
      · simp only [List.length_cons] at hlen ⊢
        omega

/-- A document `bson_init_static` accepts is the octets it was given. -/
theorem bsonInitStatic_eq {data : Mem} {length : Nat} {b : BsonRef}
    (h : bsonInitStatic data length = some b) : b = { data := data, len := length } := by
  unfold bsonInitStatic at h
  split at h
  · cases h
  · split at h
    · cases h
    · split at h
      · cases h
      · exact (Option.some.inj h).symm

namespace BsonReaderHandle

/-- The buffer holds `bs` behind the `consumed` octets handed out. -/
structure Buffers (r : BsonReaderHandle) (consumed : Nat) (bs : Bytes) : Prop where
  order : r.offset + bs.length = r.end
  inside : r.end ≤ r.len
  size : ∃ j, 10 ≤ j ∧ j ≤ 63 ∧ r.len = 2 ^ j
  content : Holds r.data r.offset bs
  count : r.bytesRead = u64 (consumed + bs.length)

theorem Buffers.len_ge {r : BsonReaderHandle} {consumed : Nat} {bs : Bytes}
    (h : Buffers r consumed bs) : 1024 ≤ r.len := by
  obtain ⟨j, hlo, -, hlen⟩ := h.size
  rw [hlen]
  exact Nat.pow_le_pow_right (by decide : 0 < 2) hlo

theorem Buffers.len_le {r : BsonReaderHandle} {consumed : Nat} {bs : Bytes}
    (h : Buffers r consumed bs) : r.len ≤ 9223372036854775808 := by
  obtain ⟨j, -, hhi, hlen⟩ := h.size
  rw [hlen]
  exact Nat.pow_le_pow_right (by decide : 0 < 2) hhi

theorem Buffers.kept {r : BsonReaderHandle} {consumed : Nat} {bs : Bytes}
    (h : Buffers r consumed bs) : u64sub r.end r.offset = bs.length := by
  have horder := h.order
  have hinside := h.inside
  have hword := h.len_le
  rw [u64sub_of_le (by omega) (by omega)]
  omega

theorem Buffers.moveToHead {r : BsonReaderHandle} {consumed : Nat} {bs : Bytes}
    (h : Buffers r consumed bs) :
    Buffers r.moveToHead consumed bs ∧ r.moveToHead.offset = 0 := by
  have horder := h.order
  have hinside := h.inside
  refine ⟨⟨?_, ?_, h.size, ?_, h.count⟩, rfl⟩
  · simp only [BsonReaderHandle.moveToHead, h.kept, Nat.zero_add]
  · simp only [BsonReaderHandle.moveToHead, h.kept]
    omega
  · simp only [BsonReaderHandle.moveToHead, h.kept, h.content.slice_eq]
    exact Mem.holds_write_self _ _ _

/-- A call of `read_func` at the end of the stream. -/
structure Ended (r r' : BsonReaderHandle) (consumed : Nat) (bs : Bytes) : Prop where
  buffers : Buffers r' consumed bs
  none : delivered r.handle = []
  done : r'.done = true
  failed : r'.failed = endsInError r.handle

/-- A call of `read_func` that delivers octets. -/
structure Filled (r r' : BsonReaderHandle) (consumed : Nat) (bs chunk : Bytes) : Prop where
  buffers : Buffers r' consumed (bs ++ chunk)
  more : chunk ≠ []
  delivered : delivered r.handle = chunk ++ delivered r'.handle
  ends : endsInError r'.handle = endsInError r.handle
  pending : pending r'.handle < pending r.handle
  done : r'.done = r.done
  failed : r'.failed = r.failed

theorem readMore_cases {r : BsonReaderHandle} {consumed : Nat} {bs : Bytes}
    (h : Buffers r consumed bs) (hoff : r.offset = 0) (room : bs.length < r.len) :
    r.readMore.offset = 0 ∧ r.readMore.len = r.len ∧
      (Ended r r.readMore consumed bs ∨ ∃ chunk, Filled r r.readMore consumed bs chunk) := by
  have horder := h.order
  have hword := h.len_le
  rw [hoff, Nat.zero_add] at horder
  have hroom : u64sub r.len r.end = r.len - bs.length := by
    rw [u64sub_of_le (by omega) (by omega), horder]
  have hcases := readFunc_cases (r.len - bs.length) r.handle (by omega)
  unfold readMore
  rw [hroom]
  rcases hread : readFunc (r.len - bs.length) r.handle with ⟨ret, handle⟩
  rw [hread] at hcases
  rcases hcases with ⟨hret, hdel, herr⟩ | ⟨hret, hdel, herr⟩ | ⟨b, cs, hret, hle, hdel, herr, hp⟩
  · simp only at hret
    subst hret
    exact ⟨hoff, rfl, Or.inl ⟨⟨h.order, h.inside, h.size, h.content, h.count⟩, hdel, rfl,
      herr.symm⟩⟩
  · simp only at hret
    subst hret
    exact ⟨hoff, rfl, Or.inl ⟨⟨h.order, h.inside, h.size, h.content, h.count⟩, hdel, rfl,
      herr.symm⟩⟩
  · simp only at hret hdel herr hp
    subst hret
    have hend : u64 (r.end + (b :: cs).length) = r.end + (b :: cs).length :=
      Nat.mod_eq_of_lt (by omega)
    have hcount : u64 (r.bytesRead + (b :: cs).length) =
        u64 (consumed + (bs ++ b :: cs).length) := by
      rw [h.count, List.length_append]
      unfold u64
      omega
    have hold := h.content
    rw [hoff] at hold
    refine ⟨hoff, rfl, Or.inr ⟨b :: cs, ⟨⟨?_, ?_, h.size, ?_, hcount⟩, List.cons_ne_nil _ _,
      hdel, herr, hp, rfl, rfl⟩⟩⟩
    · simp only [hend, hoff, List.length_append]
      omega
    · simp only [hend]
      omega
    · simp only [hoff, holds_append, Nat.zero_add]
      refine ⟨Mem.holds_write_frame hold (by omega), ?_⟩
      rw [← horder]
      exact Mem.holds_write_self _ _ _

/-- A refill behind the first read: the buffer keeps its octets and takes more, or
the stream is at its end. -/
theorem refill_cases {r : BsonReaderHandle} {consumed : Nat} {bs : Bytes}
    (h : Buffers r consumed bs) (started : 0 < r.end) (room : bs.length < r.len) :
    ∃ r', r.refill = .again r' ∧ r'.len = r.len ∧
      (Ended r r' consumed bs ∨ ∃ chunk, Filled r r' consumed bs chunk) := by
  obtain ⟨hmove, hoff⟩ := h.moveToHead
  obtain ⟨hoff', hlen, hcases⟩ := readMore_cases hmove hoff room
  have hinside : r.moveToHead.readMore.end ≤ r.moveToHead.readMore.len := by
    rcases hcases with hended | ⟨chunk, hfilled⟩
    · exact hended.buffers.inside
    · exact hfilled.buffers.inside
  have hfill : r.fillBuffer = some r.moveToHead.readMore := by
    unfold fillBuffer
    rw [if_neg (by omega)]
    simp only [hoff', hinside, and_self, if_true]
  refine ⟨r.moveToHead.readMore, by rw [refill, hfill], hlen, ?_⟩
  rcases hcases with hended | ⟨chunk, hfilled⟩
  · exact Or.inl ⟨hended.buffers, hended.none, hended.done, hended.failed⟩
  · exact Or.inr ⟨chunk, ⟨hfilled.buffers, hfilled.more, hfilled.delivered, hfilled.ends,
      hfilled.pending, hfilled.done, hfilled.failed⟩⟩

theorem growBuffer_cases (fresh : Nat → Mem) {r : BsonReaderHandle} {consumed : Nat} {bs : Bytes}
    (h : Buffers r consumed bs) :
    r.growBuffer fresh = none ∧ r.len = 9223372036854775808 ∨
      ∃ r', r.growBuffer fresh = some r' ∧ Buffers r' consumed bs ∧ r'.len = r.len * 2 ∧
        r'.end = r.end ∧ r'.handle = r.handle ∧ r'.done = r.done ∧ r'.failed = r.failed := by
  obtain ⟨j, hlo, hhi, hlen⟩ := h.size
  have hsucc : r.len * 2 = 2 ^ (j + 1) := by rw [hlen, Nat.pow_succ]
  by_cases hj : j = 63
  · subst hj
    refine Or.inl ⟨?_, hlen⟩
    rw [growBuffer, hlen]
    exact if_pos (by decide)
  · have hle : 2 ^ (j + 1) ≤ 2 ^ 63 := Nat.pow_le_pow_right (by decide) (by omega)
    have hu : u64 (r.len * 2) = r.len * 2 := Nat.mod_eq_of_lt (by rw [hsucc]; omega)
    have hge := h.len_ge
    have horder := h.order
    have hinside := h.inside
    refine Or.inr ⟨{ r with data := r.data.copyPrefix (fresh (r.len * 2)) r.len, len := r.len * 2 },
      ?_, ⟨horder, ?_, ⟨j + 1, by omega, by omega, hsucc⟩, ?_, h.count⟩, rfl, rfl, rfl, rfl, rfl⟩
    · simp only [growBuffer, hu]
      rw [if_neg (by omega)]
    · simp only
      omega
    · have hfits : r.offset + bs.length ≤ r.len := by omega
      exact Mem.holds_copyPrefix h.content hfits

/-- The loop is about to refill the buffer: it holds no whole document. -/
def wantsMore (r : BsonReaderHandle) : Prop :=
  r.done = false ∧
    (u64sub r.end r.offset < 4 ∨
      5 ≤ i32 (r.data.le r.offset 4) ∧ i32 (u64sub r.end r.offset) < i32 (r.data.le r.offset 4))

/-- The buffer has been doubled for a document that is longer. -/
def Doubled (r r' : BsonReaderHandle) : Prop :=
  r'.len = r.len * 2 ∧ 4 ≤ u64sub r.end r.offset ∧ i32 r.len < i32 (r.data.le r.offset 4)

/-- A turn that wants more refills the buffer, or there is no room for it to grow. -/
theorem turn_wantsMore (fresh : Nat → Mem) {r : BsonReaderHandle} {consumed : Nat} {bs : Bytes}
    (h : Buffers r consumed bs) (started : 0 < r.end) (hmore : r.wantsMore) :
    r.turn fresh = .crash ∧ r.len = 9223372036854775808 ∨
      ∃ r', r.turn fresh = .again r' ∧ (r'.len = r.len ∨ Doubled r r') ∧
        (Ended r r' consumed bs ∨ ∃ chunk, Filled r r' consumed bs chunk) := by
  obtain ⟨hdone, hmore⟩ := hmore
  have hge := h.len_ge
  have hkept := h.kept
  have horder := h.order
  have hinside := h.inside
  by_cases hshort : u64sub r.end r.offset < 4
  · obtain ⟨r', hr, hlen, hcases⟩ := refill_cases h started (by omega)
    refine Or.inr ⟨r', ?_, Or.inl hlen, hcases⟩
    rw [turn, hdone, if_neg (by decide), if_pos hshort, hr]
  · obtain ⟨hblen, hlong⟩ := hmore.resolve_left hshort
    have hturn : r.turn fresh = r.growAndRefill fresh (i32 (r.data.le r.offset 4)) := by
      simp only [turn, hdone, hshort, if_false, if_neg (Int.not_lt.mpr hblen), if_pos hlong,
        Bool.false_eq_true]
    rw [hturn, growAndRefill]
    split
    · next hgrow =>
      rcases growBuffer_cases fresh h with ⟨hnone, hmax⟩ | ⟨g, hg, hgb, hglen, hgend, hgh, hgd, hgf⟩
      · exact Or.inl ⟨by rw [hnone], hmax⟩
      · obtain ⟨r', hr, hlen, hcases⟩ := refill_cases hgb (by rw [hgend]; exact started) (by omega)
        refine Or.inr ⟨r', by rw [hg]; exact hr,
          Or.inr ⟨hlen.trans hglen, Nat.le_of_not_lt hshort, hgrow⟩, ?_⟩
        rcases hcases with hended | ⟨chunk, hfilled⟩
        · refine Or.inl ⟨hended.buffers, ?_, hended.done, ?_⟩
          · rw [← hgh]
            exact hended.none
          · rw [← hgh]
            exact hended.failed
        · refine Or.inr ⟨chunk, hfilled.buffers, hfilled.more, ?_, ?_, ?_, ?_, ?_⟩
          · rw [← hgh]
            exact hfilled.delivered
          · rw [← hgh]
            exact hfilled.ends
          · rw [← hgh]
            exact hfilled.pending
          · exact hfilled.done.trans hgd
          · exact hfilled.failed.trans hgf
    · next hfits =>
      have hroom : bs.length ≠ r.len := by
        intro heq
        rw [hkept, heq] at hlong
        omega
      obtain ⟨r', hr, hlen, hcases⟩ := refill_cases h started (by omega)
      exact Or.inr ⟨r', hr, Or.inl hlen, hcases⟩

/-- What a turn does when it wants no more. -/
theorem turn_stops_eq (fresh : Nat → Mem) {r : BsonReaderHandle} (hdone : r.done = false)
    (hmore : ¬ r.wantsMore) :
    r.turn fresh =
      if i32 (r.data.le r.offset 4) < 5 then .done none false r
      else
        match bsonInitStatic (r.data.shift r.offset) (ofInt32 (i32 (r.data.le r.offset 4))) with
        | none => .done none false r
        | some b =>
          .done (some b) false
            { r with offset := u64 (r.offset + ofInt32 (i32 (r.data.le r.offset 4))) } := by
  have hlong : ¬ u64sub r.end r.offset < 4 := fun hlt => hmore ⟨hdone, Or.inl hlt⟩
  by_cases hsmall : i32 (r.data.le r.offset 4) < 5
  · simp only [turn, hdone, hlong, hsmall, if_true, if_false, Bool.false_eq_true]
  · have hwhole : ¬ i32 (u64sub r.end r.offset) < i32 (r.data.le r.offset 4) :=
      fun hlt => hmore ⟨hdone, Or.inr ⟨by omega, hlt⟩⟩
    cases hstatic : bsonInitStatic (r.data.shift r.offset)
        (ofInt32 (i32 (r.data.le r.offset 4))) with
    | none =>
      simp only [turn, hdone, hlong, hsmall, if_false, gt_iff_lt, hwhole, Bool.false_eq_true,
        hstatic]
    | some b =>
      simp only [turn, hdone, hlong, hsmall, if_false, gt_iff_lt, hwhole, Bool.false_eq_true,
        hstatic]

/-- A turn that wants no more refuses the length word or what stands there, or it
hands out the document. -/
theorem turn_stops (fresh : Nat → Mem) {r : BsonReaderHandle} {consumed : Nat} {bs : Bytes}
    (h : Buffers r consumed bs) (hdone : r.done = false) (hmore : ¬ r.wantsMore) :
    r.turn fresh = .done none false r ∧ bs ≠ [] ∨
      ∃ b r', r.turn fresh = .done (some b) false r' ∧ r'.done = false ∧ r'.end = r.end ∧
        r'.handle = r.handle ∧ r'.failed = r.failed ∧ r'.len = r.len ∧
        b.octets = bs.take b.len ∧ b.len ≤ bs.length ∧
        Buffers r' (consumed + b.len) (bs.drop b.len) := by
  have hkept := h.kept
  have horder := h.order
  have hinside := h.inside
  have hle := h.len_le
  have hne : bs ≠ [] := by
    rintro rfl
    exact hmore ⟨hdone, Or.inl (by rw [hkept]; decide)⟩
  rw [turn_stops_eq fresh hdone hmore]
  by_cases hsmall : i32 (r.data.le r.offset 4) < 5
  · exact Or.inl ⟨if_pos hsmall, hne⟩
  · have hwhole : ¬ i32 (u64sub r.end r.offset) < i32 (r.data.le r.offset 4) :=
      fun hlt => hmore ⟨hdone, Or.inr ⟨by omega, hlt⟩⟩
    rw [if_neg hsmall]
    have hi := i32_le (u64sub r.end r.offset)
    have hn : ofInt32 (i32 (r.data.le r.offset 4)) ≤ bs.length := by
      rw [hkept] at hi hwhole
      unfold ofInt32
      omega
    generalize ofInt32 (i32 (r.data.le r.offset 4)) = n at hn ⊢
    rcases hinit : bsonInitStatic (r.data.shift r.offset) n with _ | b
    · exact Or.inl ⟨rfl, hne⟩
    · have hb := bsonInitStatic_eq hinit
      have hoff : u64 (r.offset + n) = r.offset + n := Nat.mod_eq_of_lt (by omega)
      have hsplit : Holds r.data r.offset (bs.take n ++ bs.drop n) := by
        rw [List.take_append_drop]
        exact h.content
      rw [holds_append, List.length_take, Nat.min_eq_left hn] at hsplit
      subst hb
      refine Or.inr ⟨_, _, rfl, hdone, rfl, rfl, rfl, rfl, ?_, hn, ⟨?_, hinside, h.size, ?_, ?_⟩⟩
      · rw [BsonRef.octets, Mem.slice_shift]
        exact hsplit.1.slice_of_length (by rw [List.length_take, Nat.min_eq_left hn])
      · simp only [hoff, List.length_drop]
        omega
      · simp only [hoff]
        exact hsplit.2
      · have hsum : consumed + bs.length = consumed + n + (bs.length - n) := by omega
        simp only [h.count, List.length_drop, hsum]

end BsonReaderHandle

end LibBson.Source
