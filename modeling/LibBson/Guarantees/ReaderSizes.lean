import LibBson.Source.ReaderRefills

/-!
# The size tests of the readers

For every length word and every amount of octets, in memory or in the buffer of a
handle reader, whatever it has read so far. Source: bson-reader.c:353-375, 395-503,
563-601.
-/

set_option autoImplicit false

namespace LibBson.Guarantees
open LibBson.Library LibBson.Source LibBson.Spec BsonReaderHandle

/-- The cast of an amount to `int32_t` changes nothing, or it leaves a number that
`blen` does not exceed. -/
def CastHolds (blen : Int) (amount : Nat) : Prop := amount < 2147483648 ∨ blen ≤ i32 amount

theorem cast_test_iff {blen : Int} (amount : Nat) (hblen : blen < 2147483648) :
    (blen > i32 amount ↔ blen > (amount : Int)) ↔ CastHolds blen amount := by
  have hle := i32_le amount
  unfold CastHolds
  by_cases hsmall : amount < 2147483648
  · rw [i32_of_lt hsmall]
    exact ⟨fun _ => Or.inl hsmall, fun _ => Iff.rfl⟩
  · constructor
    · intro h
      by_contra hcast
      have hlong := h.mp (by omega)
      omega
    · intro h
      constructor
      · intro hlong
        omega
      · intro hlong
        omega

/-- The length word that stands at the offset. -/
def dataWord (r : BsonReaderData) : Int := i32 (r.data.le r.offset 4)

def handleWord (r : BsonReaderHandle) : Int := i32 (r.data.le r.offset 4)

/-- The tests of `_bson_reader_data_read` are those over unbounded integers, and a
document is yielded exactly if all its octets are there. -/
structure DataTests (r : BsonReaderData) : Prop where
  header : u64 (r.offset + 4) < r.length ↔ r.offset + 4 < r.length
  whole : r.offset + 4 < r.length → 5 ≤ dataWord r →
    (dataWord r > i32 (u64sub r.length r.offset) ↔ dataWord r > (r.length : Int) - r.offset)
  yields : ∀ b, (∃ eof r', r.read = (some b, eof, r')) ↔
    5 ≤ dataWord r ∧ r.offset + dataWord r ≤ r.length ∧
      bsonInitStatic (r.data.shift r.offset) (ofInt32 (dataWord r)) = some b

/-- The length of the buffer behind a pass that goes on: doubled if the document at the offset
is longer than the buffer. -/
def passedLen (r : BsonReaderHandle) : Nat :=
  if r.offset + 4 ≤ r.end ∧ handleWord r > (r.len : Int) then 2 * r.len else r.len

/-- The tests of `_bson_reader_handle_read` are those over unbounded integers, a
document is yielded exactly if all its octets are there, a pass that goes on has doubled the
buffer exactly if the document is longer, and in a run of passes for one document it doubles
with each until it has the size needed. -/
structure HandleTests (fresh : Nat → Mem) (r : BsonReaderHandle) : Prop where
  header : u64sub r.end r.offset < 4 ↔ r.end < r.offset + 4
  whole : r.offset + 4 ≤ r.end → 5 ≤ handleWord r →
    (handleWord r > i32 (u64sub r.end r.offset) ↔ handleWord r > (r.end : Int) - r.offset)
  grows : r.offset + 4 ≤ r.end → handleWord r > (r.end : Int) - r.offset →
    (handleWord r > i32 r.len ↔ handleWord r > (r.len : Int))
  returns : r.turn fresh ≠ .crash
  passes : ∀ r', r.turn fresh = .again r' → r'.len = passedLen r
  yields : ∀ b, (∃ eof r', r.turn fresh = .done (some b) eof r') ↔
    5 ≤ handleWord r ∧ r.offset + handleWord r ≤ r.end ∧
      bsonInitStatic (r.data.shift r.offset) (ofInt32 (handleWord r)) = some b
  doubles : r.offset + 4 ≤ r.end → ∀ n r', turns fresh n r = .again r' →
    min (handleWord r) (2 ^ n * r.len : Nat) ≤ r'.len

/-! ## Memory -/

section Data

variable {r r' : BsonReaderData}

theorem data_read_some_iff {b : BsonRef} :
    (∃ eof r', r.read = (some b, eof, r')) ↔
      u64 (r.offset + 4) < r.length ∧ 5 ≤ dataWord r ∧
        dataWord r ≤ i32 (u64sub r.length r.offset) ∧
        bsonInitStatic (r.data.shift r.offset) (ofInt32 (dataWord r)) = some b := by
  unfold BsonReaderData.read dataWord
  by_cases hheader : u64 (r.offset + 4) < r.length
  · by_cases hfive : i32 (r.data.le r.offset 4) < 5
    · simp [hheader, hfive]
    · by_cases hlong : i32 (r.data.le r.offset 4) > i32 (u64sub r.length r.offset)
      · simp only [hheader, hfive, hlong, if_true, if_false, true_and]
        constructor
        · rintro ⟨eof, r', hr⟩
          cases hr
        · rintro ⟨-, hle, -⟩
          omega
      · simp only [hheader, hfive, hlong, if_true, if_false, true_and]
        cases bsonInitStatic (r.data.shift r.offset) (ofInt32 (i32 (r.data.le r.offset 4))) with
        | none => simp
        | some d =>
          simp only [Option.some.injEq]
          constructor
          · rintro ⟨eof, r', hr⟩
            cases hr
            exact ⟨by omega, by omega, rfl⟩
          · rintro ⟨-, -, rfl⟩
            exact ⟨_, _, rfl⟩
  · simp [hheader]

/-- The offset stays in the data. -/
theorem data_read_inside (hinside : r.offset ≤ r.length) (hsize : r.length < 18446744073709551616)
    {b : Option BsonRef} {eof : Bool} (hr : r.read = (b, eof, r')) :
    r'.offset ≤ r'.length ∧ r'.length = r.length := by
  have hroom : u64sub r.length r.offset = r.length - r.offset := u64sub_of_le hsize hinside
  have hle := i32_le (r.length - r.offset)
  unfold BsonReaderData.read at hr
  rw [hroom] at hr
  split at hr
  · simp only at hr
    split at hr
    · cases hr
      exact ⟨hinside, rfl⟩
    · split at hr
      · cases hr
        exact ⟨hinside, rfl⟩
      · split at hr
        · cases hr
          exact ⟨hinside, rfl⟩
        · cases hr
          refine ⟨?_, rfl⟩
          unfold u64 ofInt32
          simp only
          omega
  · cases hr
    exact ⟨hinside, rfl⟩

/-- The offset of the word behind the length word fits `size_t`, and the octets left
survive their cast. -/
def DataFits (r : BsonReaderData) : Prop :=
  r.offset + 4 < 18446744073709551616 ∧
    (r.offset + 4 < r.length → 5 ≤ dataWord r → CastHolds (dataWord r) (r.length - r.offset))

theorem data_tests_iff (hinside : r.offset ≤ r.length) (hsize : r.length < 18446744073709551616) :
    DataTests r ↔ DataFits r := by
  have hroom : u64sub r.length r.offset = r.length - r.offset := u64sub_of_le hsize hinside
  have hcast : ((r.length - r.offset : Nat) : Int) = (r.length : Int) - r.offset := by omega
  have hword : dataWord r < 2147483648 := (i32_bounds _).2
  have htest := cast_test_iff (r.length - r.offset) hword
  rw [hcast] at htest
  constructor
  · intro h
    have hheader := h.header
    refine ⟨?_, fun hfour hfive => htest.mp (by rw [← hroom]; exact h.whole hfour hfive)⟩
    by_contra hwrap
    unfold u64 at hheader
    omega
  · rintro ⟨hfits, hcasts⟩
    have hfour : u64 (r.offset + 4) = r.offset + 4 := Nat.mod_eq_of_lt hfits
    refine ⟨by rw [hfour], fun hin hfive => ?_, fun b => ?_⟩
    · rw [hroom]
      exact htest.mpr (hcasts hin hfive)
    · rw [data_read_some_iff, hfour, hroom]
      have hle := i32_le (r.length - r.offset)
      constructor
      · rintro ⟨hin, hfive, hwhole, hinit⟩
        exact ⟨hfive, by omega, hinit⟩
      · rintro ⟨hfive, hwhole, hinit⟩
        have hin : r.offset + 4 < r.length := by omega
        have hsame := htest.mpr (hcasts hin hfive)
        refine ⟨hin, hfive, ?_, hinit⟩
        by_contra hlong
        have hover := hsame.mp (by omega)
        omega

end Data

/-! ## Handles -/

section Handle

variable {fresh : Nat → Mem} {handle : List ReadResult} {docs : List Bytes}
  {r r' g : BsonReaderHandle} {bs : Bytes} {consumed : Nat}

theorem fillBuffer_len (h : g.fillBuffer = some r') : r'.len = g.len := by
  have hmore : ∀ s : BsonReaderHandle, s.readMore.len = s.len := by
    intro s
    unfold readMore
    rcases readFunc (u64sub s.len s.end) s.handle with ⟨ret, handle'⟩
    match ret with
    | none => rfl
    | some [] => rfl
    | some (b :: bs) => rfl
  unfold fillBuffer at h
  split at h
  · cases h
    unfold firstRead
    rcases readFunc g.len g.handle with ⟨ret, handle'⟩
    match ret with
    | none => rfl
    | some [] => rfl
    | some (b :: bs) => rfl
  · simp only at h
    split at h
    · cases h
      exact hmore g.moveToHead
    · cases h

/-- The length of the buffer behind a pass, as the growth test of the code decides it. -/
theorem turn_len (hbuf : r.Buffers consumed bs) (hdone : r.done = false)
    (hturn : r.turn fresh = .again r') :
    r'.len = if 4 ≤ bs.length ∧ handleWord r > i32 r.len then 2 * r.len else r.len := by
  have hkept := hbuf.kept
  obtain ⟨g, hfill, hrest⟩ := turn_again_iff.mp hturn
  have hlen := fillBuffer_len hrest
  unfold filling at hfill
  rw [if_neg (by rw [hdone]; exact Bool.false_ne_true), hkept] at hfill
  unfold handleWord
  split at hfill
  · next hshort =>
    cases hfill
    rw [if_neg (by omega)]
    exact hlen
  · next hfour =>
    simp only at hfill
    split at hfill
    · cases hfill
    · split at hfill
      · split at hfill
        · next hgrows =>
          rcases growBuffer_cases fresh hbuf with ⟨hnone, -⟩ | ⟨g₁, hgrow, -, hdouble, -⟩
          · rw [hfill] at hnone
            cases hnone
          · rw [hfill] at hgrow
            cases hgrow
            rw [if_pos ⟨by omega, hgrows⟩]
            omega
        · next hfits =>
          cases hfill
          rw [if_neg fun h => hfits h.2]
          exact hlen
      · cases hfill

/-- One pass for a document doubles a buffer that is too small for it. -/
theorem turn_doubles (hbuf : r.Buffers consumed bs) (hdone : r.done = false)
    (hfour : 4 ≤ bs.length) (hturn : r.turn fresh = .again r') :
    min (handleWord r) (2 * r.len : Nat) ≤ r'.len := by
  have hlen := turn_len hbuf hdone hturn
  have hle := i32_le r.len
  split at hlen <;> omega

/-- Behind the first read the only assertion that can fail is that of a buffer that has no
double. -/
theorem turn_crash (hbuf : r.Buffers consumed bs) (hdone : r.done = false)
    (hstarted : 0 < r.end ∨ r = .initial handle) (hcrash : r.turn fresh = .crash) :
    4 ≤ bs.length ∧ 5 ≤ handleWord r ∧ handleWord r > i32 bs.length ∧
      r.len = 9223372036854775808 := by
  have hkept := hbuf.kept
  rcases hstarted with hstarted | rfl
  · by_cases hmore : r.wantsMore
    · by_cases hfour : bs.length < 4
      · have hroom := hbuf.len_ge
        obtain ⟨r', hr, -⟩ := refill_cases hbuf hstarted (by omega)
        have hturn : r.turn fresh = r.refill := by
          rw [turn, hdone, if_neg (by decide), if_pos (by rw [hkept]; exact hfour)]
        rw [hcrash, hr] at hturn
        cases hturn
      · rcases turn_wantsMore fresh hbuf hstarted hmore with ⟨-, hmax⟩ | ⟨r', hr, -⟩
        · obtain ⟨hfive, hlong⟩ := hmore.2.resolve_left (by omega)
          rw [hkept] at hlong
          exact ⟨by omega, hfive, hlong, hmax⟩
        · rw [hcrash] at hr
          cases hr
    · rcases turn_stops fresh hbuf hdone hmore with ⟨hnone, -⟩ | ⟨b, r', hsome, -⟩
      · rw [hcrash] at hnone
        cases hnone
      · rw [hcrash] at hsome
        cases hsome
  · rw [turn_initial] at hcrash
    cases hcrash

/-- A size that has been doubled, unless it was enough, and is doubled again. -/
theorem min_doubled {need : Int} {len len' n : Nat} (hn : 0 < n)
    (h : min need (2 * len : Nat) ≤ len') :
    min need (n * (2 * len) : Nat) ≤ min need (n * len' : Nat) := by
  have hgrown := Nat.le_mul_of_pos_left len' hn
  rcases lt_or_ge (len' : Int) need with hshort | henough
  · have hdouble : 2 * len ≤ len' := by omega
    have hmul := Nat.mul_le_mul_left n hdouble
    generalize n * len' = size at *
    generalize n * (2 * len) = size' at *
    omega
  · generalize n * len' = size at *
    omega

/-- A pass for a document ends the stream, or the next pass is for the same document. -/
theorem turn_continues (hbuf : r.Buffers consumed bs) (hdone : r.done = false)
    (hstarted : 0 < r.end) (hfour : 4 ≤ bs.length) (hturn : r.turn fresh = .again r') :
    r'.done = true ∨
      ∃ bs', r'.Buffers consumed bs' ∧ r'.done = false ∧ 0 < r'.end ∧ 4 ≤ bs'.length ∧
        handleWord r' = handleWord r := by
  have hmore := wantsMore_of_again hbuf hdone hturn
  rcases turn_wantsMore fresh hbuf hstarted hmore with ⟨hcrash, -⟩ | ⟨r₁, hagain, -, hcases⟩
  · rw [hturn] at hcrash
    cases hcrash
  · rw [hturn] at hagain
    cases hagain
    rcases hcases with hended | ⟨chunk, hfilled⟩
    · exact Or.inl hended.done
    · have hsame : handleWord r' = handleWord r := by
        have hsplit := hbuf.content
        have hsplit' := hfilled.buffers.content
        rw [← List.take_append_drop 4 bs, holds_append] at hsplit
        rw [← List.take_append_drop 4 bs, List.append_assoc, holds_append] at hsplit'
        have hlength : (bs.take 4).length = 4 := by rw [List.length_take]; omega
        unfold handleWord
        rw [hsplit.1.le_eq_leNat hlength, hsplit'.1.le_eq_leNat hlength]
      have horder := hfilled.buffers.order
      rw [List.length_append] at horder
      exact Or.inr ⟨bs ++ chunk, hfilled.buffers, hfilled.done.trans hdone, by omega,
        by rw [List.length_append]; omega, hsame⟩

/-- The passes for one document double the buffer until it has the size needed. -/
theorem turns_double (n : Nat) (hbuf : r.Buffers consumed bs) (hdone : r.done = false)
    (hstarted : 0 < r.end) (hfour : 4 ≤ bs.length) (hturns : turns fresh n r = .again r') :
    min (handleWord r) (2 ^ n * r.len : Nat) ≤ r'.len := by
  induction n generalizing r bs with
  | zero =>
    cases hturns
    rw [Nat.pow_zero, Nat.one_mul]
    exact Int.min_le_right _ _
  | succ n ih =>
    cases hturn : r.turn fresh with
    | crash =>
      rw [turns, hturn] at hturns
      cases hturns
    | done b eof s =>
      rw [turns_done n hturn] at hturns
      cases hturns
    | again s =>
      rw [turns_again n hturn] at hturns
      have hone := turn_doubles hbuf hdone hfour hturn
      have hpow : 2 ^ (n + 1) * r.len = 2 ^ n * (2 * r.len) := by rw [Nat.pow_succ, Nat.mul_assoc]
      rw [hpow]
      rcases turn_continues hbuf hdone hstarted hfour hturn with
        hended | ⟨bs', hbuf', hdone', hstarted', hfour', hsame⟩
      · cases n with
        | zero =>
          cases hturns
          rw [Nat.pow_zero, Nat.one_mul]
          exact hone
        | succ n =>
          rw [turns_done n (turn_done fresh hended)] at hturns
          cases hturns
      · have hrest := ih hbuf' hdone' hstarted' hfour' hturns
        rw [hsame] at hrest
        exact Int.le_trans (min_doubled (Nat.pow_pos (by decide)) hone) hrest

/-- The octets in the buffer survive their cast, and where they are not all of the document
its length does. -/
def HandleFits (r : BsonReaderHandle) : Prop :=
  r.offset + 4 ≤ r.end → 5 ≤ handleWord r →
    CastHolds (handleWord r) (r.end - r.offset) ∧
      (handleWord r > (r.end : Int) - r.offset → CastHolds (handleWord r) r.len)

theorem turn_some_iff {b : BsonRef} (hdone : r.done = false) :
    (∃ eof r', r.turn fresh = .done (some b) eof r') ↔
      4 ≤ u64sub r.end r.offset ∧ 5 ≤ handleWord r ∧
        handleWord r ≤ i32 (u64sub r.end r.offset) ∧
        bsonInitStatic (r.data.shift r.offset) (ofInt32 (handleWord r)) = some b := by
  unfold handleWord
  constructor
  · rintro ⟨eof, r', hturn⟩
    rcases turn_done_cases hturn with ⟨hnone, -⟩ | ⟨-, hfour, hfive, hwhole, -, d, hsome, hinit⟩
    · cases hnone
    · cases hsome
      exact ⟨hfour, hfive, hwhole, hinit⟩
  · rintro ⟨hfour, hfive, hwhole, hinit⟩
    have hmore : ¬ r.wantsMore := by
      rintro ⟨-, hlt | ⟨-, hlt⟩⟩
      · omega
      · omega
    rw [turn_stops_eq fresh hdone hmore, if_neg (by omega), hinit]
    exact ⟨_, _, rfl⟩

/-- What the buffer of a reader that has not stopped holds. -/
theorem reached_buffers (hreached : Reached fresh handle docs r) (hdone : r.done = false) :
    ∃ bs, r.Buffers docs.flatten.length bs ∧ (0 < r.end ∨ bs = [] ∧ r = .initial handle) := by
  cases Holding.of_reached hreached with
  | initial none new =>
    subst none new
    exact ⟨[], initial_buffers handle, Or.inr ⟨rfl, rfl⟩⟩
  | running bs done started buffers stream framed => exact ⟨bs, buffers, Or.inl started⟩
  | stopped bs done buffers stream =>
    rw [hdone] at done
    cases done

/-- Where the casts hold a pass that goes on has doubled the buffer for a longer document. -/
theorem turn_passedLen (hbuf : r.Buffers consumed bs) (hdone : r.done = false)
    (hfits : HandleFits r) (hturn : r.turn fresh = .again r') : r'.len = passedLen r := by
  have hkept := hbuf.kept
  have horder := hbuf.order
  have hinside := hbuf.inside
  have hlen := turn_len hbuf hdone hturn
  have hword : handleWord r < 2147483648 := (i32_bounds _).2
  unfold passedLen
  by_cases hfour : 4 ≤ bs.length
  · have hmore := (wantsMore_of_again hbuf hdone hturn).2.resolve_left (by omega)
    obtain ⟨hfive, hlong⟩ := hmore
    have hlength : r.end - r.offset = bs.length := by omega
    obtain ⟨havail, hcast⟩ := hfits (by omega) hfive
    rw [hkept] at hlong
    rw [hlength] at havail
    have hshort : handleWord r > (bs.length : Int) :=
      ((cast_test_iff bs.length hword).mpr havail).mp hlong
    have hgrows := (cast_test_iff r.len hword).mpr (hcast (by omega))
    by_cases hgrow : handleWord r > i32 r.len
    · rw [if_pos ⟨hfour, hgrow⟩] at hlen
      rw [if_pos ⟨by omega, hgrows.mp hgrow⟩]
      exact hlen
    · rw [if_neg fun h => hgrow h.2] at hlen
      rw [if_neg fun h => hgrow (hgrows.mpr h.2)]
      exact hlen
  · rw [if_neg fun h => hfour h.1] at hlen
    rw [if_neg fun h => hfour (by omega)]
    exact hlen

/-- Where the casts hold no assertion fails. -/
theorem turn_ne_crash (hbuf : r.Buffers consumed bs) (hdone : r.done = false)
    (hstarted : 0 < r.end ∨ r = .initial handle) (hfits : HandleFits r) :
    r.turn fresh ≠ .crash := by
  intro hcrash
  have horder := hbuf.order
  obtain ⟨hfour, hfive, hlong, hmax⟩ := turn_crash hbuf hdone hstarted hcrash
  have hword : handleWord r < 2147483648 := (i32_bounds _).2
  have hlength : r.end - r.offset = bs.length := by omega
  obtain ⟨havail, hcast⟩ := hfits (by omega) hfive
  rw [hlength] at havail
  have hshort : handleWord r > (bs.length : Int) :=
    ((cast_test_iff bs.length hword).mpr havail).mp hlong
  -- The cast of `2 ^ 63` is zero, and the length word is not.
  have hzero : i32 9223372036854775808 = 0 := by decide
  have hholds := hcast (by omega)
  rw [hmax] at hholds
  rcases hholds with hsmall | hle
  · omega
  · omega

theorem handle_tests_iff (hreached : Reached fresh handle docs r) (hdone : r.done = false) :
    HandleTests fresh r ↔ HandleFits r := by
  obtain ⟨bs, hbuf, hstarted⟩ := reached_buffers hreached hdone
  have hkept := hbuf.kept
  have horder := hbuf.order
  have hinside := hbuf.inside
  have hlength : r.end - r.offset = bs.length := by omega
  have hcast : ((bs.length : Nat) : Int) = (r.end : Int) - r.offset := by omega
  have hword : handleWord r < 2147483648 := (i32_bounds _).2
  have htest := cast_test_iff bs.length hword
  have hgrows := cast_test_iff r.len hword
  rw [hcast] at htest
  constructor
  · intro h hfour hfive
    rw [hlength]
    refine ⟨htest.mp (by rw [← hkept]; exact h.whole hfour hfive), fun hlong => ?_⟩
    exact hgrows.mp (h.grows hfour hlong)
  · intro hfits
    have hcasts := hfits
    unfold HandleFits at hcasts
    rw [hlength] at hcasts
    refine
      { header := by rw [hkept]; omega
        whole := fun hfour hfive => ?_
        grows := fun hfour hlong => hgrows.mpr ((hcasts hfour (by omega)).2 hlong)
        returns := turn_ne_crash hbuf hdone (hstarted.imp_right And.right) hfits
        passes := fun r' hturn => turn_passedLen hbuf hdone hfits hturn
        yields := fun b => ?_
        doubles := fun hfour n r' hturns => ?_ }
    · rw [hkept]
      exact htest.mpr (hcasts hfour hfive).1
    · rw [turn_some_iff hdone, hkept]
      have hle := i32_le bs.length
      constructor
      · rintro ⟨hfour, hfive, hwhole, hinit⟩
        exact ⟨hfive, by omega, hinit⟩
      · rintro ⟨hfive, hwhole, hinit⟩
        have hsame := htest.mpr (hcasts (by omega) hfive).1
        refine ⟨by omega, hfive, ?_, hinit⟩
        by_contra hlong
        have hover := hsame.mp (by omega)
        omega
    · have hrunning : 0 < r.end := by
        rcases hstarted with hstarted | ⟨rfl, -⟩
        · exact hstarted
        · rw [List.length_nil] at hlength
          omega
      exact turns_double n hbuf hdone hrunning (by omega) hturns

/-- The casts hold in front of each of the first `n` passes. -/
def PassesFit (fresh : Nat → Mem) (n : Nat) (r : BsonReaderHandle) : Prop :=
  ∀ m < n, ∀ s, turns fresh m r = .again s → s.done = false → HandleFits s

/-- A pass that returns neither crashes nor goes on. -/
theorem bounded_of_done {P : BsonReaderHandle → Prop} {t : Turn} {b : Option BsonRef} {eof : Bool}
    {s : BsonReaderHandle} (h : t = .done b eof s) : t ≠ .crash ∧ ∀ r', t = .again r' → P r' := by
  rw [h]
  constructor
  · intro hcrash
    cases hcrash
  · intro r' hagain
    cases hagain

theorem bounded_of_again {P : BsonReaderHandle → Prop} {t : Turn} {s : BsonReaderHandle}
    (h : t = .again s) (hs : P s) : t ≠ .crash ∧ ∀ r', t = .again r' → P r' := by
  rw [h]
  constructor
  · intro hcrash
    cases hcrash
  · intro r' hagain
    cases hagain
    exact hs

/-- The passes for one document return, and the buffer ends below twice the document. -/
theorem turns_bounded (n : Nat) (hbuf : r.Buffers consumed bs) (hdone : r.done = false)
    (hstarted : 0 < r.end) (hfour : 4 ≤ bs.length) (hfits : PassesFit fresh n r) :
    turns fresh n r ≠ .crash ∧ ∀ r', turns fresh n r = .again r' →
      r'.len = r.len ∨ (r'.len : Int) < 2 * handleWord r := by
  induction n generalizing r bs with
  | zero => exact bounded_of_again rfl (Or.inl rfl)
  | succ n ih =>
    have hnow := hfits 0 (by omega) r rfl hdone
    cases hturn : r.turn fresh with
    | crash =>
      have hstart : 0 < r.end ∨ r = .initial [] := Or.inl hstarted
      exact absurd hturn (turn_ne_crash hbuf hdone hstart hnow)
    | done b eof s => exact bounded_of_done (turns_done n hturn)
    | again s =>
      have hone := turn_passedLen hbuf hdone hnow hturn
      have hstep : s.len = r.len ∨ (s.len : Int) < 2 * handleWord r := by
        unfold passedLen at hone
        split at hone <;> omega
      rw [turns_again n hturn]
      rcases turn_continues hbuf hdone hstarted hfour hturn with
        hended | ⟨bs', hbuf', hdone', hstarted', hfour', hsame⟩
      · cases n with
        | zero => exact bounded_of_again rfl hstep
        | succ n => exact bounded_of_done (turns_done n (turn_done fresh hended))
      · have hlater : PassesFit fresh n s := by
          intro m hm s' hs' hdone''
          refine hfits (m + 1) (by omega) s' ?_ hdone''
          rw [turns_again m hturn]
          exact hs'
        obtain ⟨hne, hrest⟩ := ih hbuf' hdone' hstarted' hfour' hlater
        rw [hsame] at hrest
        refine ⟨hne, fun r' hr' => ?_⟩
        have := hrest r' hr'
        omega

end Handle

/-- The size tests agree with those over unbounded integers exactly where no amount of
octets is changed by its cast to `int32_t` so that the length word exceeds it, and, in
memory, where the offset behind the length word fits `size_t`. -/
theorem reader_sizes_iff (d : BsonReaderData) (hinside : d.offset ≤ d.length)
    (hsize : d.length < 18446744073709551616) (fresh : Nat → Mem) (handle : List ReadResult)
    (docs : List Bytes) (r : BsonReaderHandle) (hreached : Reached fresh handle docs r)
    (hdone : r.done = false) :
    (DataTests d ↔ DataFits d) ∧ (HandleTests fresh r ↔ HandleFits r) ∧
      ∀ n, r.offset + 4 ≤ r.end → PassesFit fresh n r →
        turns fresh n r ≠ .crash ∧ ∀ r', turns fresh n r = .again r' →
          r'.len = r.len ∨ (r'.len : Int) < 2 * handleWord r := by
  refine ⟨data_tests_iff hinside hsize, handle_tests_iff hreached hdone, ?_⟩
  intro n hfour hfits
  obtain ⟨bs, hbuf, hstarted⟩ := reached_buffers hreached hdone
  have hkept := hbuf.kept
  have horder := hbuf.order
  have hrunning : 0 < r.end := by omega
  exact turns_bounded n hbuf hdone hrunning (by omega) hfits

/-- `{}` at the head of 2 GiB. -/
def emptyInTwoGiB : BsonReaderData :=
  { data := Mem.ofBytes [5, 0, 0, 0, 0], length := 2147483648, offset := 0 }

/-- The five octets of `{}` are there, but the cast of `2 ^ 31` is negative. -/
theorem emptyInTwoGiB_rejected :
    ¬ ∀ r : BsonReaderData, r.offset ≤ r.length → r.length < 18446744073709551616 →
      DataTests r := by
  intro h
  have hwhole := (h emptyInTwoGiB (by decide) (by decide)).whole (by decide) (by decide)
  exact absurd (hwhole.mp (by decide)) (by decide)

/-- Six octets of a document of 2000, in two reads. -/
def shortReads : List ReadResult := [.octets [208, 7, 0], .octets [0, 2, 97]]

/-- The reader behind a pass that goes on. -/
def passed (r : BsonReaderHandle) : BsonReaderHandle :=
  match r.turn fun _ _ => 0 with
  | .again r' => r'
  | _ => r

/-- The reader behind both reads, about to double its buffer. -/
def shortReader : BsonReaderHandle := passed (passed (.initial shortReads))

theorem shortReader_reached : Reached (fun _ _ => 0) shortReads [] shortReader := by
  have hfirst : (initial shortReads).turn (fun _ _ => 0) = .again (passed (.initial shortReads)) :=
    rfl
  have hsecond : (passed (.initial shortReads)).turn (fun _ _ => 0) = .again shortReader := rfl
  exact .again (.again .initial hfirst) hsecond

/-- In the 2 GiB the condition fails; behind the short reads it holds, and the next pass doubles
the buffer. -/
theorem reader_sizes_iff_twoGiB :
    (DataTests emptyInTwoGiB ↔ DataFits emptyInTwoGiB) ∧
      (HandleTests (fun _ _ => 0) shortReader ↔ HandleFits shortReader) ∧
      ∀ n, shortReader.offset + 4 ≤ shortReader.end → PassesFit (fun _ _ => 0) n shortReader →
        turns (fun _ _ => 0) n shortReader ≠ .crash ∧
          ∀ r', turns (fun _ _ => 0) n shortReader = .again r' →
            r'.len = shortReader.len ∨ (r'.len : Int) < 2 * handleWord shortReader :=
  reader_sizes_iff emptyInTwoGiB (by decide) (by decide) (fun _ _ => 0) shortReads []
    shortReader shortReader_reached rfl

end LibBson.Guarantees
