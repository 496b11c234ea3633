import LibBson.Source.ReaderLaws

/-!
# What one call of `bson_reader_read` returns

`turns_document`, `turns_end`: on a stream of documents below 1 GiB a handle
reader returns the next one however it arrives, and its end.
`turns_answer`: on any stream, what a call that returns has done to it, and when
it has run dry with octets of a document in the buffer.
Source: bson-reader.c:395-503, 563-624.
-/

set_option autoImplicit false

namespace LibBson.Source
open LibBson.Library LibBson.Spec

section Frames

variable {m : Mem} {o : Nat} {body : Bytes}

theorem frame_le (h : Holds m o (frame body)) (hsize : body.length + 5 < 4294967296) :
    m.le o 4 = body.length + 5 := by
  rw [frame, holds_append] at h
  exact h.1.le_eq_of_lt hsize

/-- The length word of a document whose first octets stand in memory. -/
theorem frame_prefix_le {bs rest rest' : Bytes} (h : Holds m o bs) (hfour : 4 ≤ bs.length)
    (heq : bs ++ rest = frame body ++ rest') (hsize : body.length + 5 < 4294967296) :
    m.le o 4 = body.length + 5 := by
  have hword : bs.take 4 = leBytes 4 (body.length + 5) := by
    have htake := congrArg (List.take 4) heq
    rw [List.take_append_of_le_length hfour, frame, List.append_assoc,
      List.take_append_of_le_length (by simp), List.take_of_length_le (l := leBytes 4 _) (by simp)]
      at htake
    exact htake
  rw [← List.take_append_drop 4 bs, hword, holds_append] at h
  exact h.1.le_eq_of_lt hsize

end Frames

namespace BsonReaderHandle

theorem turns_again {fresh : Nat → Mem} {r r' : BsonReaderHandle} (n : Nat)
    (h : r.turn fresh = .again r') : turns fresh (n + 1) r = turns fresh n r' := by
  rw [turns, h]

theorem turns_done {fresh : Nat → Mem} {r r' : BsonReaderHandle} {b : Option BsonRef} {eof : Bool}
    (n : Nat) (h : r.turn fresh = .done b eof r') : turns fresh (n + 1) r = .done b eof r' := by
  rw [turns, h]

/-- Behind the loop: the end of the stream is reported unless the last read failed. -/
theorem turn_done (fresh : Nat → Mem) {r : BsonReaderHandle} (h : r.done = true) :
    r.turn fresh = .done none (!r.failed) r := by
  rw [turn, if_pos h, h, Bool.true_and]

/-- A reader in the middle of a stream without errors, whose buffer has not
outgrown 1 GiB, with `rest` still to be handed out. -/
structure Reading (r : BsonReaderHandle) (consumed : Nat) (rest : Bytes) : Prop where
  running : r.done = false
  started : 0 < r.end
  small : r.len ≤ 1073741824
  clean : endsInError r.handle = false
  stream : ∃ bs, Buffers r consumed bs ∧ bs ++ delivered r.handle = rest

/-- A reader that has handed out all `consumed` octets of its stream. -/
structure Finished (r : BsonReaderHandle) (consumed : Nat) : Prop where
  done : r.done = true
  failed : r.failed = false
  small : r.len ≤ 1073741824
  buffers : Buffers r consumed []

/-- A buffer below 1 GiB that is doubled does not outgrow it. -/
theorem doubled_le {len len' : Nat} (h : ∃ j, 10 ≤ j ∧ j ≤ 63 ∧ len = 2 ^ j)
    (hdouble : len' = len * 2) (hlt : len < 1073741824) : len' ≤ 1073741824 := by
  obtain ⟨j, -, -, rfl⟩ := h
  have hexp : j < 30 := (Nat.pow_lt_pow_iff_right (by decide : 1 < 2)).mp hlt
  have hle : 2 ^ (j + 1) ≤ 2 ^ 30 := Nat.pow_le_pow_right (by decide) (by omega)
  rw [hdouble, ← Nat.pow_succ]
  exact hle

/-- A turn in the middle of a document below 1 GiB. -/
theorem turn_document (fresh : Nat → Mem) {r : BsonReaderHandle} {consumed : Nat}
    {body rest : Bytes} (h : Reading r consumed (frame body ++ rest))
    (hsize : body.length + 5 < 1073741824) :
    (∃ r', r.turn fresh = .again r' ∧ pending r'.handle < pending r.handle ∧
      Reading r' consumed (frame body ++ rest)) ∨
    (∃ b r', r.turn fresh = .done (some b) false r' ∧ b.octets = frame body ∧
      Reading r' (consumed + (body.length + 5)) rest) := by
  obtain ⟨bs, hb, hstream⟩ := h.stream
  have hkept := hb.kept
  have horder := hb.order
  have hinside := hb.inside
  have hsmall := h.small
  have hlen : (frame body).length = body.length + 5 := frame_length body
  by_cases hmore : r.wantsMore
  · refine Or.inl ?_
    have hshort : ¬ body.length + 5 ≤ bs.length := by
      intro hwhole
      rcases hmore.2 with hlt | ⟨-, hlt⟩
      · omega
      · rw [frame_prefix_le hb.content (by omega) hstream (by omega), hkept,
          i32_of_lt (by omega), i32_of_lt (by omega)] at hlt
        omega
    have hdel : delivered r.handle ≠ [] := by
      intro hnil
      have hall := congrArg List.length hstream
      rw [hnil, List.append_nil, List.length_append, hlen] at hall
      omega
    rcases turn_wantsMore fresh hb h.started hmore with ⟨-, hmax⟩ | ⟨r', hr, hgrown, hcases⟩
    · omega
    · rcases hcases with hended | ⟨chunk, hfilled⟩
      · exact absurd hended.none hdel
      · have hsmall' : r'.len ≤ 1073741824 := by
          rcases hgrown with hsame | ⟨hdouble, hfour, hlong⟩
          · omega
          · rw [hkept] at hfour
            rw [frame_prefix_le hb.content hfour hstream (by omega), i32_of_lt (by omega),
              i32_of_lt (by omega)] at hlong
            exact doubled_le hb.size hdouble (by omega)
        have hchunk := List.length_pos_of_ne_nil hfilled.more
        have horder' := hfilled.buffers.order
        rw [List.length_append] at horder'
        refine ⟨r', hr, hfilled.pending, hfilled.done.trans h.running, by omega, hsmall',
          hfilled.ends.trans h.clean, bs ++ chunk, hfilled.buffers, ?_⟩
        rw [List.append_assoc, ← hfilled.delivered, hstream]
  · refine Or.inr ?_
    have hfour : 4 ≤ bs.length := by
      by_contra hlt
      exact hmore ⟨h.running, Or.inl (by omega)⟩
    have hle := frame_prefix_le hb.content hfour hstream (by omega)
    have hwhole : body.length + 5 ≤ bs.length := by
      by_contra hlt
      refine hmore ⟨h.running, Or.inr ?_⟩
      rw [hle, hkept, i32_of_lt (by omega), i32_of_lt (by omega)]
      omega
    have htake : bs.take (body.length + 5) = frame body := by
      have heq := congrArg (List.take (body.length + 5)) hstream
      rwa [List.take_append_of_le_length hwhole, List.take_left' hlen] at heq
    have hdrop : bs.drop (body.length + 5) ++ delivered r.handle = rest := by
      have heq := congrArg (List.drop (body.length + 5)) hstream
      rwa [List.drop_append_of_le_length hwhole, List.drop_left' hlen] at heq
    have hframe : Holds (r.data.shift r.offset) 0 (frame body) := by
      have hsplit := hb.content
      rw [← List.take_append_drop (body.length + 5) bs, htake, holds_append] at hsplit
      rw [holds_shift]
      exact hsplit.1
    have hturn := turn_stops_eq fresh h.running hmore
    have hword : ofInt32 (i32 (r.data.le r.offset 4)) = body.length + 5 := by
      rw [hle, i32_of_lt (by omega), ofInt32_natCast, u32_of_lt (by omega)]
    rw [hword, hle, i32_of_lt (by omega), if_neg (by omega),
      bsonInitStatic_frame hframe (by omega)] at hturn
    rcases turn_stops fresh hb h.running hmore with
      ⟨hnone, -⟩ | ⟨b, r', hr, hdone, hend, hhandle, -, hlen', hoctets, -, hbuf⟩
    · rw [hnone] at hturn
      cases hturn
    · have hblen : b.len = body.length + 5 := by
        rw [hr] at hturn
        injection hturn with hsome
        injection hsome with hb'
        rw [hb']
      rw [hblen] at hoctets hbuf
      refine ⟨b, r', hr, hoctets.trans htake, hdone, by rw [hend]; exact h.started,
        by rw [hlen']; exact hsmall, by rw [hhandle]; exact h.clean, _, hbuf, ?_⟩
      rw [hhandle, hdrop]

/-- However its octets arrive, the next document is returned. -/
theorem turns_document (fresh : Nat → Mem) {body rest : Bytes}
    (hsize : body.length + 5 < 1073741824) (fuel : Nat) :
    ∀ (r : BsonReaderHandle) (consumed : Nat), Reading r consumed (frame body ++ rest) →
      pending r.handle < fuel →
      ∃ b r', turns fresh fuel r = .done (some b) false r' ∧ b.octets = frame body ∧
        Reading r' (consumed + (body.length + 5)) rest := by
  induction fuel with
  | zero =>
    intro r consumed _ hfuel
    exact absurd hfuel (Nat.not_lt_zero _)
  | succ fuel ih =>
    intro r consumed h hfuel
    rcases turn_document fresh h hsize with ⟨r', hr, hlt, hreading⟩ | ⟨b, r', hr, hoctets, hreading⟩
    · rw [turns_again fuel hr]
      exact ih r' consumed hreading (by omega)
    · exact ⟨b, r', turns_done fuel hr, hoctets, hreading⟩

/-- With nothing left the end of the stream is found. -/
theorem turns_end (fresh : Nat → Mem) {r : BsonReaderHandle} {consumed : Nat}
    (h : Reading r consumed []) (fuel : Nat) :
    ∃ r', turns fresh (fuel + 2) r = .done none true r' ∧ Finished r' consumed := by
  obtain ⟨bs, hb, hstream⟩ := h.stream
  obtain ⟨hbs, hdel⟩ := List.append_eq_nil_iff.mp hstream
  subst hbs
  have hkept := hb.kept
  have hsmall := h.small
  have hmore : r.wantsMore := ⟨h.running, Or.inl (by rw [hkept]; decide)⟩
  rcases turn_wantsMore fresh hb h.started hmore with ⟨-, hmax⟩ | ⟨r', hr, hgrown, hcases⟩
  · omega
  · rcases hcases with hended | ⟨chunk, hfilled⟩
    · have hfailed : r'.failed = false := hended.failed.trans h.clean
      have hsame : r'.len = r.len := by
        rcases hgrown with hsame | ⟨-, hfour, -⟩
        · exact hsame
        · rw [hkept] at hfour
          exact absurd hfour (by decide)
      refine ⟨r', ?_, hended.done, hfailed, by rw [hsame]; exact hsmall, hended.buffers⟩
      rw [turns_again (fuel + 1) hr, turns_done fuel (turn_done fresh hended.done), hfailed]
      rfl
    · have hnil := hfilled.delivered
      rw [hdel] at hnil
      exact absurd (List.append_eq_nil_iff.mp hnil.symm).1 hfilled.more

theorem Finished.read {fresh : Nat → Mem} {r : BsonReaderHandle} {consumed : Nat}
    (h : Finished r consumed) : r.read fresh = .done none true r := by
  rw [BsonReaderHandle.read, turns_done _ (turn_done fresh h.done), h.failed]
  rfl

/-- The offset is what has been handed out. -/
theorem Buffers.tell {r : BsonReaderHandle} {consumed : Nat} {bs : Bytes}
    (h : Buffers r consumed bs) (hsmall : r.len ≤ 4611686018427387904)
    (hsize : consumed + bs.length < 9223372036854775808) : r.tell = consumed := by
  have horder := h.order
  have hinside := h.inside
  rw [BsonReaderHandle.tell, h.count]
  unfold i64 u64
  omega

/-- Somewhere in the call the buffer is refilled, with octets of a document in it,
from a stream that is at its end. -/
def Starves (fresh : Nat → Mem) (r : BsonReaderHandle) : Prop :=
  ∃ n s, turns fresh n r = .again s ∧ s.wantsMore ∧ s.offset < s.end ∧
    delivered s.handle = [] ∧ endsInError s.handle = false

theorem starves_again {fresh : Nat → Mem} {r r' : BsonReaderHandle}
    (h : r.turn fresh = .again r') :
    Starves fresh r ↔ (r.wantsMore ∧ r.offset < r.end ∧ delivered r.handle = [] ∧
      endsInError r.handle = false) ∨ Starves fresh r' := by
  constructor
  · rintro ⟨n, s, hs, hrest⟩
    cases n with
    | zero =>
      injection hs with hs
      subst hs
      exact Or.inl hrest
    | succ n =>
      rw [turns_again n h] at hs
      exact Or.inr ⟨n, s, hs, hrest⟩
  · rintro (hrest | ⟨n, s, hs, hrest⟩)
    · exact ⟨0, r, rfl, hrest⟩
    · exact ⟨n + 1, s, by rw [turns_again n h, hs], hrest⟩

theorem not_starves_of_stop {fresh : Nat → Mem} {r r' : BsonReaderHandle} {b : Option BsonRef}
    {eof : Bool} (h : r.turn fresh = .done b eof r') (hmore : ¬ r.wantsMore) :
    ¬ Starves fresh r := by
  rintro ⟨n, s, hs, hwants, -⟩
  cases n with
  | zero =>
    injection hs with hs
    subst hs
    exact hmore hwants
  | succ n =>
    rw [turns_done n h] at hs
    cases hs

/-- What a call has done to the buffer and the stream when it returns. -/
inductive Answer (fresh : Nat → Mem) (r : BsonReaderHandle) (consumed : Nat) (bs : Bytes) :
    Option BsonRef → Bool → BsonReaderHandle → Prop
  | document (b : BsonRef) (r' : BsonReaderHandle) (bs' : Bytes) (running : r'.done = false)
      (started : 0 < r'.end) (buffers : Buffers r' (consumed + b.len) bs')
      (stream : bs ++ delivered r.handle = b.octets ++ (bs' ++ delivered r'.handle))
      (ends : endsInError r'.handle = endsInError r.handle) (fed : ¬ Starves fresh r)
      (failed : r'.failed = r.failed) :
      Answer fresh r consumed bs (some b) false r'
  | refused (r' : BsonReaderHandle) (bs' : Bytes) (running : r'.done = false)
      (started : 0 < r'.end) (buffers : Buffers r' consumed bs') (more : bs' ≠ [])
      (stream : bs ++ delivered r.handle = bs' ++ delivered r'.handle)
      (ends : endsInError r'.handle = endsInError r.handle) (fed : ¬ Starves fresh r)
      (failed : r'.failed = r.failed) :
      Answer fresh r consumed bs none false r'
  | ended (r' : BsonReaderHandle) (done : r'.done = true)
      (failed : r'.failed = endsInError r.handle)
      (buffers : Buffers r' consumed (bs ++ delivered r.handle))
      (starves : Starves fresh r ↔ bs ++ delivered r.handle ≠ [] ∧ endsInError r.handle = false) :
      Answer fresh r consumed bs none (!r'.failed) r'

/-- A call that answers after a refill has answered the call before it. -/
theorem Answer.of_filled {fresh : Nat → Mem} {r r₁ r' : BsonReaderHandle} {consumed : Nat}
    {bs chunk : Bytes} {b : Option BsonRef} {eof : Bool} (hf : Filled r r₁ consumed bs chunk)
    (hstarves : Starves fresh r ↔ Starves fresh r₁)
    (h : Answer fresh r₁ consumed (bs ++ chunk) b eof r') :
    Answer fresh r consumed bs b eof r' := by
  have hstream : bs ++ delivered r.handle = bs ++ chunk ++ delivered r₁.handle := by
    rw [hf.delivered, List.append_assoc]
  cases h with
  | document b r' bs' running started buffers stream ends fed failed =>
    exact .document b r' bs' running started buffers (hstream.trans stream) (ends.trans hf.ends)
      (fun h => fed (hstarves.mp h)) (failed.trans hf.failed)
  | refused r' bs' running started buffers more stream ends fed failed =>
    exact .refused r' bs' running started buffers more (hstream.trans stream) (ends.trans hf.ends)
      (fun h => fed (hstarves.mp h)) (failed.trans hf.failed)
  | ended r' done failed buffers starves =>
    refine .ended r' done (failed.trans hf.ends) (by rw [hstream]; exact buffers) ?_
    rw [hstarves, hstream, ← hf.ends]
    exact starves

theorem turns_answer (fresh : Nat → Mem) (fuel : Nat) :
    ∀ (r r' : BsonReaderHandle) (consumed : Nat) (bs : Bytes) (b : Option BsonRef) (eof : Bool),
      Buffers r consumed bs → r.done = false → 0 < r.end →
      turns fresh fuel r = .done b eof r' → Answer fresh r consumed bs b eof r' := by
  induction fuel with
  | zero =>
    intro r r' consumed bs b eof _ _ _ h
    cases h
  | succ fuel ih =>
    intro r r' consumed bs b eof hb hdone hstart h
    by_cases hmore : r.wantsMore
    · rcases turn_wantsMore fresh hb hstart hmore with ⟨hcrash, -⟩ | ⟨r₁, hr, -, hcases⟩
      · rw [turns, hcrash] at h
        cases h
      · rw [turns_again fuel hr] at h
        have hstep := starves_again hr
        rcases hcases with hended | ⟨chunk, hfilled⟩
        · have hnot : ¬ Starves fresh r₁ :=
            not_starves_of_stop (turn_done fresh hended.done)
              fun hw => Bool.false_ne_true (hw.1.symm.trans hended.done)
          have horder := hb.order
          have hleft : r.offset < r.end ↔ bs ≠ [] := by
            rw [← List.length_pos_iff]
            omega
          cases fuel with
          | zero => cases h
          | succ fuel =>
            rw [turns_done fuel (turn_done fresh hended.done)] at h
            injection h with hnone heof hr'
            subst hnone heof hr'
            refine .ended r₁ hended.done hended.failed ?_ ?_
            · rw [hended.none, List.append_nil]
              exact hended.buffers
            · rw [hstep, hended.none, List.append_nil]
              simp only [hmore, hleft, hnot, true_and, or_false]
        · have hstart₁ : 0 < r₁.end := by
            have hchunk := List.length_pos_of_ne_nil hfilled.more
            have horder := hfilled.buffers.order
            rw [List.length_append] at horder
            omega
          have hne : delivered r.handle ≠ [] := by
            rw [hfilled.delivered]
            exact fun hnil => hfilled.more (List.append_eq_nil_iff.mp hnil).1
          have hsame : Starves fresh r ↔ Starves fresh r₁ := by
            rw [hstep]
            exact ⟨fun h => h.resolve_left fun hl => hne hl.2.2.1, Or.inr⟩
          exact .of_filled hfilled hsame
            (ih r₁ r' consumed _ b eof hfilled.buffers (hfilled.done.trans hdone) hstart₁ h)
    · rcases turn_stops fresh hb hdone hmore with
        ⟨hnone, hne⟩ | ⟨d, r₁, hr, hdone₁, hend, hhandle, hfailed, -, hoctets, hle, hbuf⟩
      · rw [turns_done fuel hnone] at h
        injection h with hb' heof hr'
        subst hb' heof hr'
        exact .refused r bs hdone hstart hb hne rfl rfl (not_starves_of_stop hnone hmore) rfl
      · rw [turns_done fuel hr] at h
        injection h with hb' heof hr'
        subst hb' heof hr'
        refine .document d r₁ _ hdone₁ (by rw [hend]; exact hstart) hbuf ?_ (by rw [hhandle])
          (not_starves_of_stop hr hmore) hfailed
        rw [hhandle, hoctets, ← List.append_assoc, List.take_append_drop]

/-- What is left of a stream begins a document that is not all there. -/
def CutShort (rest : Bytes) : Prop :=
  rest ≠ [] ∧ (rest.length < 4 ∨ 5 ≤ i32 (leNat (rest.take 4)) ∧
    (rest.length : Int) < i32 (leNat (rest.take 4)))

/-- Below 1 GiB a call starves exactly when what is left of its stream is cut short
and no read fails. -/
theorem starves_iff_cutShort (fresh : Nat → Mem) {r r' : BsonReaderHandle} {consumed fuel : Nat}
    {bs : Bytes} {b : Option BsonRef} {eof : Bool} (hb : Buffers r consumed bs)
    (hdone : r.done = false) (hstart : 0 < r.end) (hsmall : r.len ≤ 1073741824)
    (hword : i32 (leNat ((bs ++ delivered r.handle).take 4)) < 1073741824)
    (h : turns fresh fuel r = .done b eof r') :
    Starves fresh r ↔ CutShort (bs ++ delivered r.handle) ∧ endsInError r.handle = false := by
  induction fuel generalizing r bs with
  | zero => cases h
  | succ fuel ih =>
    have hkept := hb.kept
    have horder := hb.order
    have hinside := hb.inside
    have havail : i32 (u64sub r.end r.offset) = bs.length := by
      rw [hkept, i32_of_lt (by omega)]
    -- the length word, once four octets are there
    have hle : 4 ≤ bs.length → r.data.le r.offset 4 = leNat ((bs ++ delivered r.handle).take 4) := by
      intro hfour
      have hcontent := hb.content
      rw [← List.take_append_drop 4 bs, holds_append] at hcontent
      rw [List.take_append_of_le_length hfour]
      exact hcontent.1.le_eq_leNat (by rw [List.length_take, Nat.min_eq_left hfour])
    by_cases hmore : r.wantsMore
    · rcases turn_wantsMore fresh hb hstart hmore with ⟨hcrash, -⟩ | ⟨r₁, hr, hgrown, hcases⟩
      · rw [turns, hcrash] at h
        cases h
      · rw [turns_again fuel hr] at h
        rcases hcases with hended | ⟨chunk, hfilled⟩
        · have hnot : ¬ Starves fresh r₁ :=
            not_starves_of_stop (turn_done fresh hended.done)
              fun hw => Bool.false_ne_true (hw.1.symm.trans hended.done)
          have hcut : CutShort bs ↔ r.offset < r.end := by
            have hne : bs ≠ [] ↔ r.offset < r.end := by
              rw [← List.length_pos_iff]
              omega
            rw [CutShort, hne]
            refine ⟨And.left, fun hleft => ⟨hleft, ?_⟩⟩
            by_cases hfour : bs.length < 4
            · exact Or.inl hfour
            · obtain ⟨hlow, hhigh⟩ := hmore.2.resolve_left (by rw [hkept]; exact hfour)
              rw [havail] at hhigh
              have hW := hle (by omega)
              rw [hended.none, List.append_nil] at hW
              rw [hW] at hlow hhigh
              exact Or.inr ⟨hlow, hhigh⟩
          rw [starves_again hr, hended.none, List.append_nil, hcut]
          simp only [hmore, hnot, true_and, or_false]
        · have hchunk := List.length_pos_of_ne_nil hfilled.more
          have horder₁ := hfilled.buffers.order
          rw [List.length_append] at horder₁
          have hne : delivered r.handle ≠ [] := by
            rw [hfilled.delivered]
            exact fun hnil => hfilled.more (List.append_eq_nil_iff.mp hnil).1
          have hsame : Starves fresh r ↔ Starves fresh r₁ := by
            rw [starves_again hr]
            exact ⟨fun h => h.resolve_left fun hl => hne hl.2.2.1, Or.inr⟩
          have hstream : bs ++ delivered r.handle = bs ++ chunk ++ delivered r₁.handle := by
            rw [hfilled.delivered, List.append_assoc]
          have hsmall₁ : r₁.len ≤ 1073741824 := by
            rcases hgrown with heq | ⟨hdouble, hfour, hlong⟩
            · omega
            · rw [hkept] at hfour
              rw [hle hfour, i32_of_lt (by omega)] at hlong
              exact doubled_le hb.size hdouble (by omega)
          rw [hsame, hstream, ← hfilled.ends]
          exact ih hfilled.buffers (hfilled.done.trans hdone) (by omega) hsmall₁
            (by rw [← hstream]; exact hword) h
    · have hnot : ¬ Starves fresh r := by
        rcases turn_stops fresh hb hdone hmore with ⟨hr, -⟩ | ⟨d, r₁, hr, -⟩
        · exact not_starves_of_stop hr hmore
        · exact not_starves_of_stop hr hmore
      have hfour : 4 ≤ bs.length := by
        by_contra hlt
        exact hmore ⟨hdone, Or.inl (by omega)⟩
      refine ⟨fun hs => absurd hs hnot, ?_⟩
      rintro ⟨⟨-, hcut⟩, -⟩
      rw [List.length_append] at hcut
      rcases hcut with hlt | ⟨hlow, hhigh⟩
      · omega
      · refine absurd ⟨hdone, Or.inr ?_⟩ hmore
        rw [hle hfour, havail]
        omega

/-- A call returns: every refill takes something from the stream or ends it. -/
theorem read_returns (fresh : Nat → Mem) {r : BsonReaderHandle} {consumed : Nat} {bs : Bytes}
    (hb : Buffers r consumed bs) (hstart : r.done = true ∨ 0 < r.end) (s : BsonReaderHandle) :
    r.read fresh ≠ .again s := by
  have hrun : ∀ (fuel : Nat) (r : BsonReaderHandle) (bs : Bytes), Buffers r consumed bs →
      r.done = true ∨ 0 < r.end → (r.done = true ∨ pending r.handle + 1 < fuel) → 0 < fuel →
      turns fresh fuel r ≠ .again s := by
    intro fuel
    induction fuel with
    | zero =>
      intro r bs _ _ _ hpos
      exact absurd hpos (Nat.lt_irrefl 0)
    | succ fuel ih =>
      intro r bs hb hstart hfuel _
      by_cases hdone : r.done = true
      · rw [turns_done fuel (turn_done fresh hdone)]
        exact fun h => nomatch h
      · have hpend := hfuel.resolve_left hdone
        have hend := hstart.resolve_left hdone
        rw [Bool.not_eq_true] at hdone
        by_cases hmore : r.wantsMore
        · rcases turn_wantsMore fresh hb hend hmore with ⟨hcrash, -⟩ | ⟨r₁, hr, -, hcases⟩
          · rw [turns, hcrash]
            exact fun h => nomatch h
          · rw [turns_again fuel hr]
            rcases hcases with hended | ⟨chunk, hfilled⟩
            · exact ih r₁ _ hended.buffers (Or.inl hended.done) (Or.inl hended.done) (by omega)
            · have hless := hfilled.pending
              have hchunk := List.length_pos_of_ne_nil hfilled.more
              have horder := hfilled.buffers.order
              rw [List.length_append] at horder
              exact ih r₁ _ hfilled.buffers (Or.inr (by omega)) (Or.inr (by omega)) (by omega)
        · rcases turn_stops fresh hb hdone hmore with ⟨hnone, -⟩ | ⟨d, r₁, hr, -⟩
          · rw [turns_done fuel hnone]
            exact fun h => nomatch h
          · rw [turns_done fuel hr]
            exact fun h => nomatch h
  exact hrun _ r bs hb hstart (Or.inr (Nat.lt_succ_self _)) (Nat.succ_pos _)

/-- A new reader has taken the first octets of its stream, or there are none. The
first read leaves no trace of an error. -/
theorem new_cases (handle : List ReadResult) :
    ∃ r, bsonReaderNewFromHandle handle = some r ∧ r.len = 1024 ∧ r.failed = false ∧
      (r.done = true ∧ delivered handle = [] ∧ Buffers r 0 [] ∨
        r.done = false ∧ 0 < r.end ∧ endsInError r.handle = endsInError handle ∧
          ∃ bs, Buffers r 0 bs ∧ bs ++ delivered r.handle = delivered handle) := by
  have hcases := readFunc_cases 1024 handle (by decide)
  refine ⟨_, rfl, ?_⟩
  unfold firstRead
  rcases hread : readFunc 1024 handle with ⟨ret, handle'⟩
  rw [hread] at hcases
  rcases hcases with ⟨hret, hnil, -⟩ | ⟨hret, hnil, -⟩ | ⟨b, bs, hret, hle, hstream, hend, -⟩
  · simp only at hret
    subst hret
    exact ⟨rfl, rfl, Or.inl ⟨rfl, hnil, rfl, Nat.zero_le _, ⟨10, by decide, by decide, rfl⟩,
      holds_nil _ _, rfl⟩⟩
  · simp only at hret
    subst hret
    exact ⟨rfl, rfl, Or.inl ⟨rfl, hnil, rfl, Nat.zero_le _, ⟨10, by decide, by decide, rfl⟩,
      holds_nil _ _, rfl⟩⟩
  · simp only at hret
    subst hret
    exact ⟨rfl, rfl, Or.inr ⟨rfl, Nat.succ_pos _, hend, b :: bs,
      ⟨Nat.zero_add _, hle, ⟨10, by decide, by decide, rfl⟩,
        Mem.holds_write_self (fun _ => 0) 0 (b :: bs), rfl⟩, hstream.symm⟩⟩

end BsonReaderHandle

namespace BsonReaderData

/-- A reader of the octets `pre ++ rest` that has handed out `pre`. -/
structure At (r : BsonReaderData) (pre rest : Bytes) : Prop where
  data : Holds r.data 0 (pre ++ rest)
  length : r.length = (pre ++ rest).length
  offset : r.offset = pre.length

theorem at_new (data : Bytes) : At (bsonReaderNewFromData data) [] data :=
  ⟨holds_ofBytes data, rfl, rfl⟩

theorem At.holds {r : BsonReaderData} {pre rest : Bytes} (h : At r pre rest) :
    Holds r.data r.offset rest := by
  have hd := h.data
  rw [holds_append, Nat.zero_add, ← h.offset] at hd
  exact hd.2

/-- The next document of a buffer below 2 GiB is returned. -/
theorem read_document {r : BsonReaderData} {pre body rest : Bytes}
    (h : At r pre (frame body ++ rest)) (hsize : r.length < 2147483648) :
    ∃ b r', r.read = (some b, false, r') ∧ b.octets = frame body ∧ r'.length = r.length ∧
      At r' (pre ++ frame body) rest := by
  have hdoc := h.holds
  rw [holds_append] at hdoc
  have hlength := h.length
  have hoffset := h.offset
  simp only [List.length_append, frame_length] at hlength
  have hle := frame_le hdoc.1 (by omega)
  have hroom : u64sub r.length r.offset = r.length - r.offset := u64sub_of_le (by omega) (by omega)
  have hframe : Holds (r.data.shift r.offset) 0 (frame body) := by
    rw [holds_shift]
    exact hdoc.1
  have hfour : u64 (r.offset + 4) < r.length := by
    unfold u64
    omega
  have hblen : i32 (r.data.le r.offset 4) = ((body.length + 5 : Nat) : Int) := by
    rw [hle, i32_of_lt (by omega)]
  have hword : ofInt32 ((body.length + 5 : Nat) : Int) = body.length + 5 := by
    rw [ofInt32_natCast, u32_of_lt (by omega)]
  have hoff : u64 (r.offset + (body.length + 5)) = r.offset + (body.length + 5) :=
    Nat.mod_eq_of_lt (by omega)
  refine ⟨{ data := r.data.shift r.offset, len := body.length + 5 },
    { r with offset := r.offset + (body.length + 5) }, ?_, ?_, rfl, ?_, ?_, ?_⟩
  · rw [read, if_pos hfour]
    simp only [hblen, hword, hroom, bsonInitStatic_frame hframe (by omega), hoff]
    rw [i32_of_lt (by omega), if_neg (by omega), if_neg (by omega)]
  · exact hframe.slice_of_length (frame_length body)
  · simpa using h.data
  · simp only [List.length_append, frame_length]
    omega
  · simp only [List.length_append, frame_length, hoffset]

theorem read_end {r : BsonReaderData} {pre : Bytes} (h : At r pre [])
    (hsize : r.length < 2147483648) : r.read = (none, true, r) := by
  have hlength := h.length
  have hoffset := h.offset
  rw [List.append_nil] at hlength
  have hshort : ¬ u64 (r.offset + 4) < r.length := by
    unfold u64
    omega
  rw [read, if_neg hshort, hoffset, hlength]
  simp

/-- What one call has done to the buffer. -/
theorem read_cases {r r' : BsonReaderData} {pre rest : Bytes} {b : Option BsonRef} {eof : Bool}
    (h : At r pre rest) (hsize : r.length < 9223372036854775808) (hr : r.read = (b, eof, r')) :
    b = none ∧ (eof = true ↔ rest = []) ∧ r' = r ∨
      ∃ d rest', b = some d ∧ r'.length = r.length ∧ rest = d.octets ++ rest' ∧
        At r' (pre ++ d.octets) rest' := by
  have hlength := h.length
  have hoffset := h.offset
  rw [List.length_append] at hlength
  have hroom : u64sub r.length r.offset = rest.length := by
    rw [u64sub_of_le (by omega) (by omega)]
    omega
  have hfour : u64 (r.offset + 4) = r.offset + 4 := Nat.mod_eq_of_lt (by omega)
  rw [read, hfour, hroom] at hr
  dsimp only at hr
  split at hr
  · next hlt =>
    have hne : ¬ rest = [] := by
      rintro rfl
      rw [List.length_nil] at hlength
      omega
    have hstop : (none, false, r) = (b, eof, r') →
        b = none ∧ (eof = true ↔ rest = []) ∧ r' = r := by
      intro heq
      injection heq with hb hrest
      injection hrest with heof hr'
      subst hb heof hr'
      exact ⟨rfl, ⟨fun h => (nomatch h), fun h => absurd h hne⟩, rfl⟩
    split at hr
    · exact Or.inl (hstop hr)
    · split at hr
      · exact Or.inl (hstop hr)
      · next hlow hhigh =>
        have hi := i32_le rest.length
        have hn : ofInt32 (i32 (r.data.le r.offset 4)) ≤ rest.length := by
          unfold ofInt32
          omega
        generalize ofInt32 (i32 (r.data.le r.offset 4)) = n at hn hr
        rcases hinit : bsonInitStatic (r.data.shift r.offset) n with _ | d
        · rw [hinit] at hr
          exact Or.inl (hstop hr)
        · rw [hinit] at hr
          simp only [Prod.mk.injEq] at hr
          obtain ⟨rfl, rfl, rfl⟩ := hr
          have hoff : u64 (r.offset + n) = r.offset + n := Nat.mod_eq_of_lt (by omega)
          have hd := bsonInitStatic_eq hinit
          have hoctets : d.octets = rest.take n := by
            have hslice := h.holds
            rw [← List.take_append_drop n rest, holds_append] at hslice
            rw [hd, BsonRef.octets, Mem.slice_shift]
            exact hslice.1.slice_of_length (by rw [List.length_take, Nat.min_eq_left hn])
          have hsplit : rest = d.octets ++ rest.drop n := by
            rw [hoctets, List.take_append_drop]
          refine Or.inr ⟨d, rest.drop n, rfl, rfl, hsplit, ?_, ?_, ?_⟩
          · rw [List.append_assoc, ← hsplit]
            exact h.data
          · rw [List.append_assoc, ← hsplit]
            exact h.length
          · simp only [hoff, List.length_append, hoctets, List.length_take]
            omega
  · next hge =>
    simp only [Prod.mk.injEq] at hr
    obtain ⟨rfl, rfl, rfl⟩ := hr
    refine Or.inl ⟨rfl, ?_, rfl⟩
    rw [beq_iff_eq, ← List.length_eq_zero_iff]
    omega

theorem At.tell {r : BsonReaderData} {pre rest : Bytes} (h : At r pre rest)
    (hsize : r.length < 2147483648) : r.tell = pre.length := by
  have hlength := h.length
  rw [List.length_append] at hlength
  rw [BsonReaderData.tell, h.offset]
  unfold i64
  omega

end BsonReaderData

end LibBson.Source
