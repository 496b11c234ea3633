import LibBson.Source.AppendExact
import LibBson.Source.BuildRuns
import LibBson.Source.ElementBytes
import LibBson.Spec.Appended

/-!
# Copying elements from one document to another

Source: bson.c:2194-2275 (`should_ignore`, `_bson_copy_to_excluding_va`,
`bson_copy_to_excluding_noinit`), 1270-1424 (`bson_append_iter`). The source is read
through an iterator and never written. An append that fails is `BSON_ASSERT (false)`.
-/

set_option autoImplicit false

namespace LibBson.Source
open LibBson.Library LibBson.Spec

section Copy

variable (fresh : Nat → Mem) (firstExclude : Bytes) (args : List Bytes)

end Copy

theorem cText_append_zero (s rest : Bytes) : cText (s ++ 0 :: rest) = cText s := by
  induction s with
  | nil => rfl
  | cons b s ih =>
    rw [List.cons_append, cText, cText, List.takeWhile_cons, List.takeWhile_cons]
    split
    · exact congrArg (b :: ·) ih
    · rfl

/-- A text with its NUL, seen through a pointer. -/
theorem cText_slice {m : Mem} {o n : Nat} {s : Bytes} (h : Holds m o (s ++ [0]))
    (hn : s.length < n) : cText (m.slice o n) = cText s := by
  obtain ⟨k, rfl⟩ := Nat.exists_eq_add_of_lt hn
  have hslice : m.slice o (s.length + 1) = s ++ [0] := h.slice_of_length (by simp)
  rw [Nat.add_right_comm, Mem.slice_add, hslice, List.append_assoc]
  exact cText_append_zero s _

/-- A text without a NUL inside. -/
theorem text_slice {m : Mem} {o n : Nat} {s : Bytes} (h : Holds m o (s ++ [0]))
    (hs : (0 : UInt8) ∉ s) (hn : s.length < n) : cText (m.slice o n) = s :=
  (cText_slice h hn).trans (cText_of_no_nul hs)

/-- The first octets behind a pointer. -/
theorem copied_slice {m : Mem} {o n : Nat} {s : Bytes} (h : Holds m o s) (hn : s.length ≤ n) :
    copied (m.slice o n) s.length = s := by
  obtain ⟨k, rfl⟩ := Nat.exists_eq_add_of_le hn
  rw [Mem.slice_add, h.slice_eq, copied]
  exact List.takeD_left _ _ _

/-! ## The append of an element describes the element -/

/-- An iterator initialised on an encoded document has its elements ahead. -/
theorem encodes_before {b : BsonRef} {d : Doc} (h : Encodes b d) (hsmall : b.len ≤ bsonMaxSize) :
    bsonIterInit b = (true, BsonIter.start (some b.data) b.len) ∧
      Before d b.data (BsonIter.start (some b.data) b.len) := by
  have hlen := h.len_body
  unfold bsonMaxSize at hsmall
  refine ⟨by rw [bsonIterInit, if_neg (by omega)], ?_⟩
  rw [hlen]
  exact before_start h.elements (by unfold maxLen; omega)

section Element

variable {m : Mem} {e : BsonIter} {k : CStr} {v : Value}

theorem counted_text {s : Bytes} {o : Nat} (hm : e.mem = m) (hd : e.d1 = o)
    (hold : Holds m o (lengthText s)) (hfits : s.length + 5 < 2147483648) :
    bsonIterUtf8LenUnsafe e = s.length := by
  obtain ⟨h1, -, -⟩ := lengthText_holds hold (by omega)
  rw [bsonIterUtf8LenUnsafe, hm, hd, h1, i32_of_lt (by omega)]
  omega

/-- A counted text handed over with its length. -/
theorem textOf_pointer {s : Bytes} {o : Nat} (hold : Holds m o s) (hm : e.mem = m)
    (hlt : s.length < 2147483648) (hroom : o + s.length ≤ e.len) :
    textOf (e.pointer o) (i32 s.length) = s := by
  have hpos : ¬ ((s.length : Int) < 0) := by omega
  rw [i32_of_lt hlt, textOf, if_neg hpos, Int.toNat_natCast, BsonIter.pointer, hm]
  exact copied_slice hold (by omega)

/-- A nested document as `bson_init_static` takes it. -/
theorem nested_encodes {d : Doc} {o : Nat} (hold : Holds m o (frame d.body))
    (hfits : d.body.length + 5 ≤ 2147483647) :
    m.le o 4 = d.body.length + 5 ∧
      ∃ b, bsonInitStatic (m.shift o) (d.body.length + 5) = some b ∧ Encodes b d := by
  have hshift : Holds (m.shift o) 0 (frame d.body) := (holds_shift ..).mpr hold
  refine ⟨(frame_holds hold (by omega)).1, _, bsonInitStatic_frame hshift hfits, ?_, ?_⟩
  · rw [Doc.encode_length]
  · exact hshift

/-- `bson_append_iter` appends a copy of the value under the iterator. -/
theorem iterField_copies (h : At m e k v) : ∃ f, iterField e = some f ∧ Means f v.copy := by
  have htype := h.iterType_eq
  have hm := h.mem_eq
  have hval := h.value
  have hf := h.fields
  have hnext := h.next
  have hstop := h.stop
  have hmax := h.max
  unfold maxLen at hmax
  generalize ho : e.off + k.bytes.length + 2 = o at hval hf hnext
  cases v with
  | double bits =>
    have hd : e.d1 = o := hf
    have hw : m.le o 8 = bits.toNat := by
      rw [Value.encode] at hval
      exact hval.le_eq_of_lt bits.isLt
    refine ⟨.double bits.toNat, ?_, .double bits⟩
    simp [iterField, htype, Value.type, bsonIterDouble, hm, hd, hw]
  | utf8 s =>
    obtain ⟨hd1, hd2⟩ := hf
    simp only [Value.encode, lengthText_length] at hval hnext
    obtain ⟨-, htext, -⟩ := lengthText_holds hval (by omega)
    have hlen := counted_text hm hd1 hval (by omega)
    have hmeans := Means.utf8 (e.pointer (o + 4)) (i32 s.length)
    rw [textOf_pointer htext hm (by omega) (by omega)] at hmeans
    refine ⟨_, ?_, hmeans⟩
    simp [iterField, htype, Value.type, bsonIterUtf8, hlen, hd2]
  | symbol s =>
    obtain ⟨hd1, hd2⟩ := hf
    simp only [Value.encode, lengthText_length] at hval hnext
    obtain ⟨-, htext, -⟩ := lengthText_holds hval (by omega)
    have hlen := counted_text hm hd1 hval (by omega)
    have hmeans := Means.symbol (e.pointer (o + 4)) (i32 s.length)
    rw [textOf_pointer htext hm (by omega) (by omega)] at hmeans
    refine ⟨_, ?_, hmeans⟩
    simp [iterField, htype, Value.type, bsonIterSymbol, hlen, hd2]
  | code s =>
    obtain ⟨hd1, hd2⟩ := hf
    simp only [Value.encode, lengthText_length] at hval hnext
    obtain ⟨-, htext, hnul⟩ := lengthText_holds hval (by omega)
    have hptr : cText (e.pointer (o + 4)) = cText s := by
      rw [BsonIter.pointer, hm]
      exact cText_slice (by simp [htext, hnul]) (by omega)
    have hmeans := Means.code (e.pointer (o + 4))
    rw [hptr] at hmeans
    refine ⟨_, ?_, hmeans⟩
    simp [iterField, htype, Value.type, bsonIterCode, hd2]
  | document d =>
    have hd : e.d1 = o := hf
    simp only [Value.encode, frame_length] at hval hnext
    obtain ⟨hword, b, hb, henc⟩ := nested_encodes hval (by omega)
    refine ⟨.document b, ?_, .document b d henc⟩
    simp [iterField, htype, Value.type, bsonIterDocument, hm, hd, hword, hb]
  | array d =>
    have hd : e.d1 = o := hf
    simp only [Value.encode, frame_length] at hval hnext
    obtain ⟨hword, b, hb, henc⟩ := nested_encodes hval (by omega)
    refine ⟨.array b, ?_, .array b d henc⟩
    simp [iterField, htype, Value.type, bsonIterArray, hm, hd, hword, hb]
  | binary subtype data =>
    obtain ⟨hd1, hd2, hd3⟩ := hf
    simp only [Value.encode] at hval hnext
    split at hval
    · next hsub =>
      rw [if_pos hsub] at hnext
      simp only [List.length_append, List.length_cons, leBytes_length] at hnext
      obtain ⟨h1, h2⟩ := le_of_holds_append hval (by omega)
      rw [holds_cons, holds_append, leBytes_length] at h2
      have hu : u32sub (data.length + 4) 4 = data.length := by
        rw [u32sub_of_le (by omega) (by omega)]
        omega
      have hdata : copied (e.pointer (o + 5 + 4)) data.length = data := by
        rw [BsonIter.pointer, hm]
        exact copied_slice h2.2.2 (by omega)
      have hmeans := Means.binary subtype (e.pointer (o + 5 + 4)) data.length
      rw [hdata] at hmeans
      refine ⟨_, ?_, hmeans⟩
      subst hsub
      simp [iterField, htype, Value.type, bsonIterBinary, hm, hd1, hd2, hd3, h1, h2.1, hu]
    · next hsub =>
      rw [if_neg hsub] at hnext
      simp only [List.length_append, List.length_cons, leBytes_length] at hnext
      obtain ⟨h1, h2⟩ := le_of_holds_append hval (by omega)
      rw [holds_cons] at h2
      have hdata : copied (e.pointer (o + 5)) data.length = data := by
        rw [BsonIter.pointer, hm]
        exact copied_slice h2.2 (by omega)
      have hmeans := Means.binary subtype (e.pointer (o + 5)) data.length
      rw [hdata] at hmeans
      refine ⟨_, ?_, hmeans⟩
      simp [iterField, htype, Value.type, bsonIterBinary, hm, hd1, hd2, hd3, h1, h2.1, hsub]
  | oid x =>
    have hd : e.d1 = o := hf
    rw [Value.encode] at hval hnext
    have hx : copied (e.pointer o) 12 = x.bytes := by
      have hcopy := copied_slice (n := e.len - o) hval (by omega)
      rw [x.width] at hcopy
      rw [BsonIter.pointer, hm]
      exact hcopy
    refine ⟨.oid (e.pointer o), ?_, .oid _ x hx⟩
    simp [iterField, htype, Value.type, bsonIterOid, hd]
  | bool b =>
    have hd : e.d1 = o := hf
    rw [Value.encode, holds_cons] at hval
    refine ⟨.bool b, ?_, .bool b⟩
    cases b with
    | false => simp [iterField, htype, Value.type, bsonIterBool, hm, hd, hval.1]
    | true => simp [iterField, htype, Value.type, bsonIterBool, hm, hd, hval.1]
  | dateTime ms =>
    have hd : e.d1 = o := hf
    have hw : m.le o 8 = ms.toNat := by
      rw [Value.encode] at hval
      exact hval.le_eq_of_lt ms.isLt
    refine ⟨.dateTime ms.toInt, ?_, .dateTime ms⟩
    simp [iterField, htype, Value.type, bsonIterDateTime, hm, hd, hw, i64_toNat]
  | int64 n =>
    have hd : e.d1 = o := hf
    have hw : m.le o 8 = n.toNat := by
      rw [Value.encode] at hval
      exact hval.le_eq_of_lt n.isLt
    refine ⟨.int64 n.toInt, ?_, .int64 n⟩
    simp [iterField, htype, Value.type, bsonIterInt64, hm, hd, hw, i64_toNat]
  | int32 n =>
    have hd : e.d1 = o := hf
    have hw : m.le o 4 = n.toNat := by
      rw [Value.encode] at hval
      exact hval.le_eq_of_lt n.isLt
    refine ⟨.int32 n.toInt, ?_, .int32 n⟩
    simp [iterField, htype, Value.type, bsonIterInt32, hm, hd, hw, i32_toNat]
  | timestamp t i =>
    have hd : e.d1 = o := hf
    have ht := t.isLt
    have hi := i.isLt
    have hw : m.le o 8 = t.toNat * 4294967296 + i.toNat := by
      rw [Value.encode] at hval
      exact hval.le_eq_of_lt (by omega)
    have hdiv : (t.toNat * 4294967296 + i.toNat) / 4294967296 = t.toNat := by omega
    have hmod : (t.toNat * 4294967296 + i.toNat) % 4294967296 = i.toNat := by omega
    refine ⟨.timestamp t.toNat i.toNat, ?_, .timestamp t i⟩
    simp only [iterField, htype, Value.type, bsonIterTimestamp, hm, hd, hw, if_true, hdiv, hmod]
  | decimal128 low high =>
    have hd : e.d1 = o := hf
    rw [Value.encode] at hval
    obtain ⟨hw1, hw2⟩ := le_of_holds_append hval low.isLt
    have hw3 : m.le (o + 8) 8 = high.toNat := hw2.le_eq_of_lt high.isLt
    refine ⟨.decimal128 low.toNat high.toNat, ?_, .decimal128 low high⟩
    simp [iterField, htype, Value.type, bsonIterDecimal128, hm, hd, hw1, hw3]
  | dbpointer c x =>
    obtain ⟨f1, f2, f3⟩ := hf
    simp only [Value.encode, List.length_append, lengthText_length, x.width, holds_append]
      at hval hnext
    obtain ⟨h1, htext, hnul⟩ := lengthText_holds hval.1 (by omega)
    have hd3 : e.d3 = o + (c.length + 5) := by
      rw [f3, h1]
      omega
    have hptr : cText (e.pointer (o + 4)) = cText c := by
      rw [BsonIter.pointer, hm]
      exact cText_slice (by simp [htext, hnul]) (by omega)
    have hx : copied (e.pointer (o + (c.length + 5))) 12 = x.bytes := by
      have hcopy := copied_slice (n := e.len - (o + (c.length + 5))) hval.2
        (by rw [x.width]; omega)
      rw [x.width] at hcopy
      rw [BsonIter.pointer, hm]
      exact hcopy
    have hmeans := Means.dbpointer (e.pointer (o + 4)) (e.pointer (o + (c.length + 5))) x hx
    rw [hptr] at hmeans
    refine ⟨_, ?_, hmeans⟩
    simp [iterField, htype, Value.type, bsonIterDbpointer, f2, hd3]
  | regex p q =>
    obtain ⟨f1, f2, -, f4, f5⟩ := hf
    have hlen : (Value.regex p q).encode.length = p.bytes.length + q.bytes.length + 2 := by
      simp only [Value.encode, List.length_append, List.length_cons, List.length_nil]
      omega
    rw [hlen] at hnext
    simp only [Value.encode, holds_append, holds_cons] at hval
    obtain ⟨h1, h2, h3, h4, -⟩ := hval
    have hd2 : e.d2 = o + p.bytes.length + 1 := pattern_ends f2 f4 f5 h1 h2
    have hpattern : cText (e.pointer o) = p.bytes := by
      rw [BsonIter.pointer, hm]
      exact text_slice (by simp [h1, h2]) p.noNul (by omega)
    have hoptions : cText (e.pointer (o + p.bytes.length + 1)) = cText q.bytes := by
      rw [BsonIter.pointer, hm]
      exact cText_slice (by simp [h3, h4]) (by omega)
    have hsorted : (sortedOptions q.bytes).bytes = [105, 108, 109, 115, 117, 120].filter
        (· ∈ cText (e.pointer (o + p.bytes.length + 1))) := by
      rw [hoptions]
      rfl
    refine ⟨.regex (some (e.pointer o)) (some (e.pointer (o + p.bytes.length + 1))), ?_,
      .regex _ _ p _ hpattern hsorted⟩
    simp [iterField, htype, Value.type, bsonIterRegex, f1, hd2]
  | codewscope s d =>
    obtain ⟨f1, f2, f3, f4⟩ := hf
    simp only [Value.encode, List.length_append, leBytes_length, lengthText_length, frame_length]
      at hval hnext
    obtain ⟨h1, h2⟩ := le_of_holds_append hval (by omega)
    rw [holds_append, lengthText_length] at h2
    obtain ⟨h3, htext, hnul⟩ := lengthText_holds h2.1 (by omega)
    obtain ⟨hword, b, hb, henc⟩ := nested_encodes h2.2 (by omega)
    have hd4 : e.d4 = o + 4 + (s.length + 5) := by
      rw [f4, h3]
      omega
    have hptr : cText (e.pointer (o + 8)) = cText s := by
      rw [BsonIter.pointer, hm]
      exact cText_slice (by simp [htext, hnul]) (by omega)
    have hmeans := Means.codeWithScope (e.pointer (o + 8)) b d henc
    rw [hptr] at hmeans
    refine ⟨_, ?_, hmeans⟩
    simp [iterField, htype, Value.type, bsonIterCodewscope, hm, f3, hd4, hword, hb]
  | undefined =>
    exact ⟨.undefined, by simp only [iterField, htype, Value.type], .undefined⟩
  | null =>
    exact ⟨.null, by simp only [iterField, htype, Value.type], .null⟩
  | maxkey =>
    exact ⟨.maxkey, by simp only [iterField, htype, Value.type], .maxkey⟩
  | minkey =>
    exact ⟨.minkey, by simp only [iterField, htype, Value.type], .minkey⟩

end Element

/-! ## Appending to a destination with room -/

/-- The buffer can take the document at `n` octets, or be made to. -/
def Chain.RoomFor (c : Chain) (n : Nat) : Prop :=
  c.growable = true ∨ c.bson.offset + n + c.bson.depth ≤ c.capacity

theorem Chain.RoomFor.mono {c : Chain} {n k : Nat} (h : c.RoomFor n) (hk : k ≤ n) : c.RoomFor k := by
  rcases h with h | h
  · exact Or.inl h
  · exact Or.inr (by omega)

end LibBson.Source
