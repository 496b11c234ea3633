import LibBson.Source.IterRuns
import LibBson.Spec.Walk

/-!
# The iterator reads back an encoding

`layout_of_encode`: the encoding of a value is a layout the iterator accepts.
`reads_of_element`, `yields_of_holds`: on it every accessor returns the value,
and stepping goes through all fields to a clean end.
-/

set_option autoImplicit false

namespace LibBson.Source
open LibBson.Library LibBson.Spec

section Words

variable {m : Mem} {o : Nat}

theorem le_of_holds_append {n x : Nat} {bs : Bytes} (h : Holds m o (leBytes n x ++ bs))
    (fits : x < 256 ^ n) : m.le o n = x ∧ Holds m (o + n) bs := by
  rw [holds_append, leBytes_length] at h
  exact ⟨h.1.le_eq_of_lt fits, h.2⟩

theorem lengthText_holds {s : Bytes} (h : Holds m o (lengthText s))
    (fits : s.length + 1 < 4294967296) :
    m.le o 4 = s.length + 1 ∧ Holds m (o + 4) s ∧ m (o + 4 + s.length) = 0 := by
  obtain ⟨h1, h2⟩ := le_of_holds_append h fits
  rw [holds_append, holds_cons] at h2
  exact ⟨h1, h2.1, h2.2.1⟩

theorem frame_holds {body : Bytes} (h : Holds m o (frame body))
    (fits : body.length + 5 < 4294967296) :
    m.le o 4 = body.length + 5 ∧ Holds m (o + 4) (body ++ [0]) :=
  le_of_holds_append h fits

end Words

/-- The encoding of a value is one of the accepted layouts of its type. -/
theorem layout_of_encode {m : Mem} {len o : Nat} {v : Value} (h : Holds m o v.encode)
    (hlen : o + v.encode.length < len) (hmax : len ≤ maxLen) :
    Layout m len o (o + v.encode.length) v.type := by
  unfold maxLen at hmax
  cases v
  case double bits | dateTime ms | int64 n => simp [Layout, Value.type, Value.encode]
  case timestamp t i => simp [Layout, Value.type, Value.encode]
  case int32 n => simp [Layout, Value.type, Value.encode]
  case decimal128 l h => simp [Layout, Value.type, Value.encode]
  case undefined | null | maxkey | minkey => simp [Layout, Value.type, Value.encode]
  case oid oid => simp [Layout, Value.type, Value.encode, oid.width]
  case bool b =>
    simp only [Value.encode, holds_cons] at h
    cases b <;> simp_all [Layout, Value.type, Value.encode]
  case utf8 s | code s | symbol s =>
    simp only [Value.encode, lengthText_length] at h hlen
    obtain ⟨h1, h2, h3⟩ := lengthText_holds h (by omega)
    simp only [Layout, Value.type, Value.encode, lengthText_length, h1]
    refine ⟨by omega, by omega, ?_⟩
    rwa [show o + (s.length + 1) + 3 = o + 4 + s.length by omega]
  case document d | array d =>
    simp only [Value.encode, frame_length] at h hlen
    obtain ⟨h1, h2⟩ := frame_holds h (by omega)
    simp only [Layout, Value.type, Value.encode, frame_length, h1]
    exact ⟨by omega, trivial⟩
  case binary subtype data =>
    simp only [Value.encode] at h hlen
    simp only [Layout, Value.type, Value.encode]
    split at h
    · next hsub =>
      rw [if_pos hsub] at hlen ⊢
      simp only [List.length_append, List.length_cons, leBytes_length] at hlen ⊢
      obtain ⟨h1, h2⟩ := le_of_holds_append h (by omega)
      rw [holds_cons] at h2
      obtain ⟨h3, h4⟩ := le_of_holds_append h2.2 (by omega)
      rw [h1, show o + 5 = o + 4 + 1 by omega, h3]
      omega
    · next hsub =>
      rw [if_neg hsub] at hlen ⊢
      simp only [List.length_append, List.length_cons, leBytes_length] at hlen ⊢
      obtain ⟨h1, h2⟩ := le_of_holds_append h (by omega)
      rw [holds_cons] at h2
      rw [h1]
      exact ⟨by omega, fun hz => absurd (h2.1.symm.trans hz) hsub⟩
  case dbpointer c oid =>
    simp only [Value.encode, List.length_append, lengthText_length, oid.width, holds_append]
      at h hlen
    obtain ⟨h1, h2, h3⟩ := lengthText_holds h.1 (by omega)
    simp only [Layout, Value.type, Value.encode, List.length_append, lengthText_length, oid.width,
      h1]
    refine ⟨by omega, by omega, ?_⟩
    rwa [show o + (c.length + 1) + 3 = o + 4 + c.length by omega]
  case regex p q =>
    simp only [Value.encode, holds_append, holds_cons] at h
    obtain ⟨h1, h2, h3, h4, -⟩ := h
    have hstop : o + (Value.regex p q).encode.length =
        o + p.bytes.length + 1 + q.bytes.length + 1 := by
      simp only [Value.encode, List.length_append, List.length_cons, List.length_nil]
      omega
    refine ⟨o + p.bytes.length, o + p.bytes.length + 1 + q.bytes.length, by omega, by omega,
      hstop, h2, h4, ?_, ?_⟩
    · intro i hi hi' hz
      obtain ⟨j, rfl⟩ := Nat.exists_eq_add_of_le hi
      rw [h1.get j (by omega)] at hz
      exact p.noNul (hz ▸ List.getElem_mem _)
    · intro i hi hi' hz
      obtain ⟨j, rfl⟩ := Nat.exists_eq_add_of_le (show o + p.bytes.length + 1 ≤ i by omega)
      rw [h3.get j (by omega)] at hz
      exact q.noNul (hz ▸ List.getElem_mem _)
  case codewscope s d =>
    simp only [Value.encode, List.length_append, leBytes_length, lengthText_length, frame_length]
      at h hlen
    obtain ⟨h1, h2⟩ := le_of_holds_append h (by omega)
    rw [holds_append, lengthText_length] at h2
    obtain ⟨h3, -, -⟩ := lengthText_holds h2.1 (by omega)
    obtain ⟨h4, -⟩ := frame_holds h2.2 (by omega)
    have hoff : o + 8 + (s.length + 1) = o + 4 + (s.length + 5) := by omega
    simp only [Layout, Value.type, Value.encode, List.length_append, leBytes_length,
      lengthText_length, frame_length, hoff, h1, h3, h4]
    omega

/-- A key without NUL octets ends at the NUL behind it. -/
theorem keyEnds_of_holds {m : Mem} {it : BsonIter} {k : CStr}
    (hkey : Holds m (it.nextOff + 1) k.bytes) (hnul : m (it.nextOff + 1 + k.bytes.length) = 0)
    (hlen : it.nextOff + k.bytes.length + 2 ≤ it.len) :
    KeyEnds m it (it.nextOff + 1 + k.bytes.length + 1) ∧
      Holds m (it.nextOff + 1) (k.bytes ++ [0]) := by
  refine ⟨⟨by omega, by omega, hnul, ?_⟩, by simp [hkey, hnul]⟩
  intro i h1 h2 hz
  obtain ⟨j, rfl⟩ := Nat.exists_eq_add_of_le h1
  rw [hkey.get j (by omega)] at hz
  exact k.noNul (hz ▸ List.getElem_mem _)

/-! ## Accessors on a decoded element -/

theorem slice_eq_of_holds {m : Mem} {o n : Nat} {bs : Bytes} (h : Holds m o bs)
    (hn : n = bs.length) : m.slice o n = bs := by
  subst hn
  exact h

theorem i32_toNat (n : BitVec 32) : i32 n.toNat = n.toInt := by
  have hlt := n.isLt
  rw [BitVec.toInt_eq_toNat_cond, i32]
  split <;> split <;> omega

theorem i64_toNat (n : BitVec 64) : i64 n.toNat = n.toInt := by
  have hlt := n.isLt
  rw [BitVec.toInt_eq_toNat_cond, i64]
  split <;> split <;> omega

/-- The text of an element whose value is a counted string. -/
theorem text_of_element {m : Mem} {it e : BsonIter} {o : Nat} {t : BsonType} {s : Bytes}
    (he : Element m it e o t) (hd : e.d1 = o ∧ e.d2 = o + 4) (h : Holds m o (lengthText s))
    (hlen : s.length + 5 < 2147483648) :
    e.mem.slice e.d2 (bsonIterUtf8LenUnsafe e) = s := by
  obtain ⟨h1, h2, -⟩ := lengthText_holds h (by omega)
  have hu : bsonIterUtf8LenUnsafe e = s.length := by
    rw [bsonIterUtf8LenUnsafe, he.mem_eq, hd.1, h1, i32_of_lt (by omega)]
    omega
  rw [he.mem_eq, hu, hd.2]
  exact h2

/-- `bson_init_static` accepts an encoding. -/
theorem bsonInitStatic_frame {m : Mem} {body : Bytes} (h : Holds m 0 (frame body))
    (hlen : body.length + 5 ≤ 2147483647) :
    bsonInitStatic m (body.length + 5) = some { data := m, len := body.length + 5 } := by
  obtain ⟨hword, hrest⟩ := frame_holds h (by omega)
  rw [holds_append, holds_cons] at hrest
  have hlast : m (body.length + 5 - 1) = 0 := by
    rw [show body.length + 5 - 1 = 0 + 4 + body.length by omega]
    exact hrest.2.1
  rw [bsonInitStatic, if_neg (by omega), if_neg (by simpa using hword), if_neg (by simpa using hlast)]

/-- The pattern's NUL is the first one behind `o`. -/
theorem pattern_ends {m : Mem} {o d : Nat} {p : CStr} (hlo : o < d) (hnul : m (d - 1) = 0)
    (hfirst : ∀ k, o ≤ k → k + 1 < d → m k ≠ 0) (hp : Holds m o p.bytes)
    (hend : m (o + p.bytes.length) = 0) : d = o + p.bytes.length + 1 := by
  have hge : ¬ o + p.bytes.length + 1 < d := fun hlt => hfirst _ (by omega) (by omega) hend
  have hle : ¬ d < o + p.bytes.length + 1 := by
    intro hlt
    obtain ⟨j, hj⟩ := Nat.exists_eq_add_of_le (show o ≤ d - 1 by omega)
    rw [hj, hp.get j (by omega)] at hnul
    exact p.noNul (hnul ▸ List.getElem_mem _)
  omega

mutual

/-- The accessors return the value whose encoding the element holds. -/
theorem reads_of_element (v : Value) {m : Mem} {it e : BsonIter} {o : Nat}
    (he : Element m it e o v.type) (h : Holds m o v.encode)
    (hlen : o + v.encode.length < it.len) (hmax : it.len ≤ maxLen) : Reads v e := by
  have htype := he.iterType_eq
  have hf := he.fields
  have hm := he.mem_eq
  unfold maxLen at hmax
  match v with
  | .double bits =>
    simp only [Value.encode] at h
    have hd : e.d1 = o := hf
    have hw : m.le o 8 = bits.toNat := h.le_eq_of_lt bits.isLt
    simp [Reads, bsonIterDouble, htype, Value.type, hm, hd, hw]
  | .utf8 s =>
    simp only [Value.encode, lengthText_length] at h hlen
    have ht := text_of_element he hf h (by omega)
    simpa [Reads, bsonIterUtf8, htype, Value.type] using ht
  | .code s =>
    simp only [Value.encode, lengthText_length] at h hlen
    have ht := text_of_element he hf h (by omega)
    simpa [Reads, bsonIterCode, htype, Value.type] using ht
  | .symbol s =>
    simp only [Value.encode, lengthText_length] at h hlen
    have ht := text_of_element he hf h (by omega)
    simpa [Reads, bsonIterSymbol, htype, Value.type] using ht
  | .document d =>
    simp only [Value.encode, frame_length] at h hlen
    have hd : e.d1 = o := hf
    obtain ⟨hword, hrest⟩ := frame_holds h (by omega)
    have hslice : m.slice o (d.body.length + 5) = frame d.body := slice_eq_of_holds h (by simp)
    have hacc : bsonIterDocument e = some { off := o, len := d.body.length + 5 } := by
      simp [bsonIterDocument, htype, Value.type, hm, hd, hword]
    have hchild : bsonIterRecurse e =
        some (BsonIter.start (some (m.shift o)) (d.body.length + 5)) := by
      simp [bsonIterRecurse, htype, Value.type, hacc, hm]
    rw [Reads]
    refine ⟨⟨_, hacc, by rw [hm]; exact hslice⟩, _, hchild, ?_⟩
    exact yields_of_holds d rfl (Nat.le_refl 4) ((holds_shift ..).mpr hrest)
      (by simp only [BsonIter.start]; omega) (by simp only [BsonIter.start, maxLen]; omega) rfl
  | .array d =>
    simp only [Value.encode, frame_length] at h hlen
    have hd : e.d1 = o := hf
    obtain ⟨hword, hrest⟩ := frame_holds h (by omega)
    have hslice : m.slice o (d.body.length + 5) = frame d.body := slice_eq_of_holds h (by simp)
    have hacc : bsonIterArray e = some { off := o, len := d.body.length + 5 } := by
      simp [bsonIterArray, htype, Value.type, hm, hd, hword]
    have hchild : bsonIterRecurse e =
        some (BsonIter.start (some (m.shift o)) (d.body.length + 5)) := by
      simp [bsonIterRecurse, htype, Value.type, hacc, hm]
    rw [Reads]
    refine ⟨⟨_, hacc, by rw [hm]; exact hslice⟩, _, hchild, ?_⟩
    exact yields_of_holds d rfl (Nat.le_refl 4) ((holds_shift ..).mpr hrest)
      (by simp only [BsonIter.start]; omega) (by simp only [BsonIter.start, maxLen]; omega) rfl
  | .binary subtype data =>
    have hfd : e.d1 = o ∧ e.d2 = o + 4 ∧ e.d3 = o + 5 := hf
    simp only [Value.encode] at h hlen
    split at h
    · next hsub =>
      rw [if_pos hsub] at hlen
      simp only [List.length_append, List.length_cons, leBytes_length] at hlen
      obtain ⟨h1, h2⟩ := le_of_holds_append h (by omega)
      rw [holds_cons, holds_append, leBytes_length] at h2
      have hu : u32sub (data.length + 4) 4 = data.length := by
        rw [u32sub_of_le (by omega) (by omega)]
        omega
      have hdata : m.slice (o + 5 + 4) data.length = data := h2.2.2
      subst hsub
      simpa [Reads, bsonIterBinary, htype, Value.type, hm, hfd, h2.1, h1, hu] using hdata
    · next hsub =>
      rw [if_neg hsub] at hlen
      simp only [List.length_append, List.length_cons, leBytes_length] at hlen
      obtain ⟨h1, h2⟩ := le_of_holds_append h (by omega)
      rw [holds_cons] at h2
      have hdata : m.slice (o + 5) data.length = data := h2.2
      simpa [Reads, bsonIterBinary, htype, Value.type, hm, hfd, h2.1, h1, hsub] using hdata
  | .oid x =>
    simp only [Value.encode] at h
    have hd : e.d1 = o := hf
    have hx : m.slice o 12 = x.bytes := slice_eq_of_holds h x.width.symm
    simpa [Reads, bsonIterOid, htype, Value.type, hm, hd] using hx
  | .bool b =>
    simp only [Value.encode, holds_cons] at h
    have hd : e.d1 = o := hf
    cases b <;> simp_all [Reads, bsonIterBool, Value.type]
  | .dateTime ms =>
    simp only [Value.encode] at h
    have hd : e.d1 = o := hf
    have hw : m.le o 8 = ms.toNat := h.le_eq_of_lt ms.isLt
    simp [Reads, bsonIterDateTime, htype, Value.type, hm, hd, hw, i64_toNat]
  | .int64 n =>
    simp only [Value.encode] at h
    have hd : e.d1 = o := hf
    have hw : m.le o 8 = n.toNat := h.le_eq_of_lt n.isLt
    simp [Reads, bsonIterInt64, htype, Value.type, hm, hd, hw, i64_toNat]
  | .int32 n =>
    simp only [Value.encode] at h
    have hd : e.d1 = o := hf
    have hw : m.le o 4 = n.toNat := h.le_eq_of_lt n.isLt
    simp [Reads, bsonIterInt32, htype, Value.type, hm, hd, hw, i32_toNat]
  | .timestamp t i =>
    simp only [Value.encode] at h
    have hd : e.d1 = o := hf
    have ht := t.isLt
    have hi := i.isLt
    have hw : m.le o 8 = t.toNat * 4294967296 + i.toNat := h.le_eq_of_lt (by omega)
    have hdiv : (t.toNat * 4294967296 + i.toNat) / 4294967296 = t.toNat := by omega
    have hmod : (t.toNat * 4294967296 + i.toNat) % 4294967296 = i.toNat := by omega
    simp only [Reads, bsonIterTimestamp, htype, Value.type, hm, hd, hw, if_true, hdiv, hmod]
  | .decimal128 low high =>
    simp only [Value.encode] at h
    have hd : e.d1 = o := hf
    obtain ⟨hw1, hw2⟩ := le_of_holds_append h low.isLt
    have hw3 : m.le (o + 8) 8 = high.toNat := hw2.le_eq_of_lt high.isLt
    simp [Reads, bsonIterDecimal128, htype, Value.type, hm, hd, hw1, hw3]
  | .regex p q =>
    simp only [Value.encode, holds_append, holds_cons] at h
    obtain ⟨h1, h2, h3, h4, -⟩ := h
    obtain ⟨f1, f2, f3, f4, f5⟩ :
      e.d1 = o ∧ o < e.d2 ∧ e.d2 < e.nextOff ∧ m (e.d2 - 1) = 0 ∧
        ∀ k, o ≤ k → k + 1 < e.d2 → m k ≠ 0 := hf
    have hd2 : e.d2 = o + p.bytes.length + 1 := pattern_ends f2 f4 f5 h1 h2
    rw [Reads]
    refine ⟨o, o + p.bytes.length + 1, by simp [bsonIterRegex, htype, Value.type, f1, hd2], ?_, ?_⟩
    · rw [hm, holds_append, holds_cons]
      exact ⟨h1, h2, holds_nil _ _⟩
    · rw [hm, holds_append, holds_cons]
      exact ⟨h3, h4, holds_nil _ _⟩
  | .dbpointer c x =>
    simp only [Value.encode, List.length_append, lengthText_length, x.width, holds_append]
      at h hlen
    obtain ⟨h1, h2, h3⟩ := lengthText_holds h.1 (by omega)
    obtain ⟨f1, f2, f3⟩ : e.d1 = o ∧ e.d2 = o + 4 ∧ e.d3 = o + 4 + m.le o 4 := hf
    have hx : m.slice (o + (c.length + 5)) 12 = x.bytes := slice_eq_of_holds h.2 x.width.symm
    have hd3 : o + 4 + (c.length + 1) = o + (c.length + 5) := by omega
    rw [Reads]
    refine ⟨{ off := o + 4, len := c.length }, o + (c.length + 5), ?_, ?_, ?_⟩
    · simp [bsonIterDbpointer, htype, Value.type, hm, f1, f2, f3, h1, hd3]
    · rw [hm]
      exact h2
    · rw [hm]
      exact hx
  | .codewscope s d =>
    simp only [Value.encode, List.length_append, leBytes_length, lengthText_length, frame_length]
      at h hlen
    obtain ⟨h1, h2⟩ := le_of_holds_append h (by omega)
    rw [holds_append, lengthText_length] at h2
    obtain ⟨h3, h5, -⟩ := lengthText_holds h2.1 (by omega)
    obtain ⟨h4, h6⟩ := frame_holds h2.2 (by omega)
    obtain ⟨f1, f2, f3, f4⟩ :
      e.d1 = o ∧ e.d2 = o + 4 ∧ e.d3 = o + 8 ∧ e.d4 = o + 8 + m.le (o + 4) 4 := hf
    have hd4 : o + 8 + (s.length + 1) = o + 4 + (s.length + 5) := by omega
    have hframe : Holds (m.shift (o + 4 + (s.length + 5))) 0 (frame d.body) :=
      (holds_shift ..).mpr h2.2
    rw [Reads]
    refine ⟨{ off := o + 8, len := s.length },
      { off := o + 4 + (s.length + 5), len := d.body.length + 5 }, ?_, ?_, ?_⟩
    · simp [bsonIterCodewscope, htype, Value.type, hm, f2, f3, f4, h3, hd4, h4]
    · rw [hm]
      exact h5
    · refine ⟨_, _, by rw [hm]; exact bsonInitStatic_frame hframe (by omega), rfl, ?_⟩
      exact yields_of_holds d rfl (Nat.le_refl 4) ((holds_shift ..).mpr h6)
        (by simp only [BsonIter.start]; omega) (by simp only [BsonIter.start, maxLen]; omega) rfl
  | .undefined | .null | .maxkey | .minkey => simp [Reads]

/-- Stepping over the encoding of a document yields its fields and ends. -/
theorem yields_of_holds (d : Doc) {m : Mem} {it : BsonIter} (hraw : it.raw = some m)
    (h4 : 4 ≤ it.nextOff) (h : Holds m it.nextOff (d.body ++ [0]))
    (hlen : it.nextOff + d.body.length + 1 = it.len) (hmax : it.len ≤ maxLen)
    (herr : it.errOff = 0) : Yields d it := by
  match d with
  | .nil =>
    rw [Yields]
    exact next_end hraw herr (by rw [Doc.body_nil] at hlen; simp at hlen; omega)
  | .cons k v rest =>
    rw [Doc.body_cons] at h hlen
    simp only [List.append_assoc, List.length_append, header_length] at h hlen
    rw [header, List.cons_append, holds_cons, List.append_assoc, holds_append] at h
    obtain ⟨htype, hkey, h⟩ := h
    rw [List.cons_append, holds_cons, List.nil_append, holds_append] at h
    obtain ⟨hnul, hval, hrest⟩ := h
    obtain ⟨hends, hkey'⟩ := keyEnds_of_holds hkey hnul (by omega)
    obtain ⟨k1, k2, k3, k4⟩ := hends
    have hlay : Layout m it.len _ _ v.type := layout_of_encode hval (by omega) hmax
    obtain ⟨hok, hstop⟩ := next_of_layout hraw h4 hmax k1 k2 k3 k4 htype hlay (by omega)
    obtain ⟨o, t, he⟩ := element_of_next hraw h4 hmax hok
    obtain rfl : o = it.nextOff + 1 + k.bytes.length + 1 := he.keyEnds.unique ⟨k1, k2, k3, k4⟩
    obtain rfl : t = v.type := BsonType.toByte_injective (he.typeByte.symm.trans htype)
    rw [Yields]
    refine ⟨hok, ?_, he.iterType_eq, ?_, ?_⟩
    · simp only [bsonIterNext]
      rwa [he.mem_eq, he.key]
    · exact reads_of_element v he hval (by omega) hmax
    · refine yields_of_holds rest he.raw ?_ ?_ ?_ ?_ he.err
      · simp only [bsonIterNext]; omega
      · simp only [bsonIterNext]; rwa [hstop]
      · simp only [bsonIterNext, he.len]; omega
      · simp only [bsonIterNext, he.len]; omega

end

end LibBson.Source
