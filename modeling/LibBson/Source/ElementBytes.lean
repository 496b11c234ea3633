import LibBson.Source.DecodeLaws

/-!
# An iterator in front of encoded elements

`Before d m it`: what is ahead of `it` in the octets `m` is the encoding of the fields
of `d`. A step onto the first of them says where its key and value stand, and leaves
the iterator in front of the rest.
-/

set_option autoImplicit false

namespace LibBson.Source
open LibBson.Library LibBson.Spec

/-- The fields of `d` and the NUL behind them are what the iterator has ahead. -/
structure Before (d : Doc) (m : Mem) (it : BsonIter) : Prop where
  raw : it.raw = some m
  start : 4 ≤ it.nextOff
  octets : Holds m it.nextOff (d.body ++ [0])
  len : it.nextOff + d.body.length + 1 = it.len
  max : it.len ≤ maxLen
  clean : it.errOff = 0

/-- The iterator is on an element with key `k` and value `v`. -/
structure At (m : Mem) (e : BsonIter) (k : CStr) (v : Value) : Prop where
  raw : e.raw = some m
  type : e.type = e.off
  key : e.key = e.off + 1
  header : Holds m e.off (header v.type k)
  value : Holds m (e.off + k.bytes.length + 2) v.encode
  fields : Fields m (e.off + k.bytes.length + 2) e v.type
  next : e.nextOff = e.off + k.bytes.length + 2 + v.encode.length
  stop : e.nextOff < e.len
  max : e.len ≤ maxLen
  start : 4 ≤ e.off

theorem At.mem_eq {m : Mem} {e : BsonIter} {k : CStr} {v : Value} (h : At m e k v) : e.mem = m := by
  rw [BsonIter.mem, h.raw]
  rfl

theorem At.iterType_eq {m : Mem} {e : BsonIter} {k : CStr} {v : Value} (h : At m e k v) :
    iterType e = some v.type := by
  have hh := h.header
  rw [LibBson.Spec.header, holds_cons] at hh
  rw [iterType, h.mem_eq, h.type, hh.1, BsonType.ofByte_toByte]

/-- Elements that stand between a document's length and its NUL are ahead of an
iterator opened on it. -/
theorem before_start {m : Mem} {d : Doc} (h : Holds m 4 (d.body ++ [0]))
    (hlen : d.body.length + 5 ≤ maxLen) :
    Before d m (BsonIter.start (some m) (d.body.length + 5)) where
  raw := rfl
  start := Nat.le_refl 4
  octets := h
  len := by simp only [BsonIter.start]; omega
  max := hlen
  clean := rfl

theorem Before.nil_next {m : Mem} {it : BsonIter} (h : Before .nil m it) :
    (bsonIterNextInternal it).ok = false := by
  have hlen := h.len
  rw [Doc.body_nil, List.length_nil] at hlen
  exact (next_end h.raw h.clean (by omega)).1

/-- A step goes onto the first element and has the rest ahead. -/
theorem Before.next {m : Mem} {it : BsonIter} {k : CStr} {v : Value} {rest : Doc}
    (h : Before (.cons k v rest) m it) :
    (bsonIterNextInternal it).ok = true ∧ (bsonIterNext it).2.off = it.nextOff ∧
      (bsonIterNext it).2.len = it.len ∧ At m (bsonIterNext it).2 k v ∧
      Before rest m (bsonIterNext it).2 := by
  obtain ⟨hraw, h4, hold, hlen, hmax, -⟩ := h
  rw [Doc.body_cons] at hold hlen
  simp only [List.append_assoc, List.length_append, header_length] at hold hlen
  rw [header, List.cons_append, holds_cons, List.append_assoc, holds_append] at hold
  obtain ⟨htype, hkey, hold⟩ := hold
  rw [List.cons_append, holds_cons, List.nil_append, holds_append] at hold
  obtain ⟨hnul, hval, hrest⟩ := hold
  obtain ⟨hends, hkey'⟩ := keyEnds_of_holds hkey hnul (by omega)
  obtain ⟨k1, k2, k3, k4⟩ := hends
  have hlay : Layout m it.len _ _ v.type := layout_of_encode hval (by omega) hmax
  obtain ⟨hok, hstop⟩ := next_of_layout hraw h4 hmax k1 k2 k3 k4 htype hlay (by omega)
  obtain ⟨o, t, he⟩ := element_of_next hraw h4 hmax hok
  obtain rfl : o = it.nextOff + 1 + k.bytes.length + 1 := he.keyEnds.unique ⟨k1, k2, k3, k4⟩
  obtain rfl : t = v.type := BsonType.toByte_injective (he.typeByte.symm.trans htype)
  have ho : it.nextOff + 1 + k.bytes.length + 1 = it.nextOff + k.bytes.length + 2 := by omega
  rw [ho] at he hval hrest hstop
  simp only [bsonIterNext]
  generalize (bsonIterNextInternal it).iter = e at he hstop
  have hoff := he.off
  have helen := he.len
  refine ⟨hok, hoff, helen, ⟨he.raw, he.type.trans hoff.symm, ?_, ?_, ?_, ?_, ?_, ?_, ?_, ?_⟩,
    ⟨he.raw, ?_, ?_, ?_, ?_, he.err⟩⟩
  · rw [he.key, hoff]
  · rw [hoff, header, holds_cons]
    exact ⟨htype, hkey'⟩
  · rw [hoff]
    exact hval
  · rw [hoff]
    exact he.fields
  · rw [hoff]
    exact hstop
  · rw [helen]
    exact he.stop
  · rw [helen]
    exact hmax
  · rw [hoff]
    exact h4
  · omega
  · rw [hstop]
    exact hrest
  · omega
  · omega

end LibBson.Source
