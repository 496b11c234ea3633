import LibBson.Source.JsonState

/-!
# What a `bson_json_buf_t` holds

Setting and appending keep the text and room for the NUL behind it.
Source: bson-json.c:383-455.
-/

set_option autoImplicit false

namespace LibBson.Source
open LibBson.Library

/-- A prefix with octets written behind it. -/
theorem slice_write_end (m : Mem) (o : Nat) (bs : Bytes) :
    (m.write o bs).slice 0 (o + bs.length) = m.slice 0 o ++ bs := by
  have hold : Holds (m.write o bs) 0 (m.slice 0 o) := by
    apply Mem.holds_write_frame (holds_slice m 0 o)
    left
    rw [Mem.slice_length, Nat.zero_add]
  have hnew : Holds (m.write o bs) o bs := Mem.holds_write_self m o bs
  rw [Mem.slice_add, hold.slice_of_length (Mem.slice_length m 0 o), Nat.zero_add, hnew.slice_eq]

theorem slice_write_nul (m : Mem) (o : Nat) (bs : Bytes) :
    (m.write o (bs ++ [0])).slice 0 (o + bs.length) = m.slice 0 o ++ bs := by
  have h := slice_write_end m o (bs ++ [0])
  rw [List.length_append, ← Nat.add_assoc, Mem.slice_add, ← List.append_assoc] at h
  exact (List.append_inj' h (by simp)).1

namespace JsonBuf

/-- Empty, or with a NUL behind the text. -/
def Valid (b : JsonBuf) : Prop := b.len = 0 ∨ b.len < b.nBytes

theorem text_length (b : JsonBuf) : b.text.length = b.len := Mem.slice_length ..

theorem text_eq_nil {b : JsonBuf} (h : b.len = 0) : b.text = [] := by
  rw [text, h, Mem.slice_zero]

section Store

variable (fresh : Nat → Mem)

theorem ensure_len (b : JsonBuf) (n : Nat) : (b.ensure fresh n).len = b.len := by
  unfold ensure
  split <;> rfl

theorem ensure_nBytes (b : JsonBuf) (n : Nat) (h1 : 1 ≤ n) (h : n ≤ 9223372036854775808) :
    n ≤ (b.ensure fresh n).nBytes := by
  unfold ensure
  split
  · exact le_nextPowerOfTwo n h1 h
  · omega

theorem set_spec (b : JsonBuf) (src : Bytes) (h : src.length < 9223372036854775808) :
    (b.set fresh src).text = src ∧ (b.set fresh src).len = src.length ∧
      src.length < (b.set fresh src).nBytes := by
  have hword : u64 (src.length + 1) = src.length + 1 := by rw [u64]; omega
  have hroom := ensure_nBytes fresh b (src.length + 1) (by omega) (by omega)
  refine ⟨?_, rfl, ?_⟩
  · have hwrite := slice_write_nul (b.ensure fresh (u64 (src.length + 1))).buf 0 src
    rw [Nat.zero_add, Mem.slice_zero, List.nil_append] at hwrite
    exact hwrite
  · simp only [set, hword]
    omega

theorem append_spec {b : JsonBuf} (hv : b.Valid) (src : Bytes)
    (h : b.len + src.length < 9223372036854775808) :
    (b.append fresh src).text = b.text ++ src ∧ (b.append fresh src).Valid := by
  have hword : u64 (src.length + 1) = src.length + 1 := by rw [u64]; omega
  have hsum : u64 (b.len + (src.length + 1)) = b.len + (src.length + 1) := by rw [u64]; omega
  have hlen : u64 (b.len + src.length) = b.len + src.length := by rw [u64]; omega
  unfold append text Valid
  simp only [hword, hsum]
  split
  · next hzero =>
    have hroom := ensure_nBytes fresh b (src.length + 1) (by omega) (by omega)
    simp only [ensure_len, hlen]
    refine ⟨?_, Or.inr (by omega)⟩
    rw [slice_write_nul, hzero, Mem.slice_zero, Mem.slice_zero]
  · next hzero =>
    have hfits : b.len < b.nBytes := hv.resolve_left hzero
    split
    all_goals simp only [hlen]
    · have hroom := le_nextPowerOfTwo (b.len + (src.length + 1)) (by omega) (by omega)
      refine ⟨?_, Or.inr (by omega)⟩
      have hkept : Holds (b.buf.copyPrefix (fresh (nextPowerOfTwo (b.len + (src.length + 1))))
          b.nBytes) 0 (b.buf.slice 0 b.len) := by
        apply Mem.holds_copyPrefix (holds_slice _ _ _)
        rw [Mem.slice_length]
        omega
      rw [slice_write_nul, hkept.slice_of_length (Mem.slice_length ..)]
    · refine ⟨?_, Or.inr (by omega)⟩
      rw [slice_write_nul]

end Store

end JsonBuf

end LibBson.Source
