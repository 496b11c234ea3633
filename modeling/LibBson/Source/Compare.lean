import LibBson.Library.ByteOrder
import LibBson.Library.Word
import LibBson.Source.DecodeLaws
import LibBson.Source.Reader
import LibBson.Spec.Builds

/-!
# `bson_compare`

Source: bson.c:2444-2483. The lengths are `uint32_t`, their difference is taken in
`size_t` and cast to `int64_t`.
-/

set_option autoImplicit false

namespace LibBson.Source
open LibBson.Library LibBson.Spec

/-- The width of `size_t`. -/
inductive SizeT where
  | bits32
  | bits64
  deriving DecidableEq

def SizeT.modulus : SizeT → Nat
  | bits32 => 4294967296
  | bits64 => 18446744073709551616

/-- `a - b` in `size_t`. -/
def SizeT.sub (w : SizeT) (a b : Nat) : Nat := (((a : Int) - b) % w.modulus).toNat

def bsonCompare (w : SizeT) (bson other : BsonRef) : Int :=
  let data1 := bson.data.shift 4
  let len1 := u32sub bson.len 4
  let data2 := other.data.shift 4
  let len2 := u32sub other.len 4
  if len1 = len2 then memcmp (data1.slice 0 len1) (data2.slice 0 len1)
  else
    let ret := memcmp (data1.slice 0 (min len1 len2)) (data2.slice 0 (min len1 len2))
    let ret := if ret = 0 then i64 (w.sub len1 len2) else ret
    if ret < 0 then -1 else if ret > 0 then 1 else 0

def bsonEqual (w : SizeT) (bson other : BsonRef) : Bool := bsonCompare w bson other == 0

/-- A `bson_t` whose octets `bson_init_static` accepts. -/
def BsonRef.Accepted (b : BsonRef) : Prop := bsonInitStatic b.data b.len = some b

/-- The octets behind the length. -/
def BsonRef.content (b : BsonRef) : Bytes := b.data.slice 4 (b.len - 4)

namespace BsonRef.Accepted

variable {a b : BsonRef}

theorem bounds (h : b.Accepted) :
    5 ≤ b.len ∧ b.len ≤ 2147483647 ∧ Holds b.data 0 (leBytes 4 b.len) := by
  unfold Accepted bsonInitStatic at h
  split at h
  · cases h
  · next hlen =>
    split at h
    · cases h
    · next hword =>
      have hle : b.data.le 0 4 = b.len := Decidable.not_not.mp hword
      have hholds := holds_le b.data 0 4
      rw [hle] at hholds
      exact ⟨by omega, by omega, hholds⟩

theorem len_eq (h : b.Accepted) : u32sub b.len 4 = b.len - 4 := by
  obtain ⟨hleast, hmost, -⟩ := h.bounds
  unfold u32sub
  omega

theorem octets_eq (h : b.Accepted) : b.octets = leBytes 4 b.len ++ b.content := by
  obtain ⟨hleast, -, hword⟩ := h.bounds
  have hsum : b.len = 4 + (b.len - 4) := by omega
  unfold BsonRef.octets content
  conv => lhs; rw [hsum]
  rw [Mem.slice_add, Nat.zero_add, hword.slice_of_length (leBytes_length 4 b.len)]

/-- The content tells the rest. -/
theorem octets_iff (ha : a.Accepted) (hb : b.Accepted) :
    a.octets = b.octets ↔ a.content = b.content := by
  obtain ⟨hleasta, -, -⟩ := ha.bounds
  obtain ⟨hleastb, -, -⟩ := hb.bounds
  rw [ha.octets_eq, hb.octets_eq]
  constructor
  · intro h
    exact (List.append_inj h (by rw [leBytes_length, leBytes_length])).2
  · intro h
    have hlen := congrArg List.length h
    rw [content, content, Mem.slice_length, Mem.slice_length] at hlen
    rw [h, show a.len = b.len by omega]

end BsonRef.Accepted

/-- The content of `a` is where the content of `b` begins. -/
def BsonRef.Cut (a b : BsonRef) : Prop :=
  a.content.length < b.content.length ∧ a.content <+: b.content

section Compare

variable {a b : BsonRef}

theorem content_length (b : BsonRef) : b.content.length = b.len - 4 := Mem.slice_length ..

/-- The whole comparison in terms of the contents. -/
theorem bsonCompare_eq (w : SizeT) (ha : a.Accepted) (hb : b.Accepted) :
    bsonCompare w a b =
      if a.len = b.len then memcmp a.content b.content
      else
        Int.sign
          (if memcmp a.content b.content = 0 then i64 (w.sub (a.len - 4) (b.len - 4))
          else memcmp a.content b.content) := by
  obtain ⟨hleasta, -, -⟩ := ha.bounds
  obtain ⟨hleastb, -, -⟩ := hb.bounds
  have hsign : ∀ r : Int, (if r < 0 then -1 else if r > 0 then 1 else 0) = Int.sign r := by
    intro r
    split
    · next h => rw [Int.sign_eq_neg_one_of_neg h]
    · split
      · next h => rw [Int.sign_eq_one_of_pos h]
      · next h => rw [show r = 0 by omega, Int.sign_zero]
  unfold bsonCompare
  simp only [ha.len_eq, hb.len_eq, Mem.slice_shift, Nat.add_zero]
  by_cases heq : a.len = b.len
  · rw [if_pos (by omega), if_pos heq, heq, BsonRef.content, heq]
    rfl
  · have htake : ∀ c : BsonRef, min (a.len - 4) (b.len - 4) ≤ c.len - 4 →
        c.data.slice 4 (min (a.len - 4) (b.len - 4)) =
          c.content.take (min (a.len - 4) (b.len - 4)) := by
      intro c hc
      rw [BsonRef.content, ← Nat.sub_add_cancel hc, Nat.add_comm, Mem.slice_add,
        List.take_left' (Mem.slice_length ..)]
    rw [if_neg (by omega), if_neg heq, htake a (Nat.min_le_left ..), htake b (Nat.min_le_right ..),
      memcmp_take _ _ (by rw [content_length, content_length]), hsign]

end Compare

/-! ## Trees -/

/-- The octets of a value tell where it ends. -/
theorem Layout.stop_unique {m : Mem} {len o p q : Nat} {t : BsonType} (hp : Layout m len o p t)
    (hq : Layout m len o q t) : p = q := by
  cases t
  case regex =>
    obtain ⟨i, j, hi, hj, rfl, hi0, hj0, hin, hjn⟩ := hp
    obtain ⟨i', j', hi', hj', rfl, hi0', hj0', hin', hjn'⟩ := hq
    have heq : i = i' := by
      rcases Nat.lt_trichotomy i i' with hlt | heq | hlt
      · exact absurd hi0 (hin' i hi hlt)
      · exact heq
      · exact absurd hi0' (hin i' hi' hlt)
    subst heq
    rcases Nat.lt_trichotomy j j' with hlt | heq | hlt
    · exact absurd hj0 (hjn' j hj hlt)
    · rw [heq]
    · exact absurd hj0' (hjn j' hj' hlt)
  case eod => exact hp.elim
  all_goals
    simp only [Layout] at hp hq
    omega

/-- No document's elements go on where those of another end. -/
theorem body_length_unique (d e : Doc) {m : Mem} {len o : Nat} (hd : Holds m o (d.body ++ [0]))
    (he : Holds m o (e.body ++ [0])) (hlen : o + d.body.length < len)
    (hlen' : o + e.body.length < len) (hmax : len ≤ maxLen) : d.body.length = e.body.length := by
  match d, e with
  | .nil, .nil => rfl
  | .nil, .cons k v rest =>
    rw [Doc.body_nil, List.nil_append, holds_cons] at hd
    rw [Doc.body_cons, header, List.cons_append, List.cons_append, holds_cons] at he
    exact absurd (he.1.symm.trans hd.1) (BsonType.toByte_ne_zero v.type_ne_eod)
  | .cons k v rest, .nil =>
    rw [Doc.body_nil, List.nil_append, holds_cons] at he
    rw [Doc.body_cons, header, List.cons_append, List.cons_append, holds_cons] at hd
    exact absurd (hd.1.symm.trans he.1) (BsonType.toByte_ne_zero v.type_ne_eod)
  | .cons k v rest, .cons k' v' rest' =>
    rw [Doc.body_cons] at hd he hlen hlen'
    simp only [List.append_assoc, List.length_append, header_length] at hd he hlen hlen'
    rw [header, List.cons_append, holds_cons, List.append_assoc, holds_append, List.cons_append,
      holds_cons, List.nil_append, holds_append] at hd he
    obtain ⟨htype, hkey, hnul, hval, hrest⟩ := hd
    obtain ⟨htype', hkey', hnul', hval', hrest'⟩ := he
    have hsame : v.type = v'.type := BsonType.toByte_injective (htype.symm.trans htype')
    have hk : k.bytes.length = k'.bytes.length := by
      rcases Nat.lt_trichotomy k.bytes.length k'.bytes.length with hlt | heq | hlt
      · have hget := hkey'.get k.bytes.length hlt
        rw [hnul] at hget
        exact absurd (hget ▸ List.getElem_mem _) k'.noNul
      · exact heq
      · have hget := hkey.get k'.bytes.length hlt
        rw [hnul'] at hget
        exact absurd (hget ▸ List.getElem_mem _) k.noNul
    rw [← hk] at hval' hrest'
    have hlay := layout_of_encode hval (by omega) hmax
    have hlay' := layout_of_encode hval' (by omega) hmax
    rw [← hsame] at hlay'
    have hv : v.encode.length = v'.encode.length := Nat.add_left_cancel (hlay.stop_unique hlay')
    rw [← hv] at hrest'
    have hbody := body_length_unique rest rest' hrest hrest' (by omega) (by omega) hmax
    simp only [Doc.body_cons, List.length_append, header_length]
    omega

/-- The content of a document is not where that of another begins. -/
theorem not_cut_of_encodes {a b : BsonRef} {d e : Doc} (ha : Encodes a d) (hb : Encodes b e)
    (hmax : b.len ≤ 2147483647) : ¬ a.Cut b := by
  intro ⟨hlt, hpre⟩
  have hlena := ha.len_body
  have hlenb := hb.len_body
  have hcontent : ∀ {c : BsonRef} {f : Doc}, Encodes c f → c.content = f.body ++ [0] := by
    intro c f h
    have hlen := h.len_body
    exact h.elements.slice_of_length (by rw [List.length_append, List.length_singleton]; omega)
  rw [content_length, content_length] at hlt
  rw [hcontent ha, hcontent hb] at hpre
  obtain ⟨more, hmore⟩ := hpre
  have helements := hb.elements
  have hinside := hb.elements
  rw [← hmore, holds_append] at hinside
  have hsame := body_length_unique d e hinside.1 helements (by omega) (by omega)
    (show b.len ≤ maxLen from Nat.le_succ_of_le hmax)
  omega

end LibBson.Source
