import LibBson.Library.Utf8
import Mathlib.Data.Nat.Bitwise

/-!
# UTF-8 validation

Source: bson-utf8.c:41-232. `seq_length` and `first_mask` come from the first
octet; the loop advances by `seq_length`, here by dropping what it has read.
-/

set_option autoImplicit false

namespace LibBson.Source
open LibBson.Library

/-- Sequence length and mask of a first octet. -/
def bsonUtf8GetSequence (c : UInt8) : Nat × UInt8 :=
  if c &&& 0x80 = 0 then (1, 0x7F)
  else if c &&& 0xE0 = 0xC0 then (2, 0x1F)
  else if c &&& 0xF0 = 0xE0 then (3, 0x0F)
  else if c &&& 0xF8 = 0xF0 then (4, 0x07)
  else if c &&& 0xFC = 0xF8 then (5, 0x03)
  else if c &&& 0xFE = 0xFC then (6, 0x01)
  else (0, 0)

/-- The loop over the additional octets of a sequence, with the character so far. -/
def utf8Continue (c : Nat) : Bytes → Option Nat
  | [] => some c
  | b :: rest =>
    if b &&& 0xC0 ≠ 0x80 then none else utf8Continue (c <<< 6 ||| (b &&& 0x3F).toNat) rest

/-- The final `switch (seq_length)`: the shortest form, or the two-octet NUL. -/
def utf8Shortest (allowNull : Bool) (seqLength c : Nat) : Bool :=
  match seqLength with
  | 1 => c ≤ 0x007F
  | 2 => (0x0080 ≤ c && c ≤ 0x07FF) || (c == 0 && allowNull)
  | 3 => (0x0800 ≤ c && c ≤ 0x0FFF) || (0x1000 ≤ c && c ≤ 0xFFFF)
  | 4 => (0x10000 ≤ c && c ≤ 0x3FFFF) || (0x40000 ≤ c && c ≤ 0xFFFFF) ||
      (0x100000 ≤ c && c ≤ 0x10FFFF)
  | _ => false

/-- One turn of the loop: what is left behind a valid sequence. -/
def utf8Sequence (allowNull : Bool) (utf8 : Bytes) : Option Bytes :=
  let (seqLength, firstMask) := bsonUtf8GetSequence (utf8.headD 0)
  if seqLength = 0 then none
  else if utf8.length < seqLength then none
  else
    match utf8Continue (utf8.headD 0 &&& firstMask).toNat (utf8.take seqLength).tail with
    | none => none
    | some c =>
      if allowNull = false ∧ 0 ∈ utf8.take seqLength then none
      else if c > 0x0010FFFF then none
      else if c &&& 0xFFFFF800 = 0xD800 then none
      else if utf8Shortest allowNull seqLength c then some (utf8.drop seqLength)
      else none

/-- At most one turn for each octet. -/
def utf8Loop (allowNull : Bool) : Nat → Bytes → Bool
  | _, [] => true
  | 0, _ => false
  | fuel + 1, utf8 =>
    match utf8Sequence allowNull utf8 with
    | none => false
    | some rest => utf8Loop allowNull fuel rest

def bsonUtf8Validate (utf8 : Bytes) (allowNull : Bool) : Bool :=
  utf8Loop allowNull utf8.length utf8

/-! ## One turn accepts one character -/

theorem getSequence_table : ∀ n < 256,
    bsonUtf8GetSequence (UInt8.ofNat n) =
      if n < 0x80 then (1, 0x7F) else if n < 0xC0 then (0, 0) else if n < 0xE0 then (2, 0x1F)
      else if n < 0xF0 then (3, 0x0F) else if n < 0xF8 then (4, 0x07)
      else if n < 0xFC then (5, 0x03) else if n < 0xFE then (6, 0x01) else (0, 0) := by
  decide +kernel

theorem getSequence_eq (b : UInt8) :
    bsonUtf8GetSequence b =
      if b.toNat < 0x80 then (1, 0x7F) else if b.toNat < 0xC0 then (0, 0)
      else if b.toNat < 0xE0 then (2, 0x1F) else if b.toNat < 0xF0 then (3, 0x0F)
      else if b.toNat < 0xF8 then (4, 0x07) else if b.toNat < 0xFC then (5, 0x03)
      else if b.toNat < 0xFE then (6, 0x01) else (0, 0) := by
  have h := getSequence_table b.toNat b.toNat_lt
  rwa [UInt8.ofNat_toNat] at h

theorem and_mask_table : ∀ n < 256,
    (UInt8.ofNat n &&& 0x7F).toNat = n % 128 ∧ (UInt8.ofNat n &&& 0x3F).toNat = n % 64 ∧
      (UInt8.ofNat n &&& 0x1F).toNat = n % 32 ∧ (UInt8.ofNat n &&& 0x0F).toNat = n % 16 ∧
      (UInt8.ofNat n &&& 0x07).toNat = n % 8 ∧
      (UInt8.ofNat n &&& 0xC0 = 0x80 ↔ 0x80 ≤ n ∧ n < 0xC0) := by
  decide +kernel

theorem and_mask (b : UInt8) :
    (b &&& 0x7F).toNat = b.toNat % 128 ∧ (b &&& 0x3F).toNat = b.toNat % 64 ∧
      (b &&& 0x1F).toNat = b.toNat % 32 ∧ (b &&& 0x0F).toNat = b.toNat % 16 ∧
      (b &&& 0x07).toNat = b.toNat % 8 ∧ (b &&& 0xC0 = 0x80 ↔ IsTail b) := by
  have h := and_mask_table b.toNat b.toNat_lt
  rwa [UInt8.ofNat_toNat] at h

theorem shift_or (c : Nat) (b : UInt8) :
    c <<< 6 ||| (b &&& 0x3F).toNat = c * 64 + b.toNat % 64 := by
  rw [(and_mask b).2.1, ← Nat.shiftLeft_add_eq_or_of_lt (Nat.mod_lt _ (by decide)),
    Nat.shiftLeft_eq]

/-- What the continuation octets `bs` add to `c`. -/
def tailValue (c : Nat) (bs : Bytes) : Nat :=
  bs.foldl (fun c b => c * 64 + (b.toNat - 0x80)) c

theorem utf8Continue_eq_some (c d : Nat) (bs : Bytes) :
    utf8Continue c bs = some d ↔ (∀ b ∈ bs, IsTail b) ∧ d = tailValue c bs := by
  induction bs generalizing c with
  | nil => simp [utf8Continue, tailValue, eq_comm]
  | cons b bs ih =>
    rw [utf8Continue, shift_or]
    split
    · next hb =>
      have hn : ¬ IsTail b := fun h => hb ((and_mask b).2.2.2.2.2.mpr h)
      simp [hn]
    · next hb =>
      have ht : IsTail b := (and_mask b).2.2.2.2.2.mp (not_not.mp hb)
      have hm : b.toNat % 64 = b.toNat - 0x80 := by
        obtain ⟨h1, h2⟩ := ht
        omega
      rw [ih, hm]
      simp [ht, tailValue]

/-- `c & 0xFFFFF800` clears the low 11 bits of a 32-bit word. -/
theorem and_high_bits (c : Nat) (h : c < 4294967296) :
    c &&& 0xFFFFF800 = c / 2048 * 2048 := by
  have hmask : 0xFFFFF800 = (2 ^ 21 - 1) <<< 11 := by decide
  have hlt : c >>> 11 < 2 ^ 21 := by
    rw [Nat.shiftRight_eq_div_pow]
    omega
  have hand : c &&& (2 ^ 21 - 1) <<< 11 = (c >>> 11 &&& (2 ^ 21 - 1)) <<< 11 := by
    apply Nat.eq_of_testBit_eq
    intro i
    simp only [Nat.testBit_and, Nat.testBit_shiftLeft, Nat.testBit_shiftRight,
      Nat.testBit_two_pow_sub_one]
    by_cases hi : 11 ≤ i
    · simp [hi]
    · simp [hi]
  rw [hmask, hand, Nat.and_two_pow_sub_one_eq_mod, Nat.mod_eq_of_lt hlt, Nat.shiftLeft_eq,
    Nat.shiftRight_eq_div_pow]

theorem surrogate_mask (c : Nat) (h : c ≤ 0x10FFFF) :
    c &&& 0xFFFFF800 = 0xD800 ↔ 0xD800 ≤ c ∧ c < 0xE000 := by
  rw [and_high_bits c (by omega)]
  omega

/-- A turn on a sequence of `n + 1` octets. -/
theorem utf8Sequence_eq_some (allowNull : Bool) (b : UInt8) (bs rest : Bytes) (n : Nat)
    (mask : UInt8) (hseq : bsonUtf8GetSequence b = (n + 1, mask)) :
    utf8Sequence allowNull (b :: bs) = some rest ↔
      n ≤ bs.length ∧ (∀ t ∈ bs.take n, IsTail t) ∧ rest = bs.drop n ∧
      Scalar (tailValue (b &&& mask).toNat (bs.take n)) ∧ (allowNull = false → b ≠ 0) ∧
      utf8Shortest allowNull (n + 1) (tailValue (b &&& mask).toNat (bs.take n)) = true := by
  simp only [utf8Sequence, List.headD_cons, hseq, List.length_cons, List.take_succ_cons,
    List.tail_cons, List.drop_succ_cons]
  rw [if_neg (by omega)]
  by_cases hlen : n ≤ bs.length
  · rw [if_neg (by omega)]
    cases hc : utf8Continue (b &&& mask).toNat (bs.take n) with
    | none =>
      have hnone : ¬ ∀ t ∈ bs.take n, IsTail t := fun h => by
        rw [(utf8Continue_eq_some _ _ _).mpr ⟨h, rfl⟩] at hc
        cases hc
      simp [hnone]
    | some c =>
      obtain ⟨htail, rfl⟩ := (utf8Continue_eq_some _ _ _).mp hc
      have hzero : 0 ∈ b :: bs.take n ↔ b = 0 := by
        simp only [List.mem_cons]
        constructor
        · rintro (h | h)
          · exact h.symm
          · exact absurd (htail 0 h).1 (by decide)
        · intro h
          exact Or.inl h.symm
      simp only [hzero, hlen, true_and, Scalar]
      generalize tailValue (b &&& mask).toNat (bs.take n) = c
      split_ifs with h1 h2 h3 h4
      · simp [h1]
      · simp; omega
      · have hs := (surrogate_mask c (by omega)).mp h3
        simp; omega
      · have hs := mt (surrogate_mask c (by omega)).mpr h3
        have hb : allowNull = false → b ≠ 0 := fun ha hb => h1 ⟨ha, hb⟩
        simp only [Option.some.injEq, h4, and_true, eq_comm]
        exact ⟨fun h => ⟨htail, h, ⟨by omega, hs⟩, hb⟩, fun h => h.2.1⟩
      · simp [h4]
  · rw [if_pos (by omega)]
    simp [hlen]

theorem utf8Sequence_one {allowNull : Bool} {b : UInt8} {bs rest : Bytes} (hb : b.toNat < 0x80) :
    utf8Sequence allowNull (b :: bs) = some rest ↔ rest = bs ∧ (allowNull = false → b ≠ 0) := by
  have hseq := getSequence_eq b
  rw [if_pos hb] at hseq
  rw [utf8Sequence_eq_some _ _ _ _ 0 _ hseq]
  have hm := (and_mask b).1
  simp only [List.take_zero, tailValue, List.foldl_nil, hm, Scalar, utf8Shortest, List.drop_zero,
    decide_eq_true_eq]
  constructor
  · rintro ⟨-, -, h1, -, h2, -⟩
    exact ⟨h1, h2⟩
  · rintro ⟨h1, h2⟩
    exact ⟨Nat.zero_le _, by simp, h1, ⟨by omega, by omega⟩, h2, by omega⟩

theorem utf8Sequence_two {allowNull : Bool} {b b1 : UInt8} {bs rest : Bytes}
    (hb : 0xC0 ≤ b.toNat) (hb' : b.toNat < 0xE0) :
    utf8Sequence allowNull (b :: b1 :: bs) = some rest ↔
      rest = bs ∧ IsTail b1 ∧
        (0x80 ≤ (b.toNat - 0xC0) * 64 + (b1.toNat - 0x80) ∨
          (b.toNat - 0xC0) * 64 + (b1.toNat - 0x80) = 0 ∧ allowNull = true) := by
  have hseq := getSequence_eq b
  rw [if_neg (by omega), if_neg (by omega), if_pos (by omega)] at hseq
  rw [utf8Sequence_eq_some _ _ _ _ 1 _ hseq]
  have hm := (and_mask b).2.2.1
  have hv : b.toNat % 32 = b.toNat - 0xC0 := by omega
  have hne : b ≠ 0 := by
    rintro rfl
    exact absurd hb (by decide)
  simp only [List.take_succ_cons, List.take_zero, tailValue, List.foldl_cons, List.foldl_nil, hm, hv,
    Scalar, utf8Shortest, List.drop_succ_cons, List.drop_zero, List.mem_singleton, forall_eq,
    Bool.or_eq_true, Bool.and_eq_true, decide_eq_true_eq, beq_iff_eq]
  constructor
  · rintro ⟨-, h1, h2, -, -, h3⟩
    exact ⟨h2, h1, h3.imp And.left id⟩
  · rintro ⟨h1, h2, h3⟩
    obtain ⟨l1, u1⟩ := h2
    exact ⟨by simp, ⟨l1, u1⟩, h1, ⟨by omega, by omega⟩, fun _ => hne,
      h3.imp (fun h => ⟨h, by omega⟩) id⟩

theorem utf8Sequence_three {allowNull : Bool} {b b1 b2 : UInt8} {bs rest : Bytes}
    (hb : 0xE0 ≤ b.toNat) (hb' : b.toNat < 0xF0) :
    utf8Sequence allowNull (b :: b1 :: b2 :: bs) = some rest ↔
      rest = bs ∧ IsTail b1 ∧ IsTail b2 ∧
        0x800 ≤ ((b.toNat - 0xE0) * 64 + (b1.toNat - 0x80)) * 64 + (b2.toNat - 0x80) ∧
        Scalar (((b.toNat - 0xE0) * 64 + (b1.toNat - 0x80)) * 64 + (b2.toNat - 0x80)) := by
  have hseq := getSequence_eq b
  rw [if_neg (by omega), if_neg (by omega), if_neg (by omega), if_pos (by omega)] at hseq
  rw [utf8Sequence_eq_some _ _ _ _ 2 _ hseq]
  have hm := (and_mask b).2.2.2.1
  have hv : b.toNat % 16 = b.toNat - 0xE0 := by omega
  have hne : b ≠ 0 := by
    rintro rfl
    exact absurd hb (by decide)
  simp only [List.take_succ_cons, List.take_zero, tailValue, List.foldl_cons, List.foldl_nil, hm, hv,
    utf8Shortest, List.drop_succ_cons, List.drop_zero, List.mem_cons, List.not_mem_nil, or_false,
    forall_eq_or_imp, forall_eq, Bool.or_eq_true, Bool.and_eq_true, decide_eq_true_eq]
  constructor
  · rintro ⟨-, ⟨h1, h2⟩, h3, h4, -, h5⟩
    exact ⟨h3, h1, h2, by omega, h4⟩
  · rintro ⟨h1, h2, h3, h4, h5⟩
    obtain ⟨l1, u1⟩ := h2
    obtain ⟨l2, u2⟩ := h3
    exact ⟨by simp, ⟨⟨l1, u1⟩, ⟨l2, u2⟩⟩, h1, h5, fun _ => hne, by omega⟩

theorem utf8Sequence_four {allowNull : Bool} {b b1 b2 b3 : UInt8} {bs rest : Bytes}
    (hb : 0xF0 ≤ b.toNat) (hb' : b.toNat < 0xF8) :
    utf8Sequence allowNull (b :: b1 :: b2 :: b3 :: bs) = some rest ↔
      rest = bs ∧ IsTail b1 ∧ IsTail b2 ∧ IsTail b3 ∧
        0x10000 ≤ (((b.toNat - 0xF0) * 64 + (b1.toNat - 0x80)) * 64 + (b2.toNat - 0x80)) * 64 +
          (b3.toNat - 0x80) ∧
        Scalar ((((b.toNat - 0xF0) * 64 + (b1.toNat - 0x80)) * 64 + (b2.toNat - 0x80)) * 64 +
          (b3.toNat - 0x80)) := by
  have hseq := getSequence_eq b
  rw [if_neg (by omega), if_neg (by omega), if_neg (by omega), if_neg (by omega),
    if_pos (by omega)] at hseq
  rw [utf8Sequence_eq_some _ _ _ _ 3 _ hseq]
  have hm := (and_mask b).2.2.2.2.1
  have hv : b.toNat % 8 = b.toNat - 0xF0 := by omega
  have hne : b ≠ 0 := by
    rintro rfl
    exact absurd hb (by decide)
  simp only [List.take_succ_cons, List.take_zero, tailValue, List.foldl_cons, List.foldl_nil, hm, hv,
    utf8Shortest, List.drop_succ_cons, List.drop_zero, List.mem_cons, List.not_mem_nil, or_false,
    forall_eq_or_imp, forall_eq, Bool.or_eq_true, Bool.and_eq_true, decide_eq_true_eq]
  constructor
  · rintro ⟨-, ⟨h1, h2, h3⟩, h4, h5, -, h6⟩
    exact ⟨h4, h1, h2, h3, by omega, h5⟩
  · rintro ⟨h1, h2, h3, h4, h5, h6⟩
    obtain ⟨l1, u1⟩ := h2
    obtain ⟨l2, u2⟩ := h3
    obtain ⟨l3, u3⟩ := h4
    have hmax := h6.1
    exact ⟨by simp, ⟨⟨l1, u1⟩, ⟨l2, u2⟩, ⟨l3, u3⟩⟩, h1, h6, fun _ => hne, by omega⟩

/-- A sequence that is too short, or has a first octet no form starts with, is refused. -/
theorem utf8Sequence_length {allowNull : Bool} {b : UInt8} {bs rest : Bytes}
    (h : utf8Sequence allowNull (b :: bs) = some rest) :
    b.toNat < 0x80 ∨ (0xC0 ≤ b.toNat ∧ b.toNat < 0xE0 ∧ 1 ≤ bs.length) ∨
      (0xE0 ≤ b.toNat ∧ b.toNat < 0xF0 ∧ 2 ≤ bs.length) ∨
      0xF0 ≤ b.toNat ∧ b.toNat < 0xF8 ∧ 3 ≤ bs.length := by
  have hseq := getSequence_eq b
  cases hg : bsonUtf8GetSequence b with
  | mk n mask =>
    cases n with
    | zero => simp [utf8Sequence, hg] at h
    | succ n =>
      obtain ⟨h1, -, -, -, -, h2⟩ := (utf8Sequence_eq_some _ _ _ _ n _ hg).mp h
      rw [hg] at hseq
      split_ifs at hseq <;> simp only [Prod.mk.injEq, Nat.add_eq_zero_iff, Nat.one_ne_zero, and_false,
        false_and] at hseq
      · omega
      · omega
      · omega
      · omega
      · obtain rfl : n = 4 := by omega
        cases h2
      · obtain rfl : n = 5 := by omega
        cases h2

/-- What one turn takes off: a character, or the two-octet NUL. -/
def Leads (allowNull : Bool) (s rest : Bytes) : Prop :=
  (∃ c, Scalar c ∧ (c = 0 → allowNull = true) ∧ s = utf8Encode c ++ rest) ∨
    allowNull = true ∧ s = 0xC0 :: 0x80 :: rest

theorem leads_of_sequence {allowNull : Bool} {s rest : Bytes}
    (h : utf8Sequence allowNull s = some rest) : Leads allowNull s rest := by
  cases s with
  | nil => cases allowNull <;> simp [utf8Sequence, bsonUtf8GetSequence] at h
  | cons b bs =>
    rcases utf8Sequence_length h with h1 | ⟨h1, h1', hl⟩ | ⟨h1, h1', hl⟩ | ⟨h1, h1', hl⟩
    · obtain ⟨rfl, hn⟩ := (utf8Sequence_one h1).mp h
      refine Or.inl ⟨b.toNat, ⟨by omega, by omega⟩, fun hz => ?_, ?_⟩
      · cases ha : allowNull with
        | true => rfl
        | false => exact absurd (UInt8.toNat_inj.mp (by simpa using hz)) (hn ha)
      · simp [utf8Encode, h1]
    · obtain ⟨b1, bs, rfl⟩ := List.exists_cons_of_length_pos (show 0 < bs.length by omega)
      obtain ⟨rfl, t1, hc⟩ := (utf8Sequence_two h1 h1').mp h
      have t1' := t1
      obtain ⟨l1, u1⟩ := t1'
      rcases hc with hc | ⟨hz, ha⟩
      · exact Or.inl ⟨(b.toNat - 0xC0) * 64 + (b1.toNat - 0x80), ⟨by omega, by omega⟩, by omega,
          by rw [utf8Encode_two h1 h1' t1 rfl hc]; rfl⟩
      · have hb : b = 0xC0 := UInt8.toNat_inj.mp (show b.toNat = 0xC0 by omega)
        have hb1 : b1 = 0x80 := UInt8.toNat_inj.mp (show b1.toNat = 0x80 by omega)
        exact Or.inr ⟨ha, by rw [hb, hb1]⟩
    · obtain ⟨b1, bs, rfl⟩ := List.exists_cons_of_length_pos (show 0 < bs.length by omega)
      obtain ⟨b2, bs, rfl⟩ := List.exists_cons_of_length_pos
        (show 0 < bs.length by simp at hl; omega)
      obtain ⟨rfl, t1, t2, hmin, hs⟩ := (utf8Sequence_three h1 h1').mp h
      exact Or.inl ⟨_, hs, by omega, by rw [utf8Encode_three h1 h1' t1 t2 rfl hmin]; rfl⟩
    · obtain ⟨b1, bs, rfl⟩ := List.exists_cons_of_length_pos (show 0 < bs.length by omega)
      obtain ⟨b2, bs, rfl⟩ := List.exists_cons_of_length_pos
        (show 0 < bs.length by simp at hl; omega)
      obtain ⟨b3, bs, rfl⟩ := List.exists_cons_of_length_pos
        (show 0 < bs.length by simp at hl; omega)
      obtain ⟨rfl, t1, t2, t3, hmin, hs⟩ := (utf8Sequence_four h1 h1').mp h
      exact Or.inl ⟨_, hs, by omega, by rw [utf8Encode_four h1 h1' t1 t2 t3 rfl hmin]; rfl⟩

theorem sequence_of_leads {allowNull : Bool} {s rest : Bytes} (h : Leads allowNull s rest) :
    utf8Sequence allowNull s = some rest := by
  rcases h with ⟨c, hs, hn, rfl⟩ | ⟨ha, rfl⟩
  · have hs' := hs
    obtain ⟨hmax, -⟩ := hs'
    unfold utf8Encode
    split_ifs with h1 h2 h3
    · have t0 := toNat_ofNat_of_lt (show c < 256 by omega)
      refine (utf8Sequence_one (by omega)).mpr ⟨rfl, fun ha hz => ?_⟩
      rw [hz] at t0
      have ht := hn t0.symm
      rw [ha] at ht
      cases ht
    · have t0 := toNat_ofNat_of_lt (show 0xC0 + c / 64 < 256 by omega)
      have t1 := toNat_ofNat_of_lt (show 0x80 + c % 64 < 256 by omega)
      exact (utf8Sequence_two (by omega) (by omega)).mpr
        ⟨rfl, ⟨by omega, by omega⟩, Or.inl (by omega)⟩
    · have t0 := toNat_ofNat_of_lt (show 0xE0 + c / 4096 < 256 by omega)
      have t1 := toNat_ofNat_of_lt (show 0x80 + c / 64 % 64 < 256 by omega)
      have t2 := toNat_ofNat_of_lt (show 0x80 + c % 64 < 256 by omega)
      refine (utf8Sequence_three (by omega) (by omega)).mpr
        ⟨rfl, ⟨by omega, by omega⟩, ⟨by omega, by omega⟩, by omega, ?_⟩
      rw [t0, t1, t2]
      convert hs using 1
      omega
    · have t0 := toNat_ofNat_of_lt (show 0xF0 + c / 262144 < 256 by omega)
      have t1 := toNat_ofNat_of_lt (show 0x80 + c / 4096 % 64 < 256 by omega)
      have t2 := toNat_ofNat_of_lt (show 0x80 + c / 64 % 64 < 256 by omega)
      have t3 := toNat_ofNat_of_lt (show 0x80 + c % 64 < 256 by omega)
      refine (utf8Sequence_four (by omega) (by omega)).mpr
        ⟨rfl, ⟨by omega, by omega⟩, ⟨by omega, by omega⟩, ⟨by omega, by omega⟩, by omega, ?_⟩
      rw [t0, t1, t2, t3]
      convert hs using 1
      omega
  · exact (utf8Sequence_two (by decide) (by decide)).mpr
      ⟨rfl, ⟨by decide, by decide⟩, Or.inr ⟨by decide, ha⟩⟩

/-- Every turn takes at least one octet. -/
theorem Leads.length_lt {allowNull : Bool} {s rest : Bytes} (h : Leads allowNull s rest) :
    rest.length < s.length := by
  rcases h with ⟨c, -, -, rfl⟩ | ⟨-, rfl⟩
  · unfold utf8Encode
    split_ifs <;> simp only [List.length_append, List.length_cons, List.length_nil] <;> omega
  · simp only [List.length_cons]
    omega

theorem utf8Text_cons_iff {allowNull : Bool} {s : Bytes} (hne : s ≠ []) :
    Utf8Text allowNull s ↔ ∃ rest, Leads allowNull s rest ∧ Utf8Text allowNull rest := by
  constructor
  · intro h
    cases h with
    | nil => exact absurd rfl hne
    | char c rest hc hn hs => exact ⟨rest, Or.inl ⟨c, hc, hn, rfl⟩, hs⟩
    | nul rest hn hs => exact ⟨rest, Or.inr ⟨hn, rfl⟩, hs⟩
  · rintro ⟨rest, ⟨c, hc, hn, rfl⟩ | ⟨hn, rfl⟩, hs⟩
    · exact .char c rest hc hn hs
    · exact .nul rest hn hs

theorem utf8Loop_iff (allowNull : Bool) (fuel : Nat) (s : Bytes) (h : s.length ≤ fuel) :
    utf8Loop allowNull fuel s = true ↔ Utf8Text allowNull s := by
  induction fuel generalizing s with
  | zero =>
    obtain rfl := List.length_eq_zero_iff.mp (Nat.le_zero.mp h)
    exact ⟨fun _ => .nil, fun _ => rfl⟩
  | succ fuel ih =>
    cases s with
    | nil => exact ⟨fun _ => .nil, fun _ => rfl⟩
    | cons b bs =>
      rw [utf8Text_cons_iff (List.cons_ne_nil b bs), utf8Loop]
      · cases hseq : utf8Sequence allowNull (b :: bs) with
        | none =>
          simp only [Bool.false_eq_true, false_iff]
          rintro ⟨rest, hl, -⟩
          rw [sequence_of_leads hl] at hseq
          cases hseq
        | some rest =>
          have hl := leads_of_sequence hseq
          have hlt := hl.length_lt
          rw [ih rest (by omega)]
          constructor
          · intro hr
            exact ⟨rest, hl, hr⟩
          · rintro ⟨rest', hl', hr⟩
            rw [sequence_of_leads hl'] at hseq
            cases hseq
            exact hr
      · exact List.cons_ne_nil b bs

/-- The validator accepts exactly UTF-8 text, with NUL as `allow_null` says. -/
theorem bsonUtf8Validate_iff (utf8 : Bytes) (allowNull : Bool) :
    bsonUtf8Validate utf8 allowNull = true ↔ Utf8Text allowNull utf8 :=
  utf8Loop_iff allowNull utf8.length utf8 (Nat.le_refl _)

end LibBson.Source
