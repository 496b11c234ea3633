import LibBson.Source.Utf8

/-!
# One character at a time

Source: bson-utf8.c:356-478. `utf8` holds the octets that can be read from the
pointer; a read behind them has no result. A `bson_unichar_t` has 32 bits, here
a number below `2 ^ 32`.
-/

set_option autoImplicit false

namespace LibBson.Source
open LibBson.Library

/-- The loop over `utf8[1]` to `utf8[num - 1]`: the octets are not checked. -/
def utf8Join (c : Nat) (bs : Bytes) : Nat := bs.foldl (fun c b => c <<< 6 ||| (b &&& 0x3F).toNat) c

def bsonUtf8GetChar (utf8 : Bytes) : Option Nat :=
  match utf8 with
  | [] => none
  | b :: rest =>
    let (num, mask) := bsonUtf8GetSequence b
    if rest.length + 1 < num then none else some (utf8Join (b &&& mask).toNat (rest.take (num - 1)))

/-- How far `bson_utf8_next_char` moves the pointer. -/
def bsonUtf8NextChar (utf8 : Bytes) : Option Nat :=
  match utf8 with
  | [] => none
  | b :: _ => some (bsonUtf8GetSequence b).1

/-- The octets stored at `utf8` and the value stored at `len`. -/
def bsonUtf8FromUnichar (unichar : Nat) : Bytes × Nat :=
  if unichar ≤ 0x7F then
    ([UInt8.ofNat unichar], 1)
  else if unichar ≤ 0x7FF then
    ([UInt8.ofNat (0xC0 ||| (unichar >>> 6 &&& 0x3F)),
      UInt8.ofNat (0x80 ||| (unichar &&& 0x3F))], 2)
  else if unichar ≤ 0xFFFF then
    ([UInt8.ofNat (0xE0 ||| (unichar >>> 12 &&& 0xF)),
      UInt8.ofNat (0x80 ||| (unichar >>> 6 &&& 0x3F)),
      UInt8.ofNat (0x80 ||| (unichar &&& 0x3F))], 3)
  else if unichar ≤ 0x1FFFFF then
    ([UInt8.ofNat (0xF0 ||| (unichar >>> 18 &&& 0x7)),
      UInt8.ofNat (0x80 ||| (unichar >>> 12 &&& 0x3F)),
      UInt8.ofNat (0x80 ||| (unichar >>> 6 &&& 0x3F)),
      UInt8.ofNat (0x80 ||| (unichar &&& 0x3F))], 4)
  else if unichar ≤ 0x3FFFFFF then
    ([UInt8.ofNat (0xF8 ||| (unichar >>> 24 &&& 0x3)),
      UInt8.ofNat (0x80 ||| (unichar >>> 18 &&& 0x3F)),
      UInt8.ofNat (0x80 ||| (unichar >>> 12 &&& 0x3F)),
      UInt8.ofNat (0x80 ||| (unichar >>> 6 &&& 0x3F)),
      UInt8.ofNat (0x80 ||| (unichar &&& 0x3F))], 5)
  else if unichar ≤ 0x7FFFFFFF then
    -- the shifts are one more than six bits an octet, and the last octet keeps one bit
    ([UInt8.ofNat (0xFC ||| (unichar >>> 31 &&& 0x1)),
      UInt8.ofNat (0x80 ||| (unichar >>> 25 &&& 0x3F)),
      UInt8.ofNat (0x80 ||| (unichar >>> 19 &&& 0x3F)),
      UInt8.ofNat (0x80 ||| (unichar >>> 13 &&& 0x3F)),
      UInt8.ofNat (0x80 ||| (unichar >>> 7 &&& 0x3F)),
      UInt8.ofNat (0x80 ||| (unichar &&& 0x1))], 6)
  else ([], 0)

/-! ## The bits of one octet -/

/-- A tag over a field of `s` bits. -/
theorem tag_or (k v s : Nat) : k <<< s ||| (v &&& (2 ^ s - 1)) = k * 2 ^ s + v % 2 ^ s := by
  rw [Nat.and_two_pow_sub_one_eq_mod,
    ← Nat.shiftLeft_add_eq_or_of_lt (Nat.mod_lt _ (Nat.two_pow_pos s)), Nat.shiftLeft_eq]

theorem tail_or (v : Nat) : 0x80 ||| (v &&& 0x3F) = 0x80 + v % 64 := tag_or 2 v 6

theorem shiftRight_div (v s : Nat) : v >>> s = v / 2 ^ s := Nat.shiftRight_eq_div_pow v s

theorem join_tail (c v : Nat) (bs : Bytes) :
    utf8Join c (UInt8.ofNat (0x80 + v % 64) :: bs) = utf8Join (c * 64 + v % 64) bs := by
  rw [utf8Join, List.foldl_cons, shift_or, toNat_ofNat_of_lt (by omega)]
  congr 2
  omega

@[simp] theorem join_nil (c : Nat) : utf8Join c [] = c := rfl

/-! ## The sequence a character gets -/

/-- The lead octet of a sequence of `num` octets over `v`. -/
def Lead (b : UInt8) (num v : Nat) : Prop :=
  (bsonUtf8GetSequence b).1 = num ∧ (b &&& (bsonUtf8GetSequence b).2).toNat = v

instance (b : UInt8) (num v : Nat) : Decidable (Lead b num v) := inferInstanceAs (Decidable (_ ∧ _))

theorem Lead.one : ∀ v < 0x80, Lead (UInt8.ofNat v) 1 v := by decide +kernel

theorem Lead.two : ∀ v < 32, Lead (UInt8.ofNat (0xC0 + v)) 2 v := by decide +kernel

theorem Lead.three : ∀ v < 16, Lead (UInt8.ofNat (0xE0 + v)) 3 v := by decide +kernel

theorem Lead.four : ∀ v < 8, Lead (UInt8.ofNat (0xF0 + v)) 4 v := by decide +kernel

theorem Lead.five : ∀ v < 4, Lead (UInt8.ofNat (0xF8 + v)) 5 v := by decide +kernel

theorem Lead.six : ∀ v < 2, Lead (UInt8.ofNat (0xFC + v)) 6 v := by decide +kernel

/-- `bs` is read as `c`, and passed as a whole, whatever stands behind it. -/
structure Decodes (bs : Bytes) (c : Nat) : Prop where
  getChar : ∀ rest, bsonUtf8GetChar (bs ++ rest) = some c
  nextChar : ∀ rest, bsonUtf8NextChar (bs ++ rest) = some bs.length

theorem Lead.decodes {b : UInt8} {num v : Nat} (h : Lead b num v) (bs : Bytes)
    (hnum : num = bs.length + 1) : Decodes (b :: bs) (utf8Join v bs) := by
  obtain ⟨hlen, hval⟩ := h
  subst hnum
  constructor
  · intro rest
    simp only [List.cons_append, bsonUtf8GetChar, hlen, hval, List.length_append]
    rw [if_neg (by omega)]
    simp
  · intro rest
    simp only [List.cons_append, bsonUtf8NextChar, hlen, List.length_cons]

/-- Only one character is read from a sequence. -/
theorem Decodes.unique {bs : Bytes} {c d : Nat} (hc : Decodes bs c) (hd : Decodes bs d) : c = d := by
  have h := hc.getChar []
  rw [hd.getChar []] at h
  exact (Option.some.inj h).symm

/-- Up to four octets, what is stored is the shortest form. -/
theorem bsonUtf8FromUnichar_encode {c : Nat} (h : c ≤ 0x1FFFFF) :
    bsonUtf8FromUnichar c = (utf8Encode c, (utf8Encode c).length) := by
  have h2 : 0xC0 ||| (c >>> 6 &&& 0x3F) = 0xC0 + c / 64 % 64 := by
    rw [shiftRight_div]
    exact tag_or 3 (c / 64) 6
  have h3 : 0xE0 ||| (c >>> 12 &&& 0xF) = 0xE0 + c / 4096 % 16 := by
    rw [shiftRight_div]
    exact tag_or 14 (c / 4096) 4
  have h4 : 0xF0 ||| (c >>> 18 &&& 0x7) = 0xF0 + c / 262144 % 8 := by
    rw [shiftRight_div]
    exact tag_or 30 (c / 262144) 3
  rw [bsonUtf8FromUnichar, h2, h3, h4]
  simp only [tail_or, shiftRight_div]
  by_cases h7 : c ≤ 0x7F
  · have he : utf8Encode c = [UInt8.ofNat c] := by rw [utf8Encode, if_pos (by omega)]
    rw [if_pos h7, he]
    rfl
  by_cases h11 : c ≤ 0x7FF
  · have he : utf8Encode c = [UInt8.ofNat (0xC0 + c / 64), UInt8.ofNat (0x80 + c % 64)] := by
      rw [utf8Encode, if_neg (by omega), if_pos (by omega)]
    rw [if_neg h7, if_pos h11, he, Nat.mod_eq_of_lt (by omega : c / 64 < 64)]
    rfl
  by_cases h16 : c ≤ 0xFFFF
  · have he : utf8Encode c = [UInt8.ofNat (0xE0 + c / 4096), UInt8.ofNat (0x80 + c / 64 % 64),
        UInt8.ofNat (0x80 + c % 64)] := by
      rw [utf8Encode, if_neg (by omega), if_neg (by omega), if_pos (by omega)]
    rw [if_neg h7, if_neg h11, if_pos h16, he, Nat.mod_eq_of_lt (by omega : c / 4096 < 16)]
    rfl
  · have he : utf8Encode c = [UInt8.ofNat (0xF0 + c / 262144), UInt8.ofNat (0x80 + c / 4096 % 64),
        UInt8.ofNat (0x80 + c / 64 % 64), UInt8.ofNat (0x80 + c % 64)] := by
      rw [utf8Encode, if_neg (by omega), if_neg (by omega), if_neg (by omega)]
    rw [if_neg h7, if_neg h11, if_neg h16, if_pos h, he,
      Nat.mod_eq_of_lt (by omega : c / 262144 < 8)]
    rfl

/-- The shortest form is read back. -/
theorem utf8Encode_decodes {c : Nat} (h : c ≤ 0x1FFFFF) : Decodes (utf8Encode c) c := by
  unfold utf8Encode
  split_ifs with h7 h11 h16
  · exact (Lead.one c h7).decodes [] rfl
  · have hd := (Lead.two (c / 64) (by omega)).decodes [UInt8.ofNat (0x80 + c % 64)] rfl
    rw [join_tail, join_nil] at hd
    convert hd using 1
    omega
  · have hd := (Lead.three (c / 4096) (by omega)).decodes
      [UInt8.ofNat (0x80 + c / 64 % 64), UInt8.ofNat (0x80 + c % 64)] rfl
    rw [join_tail, join_tail, join_nil] at hd
    convert hd using 1
    omega
  · have hd := (Lead.four (c / 262144) (by omega)).decodes
      [UInt8.ofNat (0x80 + c / 4096 % 64), UInt8.ofNat (0x80 + c / 64 % 64),
        UInt8.ofNat (0x80 + c % 64)] rfl
    rw [join_tail, join_tail, join_tail, join_nil] at hd
    convert hd using 1
    omega

/-- Five octets: the shifts go up by six, as in the shorter forms. -/
theorem bsonUtf8FromUnichar_five {c : Nat} (h : 0x1FFFFF < c) (h26 : c ≤ 0x3FFFFFF) :
    (bsonUtf8FromUnichar c).1.length = (bsonUtf8FromUnichar c).2 ∧
      Decodes (bsonUtf8FromUnichar c).1 c := by
  have h5 : 0xF8 ||| (c >>> 24 &&& 0x3) = 0xF8 + c / 16777216 := by
    rw [shiftRight_div]
    have ht := tag_or 62 (c / 16777216) 2
    rwa [Nat.mod_eq_of_lt (by omega : c / 16777216 < 2 ^ 2)] at ht
  rw [bsonUtf8FromUnichar, if_neg (by omega), if_neg (by omega), if_neg (by omega),
    if_neg (by omega), if_pos h26, h5]
  simp only [tail_or, shiftRight_div, Nat.reducePow]
  refine ⟨rfl, ?_⟩
  have hd := (Lead.five (c / 16777216) (by omega)).decodes
    [UInt8.ofNat (0x80 + c / 262144 % 64), UInt8.ofNat (0x80 + c / 4096 % 64),
      UInt8.ofNat (0x80 + c / 64 % 64), UInt8.ofNat (0x80 + c % 64)] rfl
  rw [join_tail, join_tail, join_tail, join_tail, join_nil] at hd
  convert hd using 1
  omega

/-- Six octets: seven bits go in for each six that are read, and five of the last six are lost. -/
theorem bsonUtf8FromUnichar_six {c : Nat} (h : 0x3FFFFFF < c) (h31 : c ≤ 0x7FFFFFFF) :
    (bsonUtf8FromUnichar c).1.length = (bsonUtf8FromUnichar c).2 ∧
      Decodes (bsonUtf8FromUnichar c).1 (c / 128 * 64 + c % 2) := by
  have h6 : 0xFC ||| (c >>> 31 &&& 0x1) = 0xFC + 0 := by
    rw [shiftRight_div]
    have ht := tag_or 252 (c / 2147483648) 1
    rw [Nat.div_eq_of_lt (by omega)] at ht ⊢
    exact tag_or 126 0 1
  have h1 : 0x80 ||| (c &&& 0x1) = 0x80 + c % 2 % 64 := by
    have ht := tag_or 64 c 1
    rw [Nat.mod_eq_of_lt (by omega : c % 2 < 64)]
    exact ht
  rw [bsonUtf8FromUnichar, if_neg (by omega), if_neg (by omega), if_neg (by omega),
    if_neg (by omega), if_neg (by omega), if_pos h31, h6, h1]
  simp only [tail_or, shiftRight_div, Nat.reducePow]
  refine ⟨rfl, ?_⟩
  have hd := (Lead.six 0 (by omega)).decodes
    [UInt8.ofNat (0x80 + c / 33554432 % 64), UInt8.ofNat (0x80 + c / 524288 % 64),
      UInt8.ofNat (0x80 + c / 8192 % 64), UInt8.ofNat (0x80 + c / 128 % 64),
      UInt8.ofNat (0x80 + c % 2 % 64)] rfl
  rw [join_tail, join_tail, join_tail, join_tail, join_tail, join_nil] at hd
  convert hd using 1
  omega

end LibBson.Source
