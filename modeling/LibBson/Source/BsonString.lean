import LibBson.Source.AppendArgs
import LibBson.Library.PowerOfTwo

/-!
# `bson_string_t`

Source: bson-string.c:60-260. `len` is the number of octets in `str`. The buffer
has `alloc` octets, more than `len` because a NUL stands behind the text. Both
counters have 32 bits: an append that runs past the buffer, or after which the
buffer is gone, has no result.
-/

set_option autoImplicit false

namespace LibBson.Source
open LibBson.Library

structure BsonString where
  str : Bytes
  alloc : Nat
  fits : str.length < alloc

/-- `bson_string_new (NULL)` -/
def bsonStringNew : BsonString where
  str := []
  alloc := 1
  fits := by decide

def bsonIsPowerOfTwo (v : Nat) : Bool := v ≠ 0 && (v &&& (v - 1)) == 0

/-- `string->alloc += len` and the rounding up; `2 ^ 32` does not fit and becomes zero. -/
def bsonStringGrow (alloc len : Nat) : Nat :=
  let alloc := u32 (alloc + len)
  if bsonIsPowerOfTwo alloc then alloc else u32 (nextPowerOfTwo alloc)

def bsonStringAppend (string : BsonString) (str : Bytes) : Option BsonString :=
  let len := u32 (strlen str)
  let alloc :=
    if string.alloc - string.str.length - 1 < len then bsonStringGrow string.alloc len
    else string.alloc
  if h : (string.str ++ (cText str).take len).length < alloc then
    some ⟨string.str ++ (cText str).take len, alloc, h⟩
  else none

def bsonStringAppendC (string : BsonString) (c : UInt8) : Option BsonString :=
  if string.alloc = string.str.length + 1 then bsonStringAppend string [c]
  else if h : (string.str ++ [c]).length < string.alloc then
    some ⟨string.str ++ [c], string.alloc, h⟩
  else none

theorem bsonStringAppend_some {string string' : BsonString} {str : Bytes}
    (h : bsonStringAppend string str = some string') :
    string'.str = string.str ++ (cText str).take (u32 (strlen str)) ∧
      string'.alloc = if string.alloc - string.str.length - 1 < u32 (strlen str) then
        bsonStringGrow string.alloc (u32 (strlen str)) else string.alloc := by
  simp only [bsonStringAppend, Option.dite_none_right_eq_some] at h
  obtain ⟨hfits, h⟩ := h
  cases h
  exact ⟨rfl, rfl⟩

/-! ## Appending within the limit -/

/-- The buffer as it grows from one octet. -/
def BsonString.Doubled (string : BsonString) : Prop := ∃ k ≤ 31, string.alloc = 2 ^ k

theorem bsonStringNew_doubled : bsonStringNew.Doubled := ⟨0, by decide, rfl⟩

theorem bsonStringGrow_fits {v : Nat} (alloc len : Nat) (hv : alloc + len = v) (h1 : 1 ≤ v)
    (h : v ≤ 2147483648) : v ≤ bsonStringGrow alloc len ∧ ∃ k ≤ 31, bsonStringGrow alloc len = 2 ^ k := by
  have hu : u32 (alloc + len) = v := by rw [hv, u32_of_lt (by omega)]
  simp only [bsonStringGrow, hu]
  cases hp : bsonIsPowerOfTwo v with
  | true =>
    have hpow : v.isPowerOfTwo := by
      simp only [bsonIsPowerOfTwo, Bool.and_eq_true, decide_eq_true_eq, beq_iff_eq] at hp
      exact Nat.ne_zero_and_sub_one_eq_zero_iff_isPowerOfTwo.mp hp
    obtain ⟨k, hk⟩ := hpow
    refine ⟨le_refl v, k, ?_, hk⟩
    by_contra hbig
    have := Nat.pow_le_pow_right (show 0 < 2 by decide) (show 32 ≤ k by omega)
    omega
  | false =>
    have hle := le_nextPowerOfTwo v h1 (by omega)
    have hmax := nextPowerOfTwo_le v 31 h1 (by omega) (by decide)
    have hsize : (v - 1).size ≤ 31 := Nat.size_le.mpr (by omega)
    have hu' : u32 (nextPowerOfTwo v) = nextPowerOfTwo v := u32_of_lt (by omega)
    simp only [Bool.false_eq_true, if_false, hu']
    exact ⟨hle, _, hsize, nextPowerOfTwo_eq v h1 (by omega)⟩

/-- Past `2 ^ 31` the rounding loses the whole size. -/
theorem bsonStringGrow_lost {alloc len : Nat} (h : 2147483648 < alloc + len)
    (hmax : alloc + len < 4294967296) : bsonStringGrow alloc len = 0 := by
  have hu : u32 (alloc + len) = alloc + len := u32_of_lt hmax
  have hp : bsonIsPowerOfTwo (alloc + len) = false := by
    rw [Bool.eq_false_iff]
    intro hp
    simp only [bsonIsPowerOfTwo, Bool.and_eq_true, decide_eq_true_eq, beq_iff_eq] at hp
    obtain ⟨k, hk⟩ := Nat.ne_zero_and_sub_one_eq_zero_iff_isPowerOfTwo.mp hp
    rcases Nat.lt_or_ge k 32 with hlt | hge
    · have := Nat.pow_le_pow_right (show 0 < 2 by decide) (show k ≤ 31 by omega)
      omega
    · have := Nat.pow_le_pow_right (show 0 < 2 by decide) hge
      omega
  have hge := lt_nextPowerOfTwo (alloc + len) 31 (by omega) (by omega)
  have hle := nextPowerOfTwo_le (alloc + len) 32 (by omega) (by omega) (by decide)
  have heq : nextPowerOfTwo (alloc + len) = 4294967296 := by omega
  simp only [bsonStringGrow, hu, hp, heq, Bool.false_eq_true, if_false]
  rfl

/-- What an append of `str` leaves: all of it, as long as `2 ^ 31` octets hold the
text and its NUL; otherwise nothing. -/
def BsonString.Takes (string : BsonString) (str : Bytes) (result : Option BsonString) : Prop :=
  (string.str.length + str.length < 2147483648 ∧
      ∃ string', result = some string' ∧ string'.Doubled ∧ string'.str = string.str ++ str) ∨
    2147483648 ≤ string.str.length + str.length ∧ result = none

theorem BsonString.takes_some {string : BsonString} {str : Bytes} {alloc : Nat}
    (h : (string.str ++ str).length < alloc) (hd : ∃ k ≤ 31, alloc = 2 ^ k) :
    string.Takes str (some ⟨string.str ++ str, alloc, h⟩) := by
  obtain ⟨k, hk, halloc⟩ := hd
  have hmax := Nat.pow_le_pow_right (show 0 < 2 by decide) hk
  have hlen : (string.str ++ str).length = string.str.length + str.length := List.length_append
  exact Or.inl ⟨by omega, _, rfl, ⟨k, hk, halloc⟩, rfl⟩

/-- `n` octets fit behind the text as it is, or the sum that is rounded up is at most
`2 ^ 31`. -/
def BsonString.Room (string : BsonString) (n : Nat) : Prop :=
  string.str.length + n < string.alloc ∨ string.alloc + n ≤ 2147483648

theorem BsonString.Doubled.alloc_le {string : BsonString} (hd : string.Doubled) :
    string.alloc ≤ 2147483648 := by
  obtain ⟨k, hk, halloc⟩ := hd
  have hmax := Nat.pow_le_pow_right (show 0 < 2 by decide) hk
  omega

theorem bsonStringAppend_eq {string : BsonString} {str : Bytes} {alloc : Nat} (hnul : 0 ∉ str)
    (hshort : str.length < 4294967296)
    (halloc : (if string.alloc - string.str.length - 1 < str.length then
      bsonStringGrow string.alloc str.length else string.alloc) = alloc) :
    bsonStringAppend string str =
      if h : (string.str ++ str).length < alloc then some ⟨string.str ++ str, alloc, h⟩
      else none := by
  have hu : u32 str.length = str.length := u32_of_lt hshort
  simp only [bsonStringAppend, strlen, cText_of_no_nul hnul, hu, List.take_length, halloc]

theorem bsonStringAppend_of_room {string : BsonString} (hd : string.Doubled) {str : Bytes}
    (hnul : 0 ∉ str) (hshort : str.length < 4294967296) (h : string.Room str.length) :
    ∃ string', bsonStringAppend string str = some string' ∧ string'.Doubled ∧
      string'.str = string.str ++ str := by
  have hfits := string.fits
  have hlen : (string.str ++ str).length = string.str.length + str.length := List.length_append
  have hroom : ∃ alloc, (if string.alloc - string.str.length - 1 < str.length then
      bsonStringGrow string.alloc str.length else string.alloc) = alloc ∧
      (string.str ++ str).length < alloc ∧ ∃ k ≤ 31, alloc = 2 ^ k := by
    by_cases hgrow : string.alloc - string.str.length - 1 < str.length
    · rw [if_pos hgrow]
      obtain ⟨hge, hdoubled⟩ := bsonStringGrow_fits string.alloc str.length rfl (by omega)
        (h.resolve_left (by omega))
      exact ⟨_, rfl, by omega, hdoubled⟩
    · rw [if_neg hgrow]
      exact ⟨_, rfl, by omega, hd⟩
  obtain ⟨alloc, halloc, hlt, hdoubled⟩ := hroom
  refine ⟨⟨string.str ++ str, alloc, hlt⟩, ?_, hdoubled, rfl⟩
  rw [bsonStringAppend_eq hnul hshort halloc, dif_pos hlt]

theorem bsonStringAppend_lost {string : BsonString} (hd : string.Doubled) {str : Bytes}
    (hnul : 0 ∉ str) (hshort : str.length < 2147483648) (h : ¬ string.Room str.length) :
    bsonStringAppend string str = none := by
  have hmax := hd.alloc_le
  rw [BsonString.Room, not_or, Nat.not_lt, Nat.not_le] at h
  have hlost := bsonStringGrow_lost h.2 (by omega)
  have hgrow : string.alloc - string.str.length - 1 < str.length := by
    have hfits := string.fits
    omega
  have hzero : (if string.alloc - string.str.length - 1 < str.length then
      bsonStringGrow string.alloc str.length else string.alloc) = 0 := by
    rw [if_pos hgrow, hlost]
  rw [bsonStringAppend_eq hnul (by omega) hzero]
  exact dif_neg (Nat.not_lt_zero _)

theorem bsonStringAppend_takes {string : BsonString} (hd : string.Doubled) {str : Bytes}
    (hnul : 0 ∉ str) (hshort : str.length < 1073741824) :
    string.Takes str (bsonStringAppend string str) := by
  obtain ⟨k, hk, halloc⟩ := id hd
  have hfits := string.fits
  have hlen : (string.str ++ str).length = string.str.length + str.length := List.length_append
  rcases Nat.lt_or_ge (string.str.length + str.length) 2147483648 with hlt | hge
  · have hroom : string.Room str.length := by
      rcases Nat.lt_or_ge k 31 with hlow | hhigh
      · have hmax := Nat.pow_le_pow_right (show 0 < 2 by decide) (show k ≤ 30 by omega)
        exact Or.inr (by omega)
      · obtain rfl : k = 31 := by omega
        exact Or.inl (by omega)
    exact Or.inl ⟨hlt, bsonStringAppend_of_room hd hnul (by omega) hroom⟩
  · have hmax := hd.alloc_le
    refine Or.inr ⟨hge, bsonStringAppend_lost hd hnul (by omega) ?_⟩
    rintro (hin | hin)
    · omega
    · omega

/-- `bson_string_append_c` writes in place while there is room, to the same effect. -/
theorem bsonStringAppendC_takes {string : BsonString} (hd : string.Doubled) {c : UInt8}
    (hc : c ≠ 0) : string.Takes [c] (bsonStringAppendC string c) := by
  rw [bsonStringAppendC]
  by_cases hfull : string.alloc = string.str.length + 1
  · rw [if_pos hfull]
    apply bsonStringAppend_takes hd
    · simpa using hc.symm
    · simp
  · have hfits := string.fits
    have hlen : (string.str ++ [c]).length = string.str.length + 1 := by simp
    rw [if_neg hfull, dif_pos (by omega)]
    exact BsonString.takes_some _ hd

/-! ## Sequences of calls -/

/-- `bson_string_append`, `bson_string_append_c`; `lost` stands for a string an operand
of the call was taken from and that had been overrun before. -/
inductive StringCall where
  | append (str : Bytes)
  | appendC (c : UInt8)
  | lost
  deriving DecidableEq

/-- The octets a call is given. -/
def StringCall.given : StringCall → Bytes
  | append str => str
  | appendC c => [c]
  | lost => []

def givenText (calls : List StringCall) : Bytes := (calls.map StringCall.given).flatten

theorem givenText_append (xs ys : List StringCall) :
    givenText (xs ++ ys) = givenText xs ++ givenText ys := by
  simp [givenText]

def BsonString.perform (string : BsonString) : StringCall → Option BsonString
  | .append str => bsonStringAppend string str
  | .appendC c => bsonStringAppendC string c
  | .lost => none

def BsonString.performAll (string : BsonString) (calls : List StringCall) : Option BsonString :=
  calls.foldlM BsonString.perform string

end LibBson.Source
