import LibBson.Source.Utf8Escape

/-!
# `bson_string_t` with its memory

Source: bson-string.c:60-319. Behind the text of `BsonString` stand the octets
that are stored one by one. Each store is logged with the size the block has at
that moment. `fresh` is what the octets hold that an allocation adds.
-/

set_option autoImplicit false

namespace LibBson.Source
open LibBson.Library Mem

/-- `count` octets stored from `off` on in a block of `alloc` octets. -/
structure Store where
  off : Nat
  count : Nat
  alloc : Nat

def Store.Below (w : Store) : Prop := w.off + w.count ≤ w.alloc

structure BsonStringT where
  str : Mem
  len : Nat
  alloc : Nat
  stores : List Store

namespace BsonStringT

/-- `memcpy (str + off, octets, _)` -/
def store (string : BsonStringT) (off : Nat) (octets : Bytes) : BsonStringT :=
  { string with
    str := string.str.write off octets
    stores := ⟨off, octets.length, string.alloc⟩ :: string.stores }

/-- `bson_realloc (string->str, alloc)` -/
def realloc (fresh : Mem) (string : BsonStringT) (alloc : Nat) : BsonStringT :=
  { string with
    str := string.str.copyPrefix fresh (min string.alloc alloc)
    alloc := alloc }

/-- `len` moves on and the NUL is put behind the text. -/
def terminate (string : BsonStringT) (len : Nat) : BsonStringT :=
  { string with len := len }.store len [0]

/-- `if (!bson_is_power_of_two (alloc)) …` -/
def roundUp (alloc : Nat) : Nat :=
  if bsonIsPowerOfTwo alloc then alloc else u32 (nextPowerOfTwo alloc)

/-- `bson_string_new`; a failed assertion is no result. -/
def new (fresh : Mem) (str : Option Bytes) : Option BsonStringT :=
  let len := match str with
    | none => 0
    | some str => ofInt32 (intStrlen str)
  let alloc := roundUp (u32 (len + 1))
  if alloc ≥ 1 then
    let ret : BsonStringT := ⟨fresh, len, alloc, []⟩
    let ret := match str with
      | none => ret
      | some str => ret.store 0 ((cText str).take len)
    some ((ret.store len [0]).store len [0])
  else none

/-- `bson_string_append` -/
def append (fresh : Mem) (string : BsonStringT) (str : Bytes) : BsonStringT :=
  let len := u32 (strlen str)
  let string :=
    if u32sub (u32sub string.alloc string.len) 1 < len then
      string.realloc fresh (bsonStringGrow string.alloc len)
    else string
  (string.store string.len ((cText str).take len)).terminate (u32 (string.len + len))

/-- `bson_string_append_c` -/
def appendC (fresh : Mem) (string : BsonStringT) (c : UInt8) : BsonStringT :=
  if string.alloc = u32 (string.len + 1) then string.append fresh [c, 0]
  else (string.store string.len [c]).terminate (u32 (string.len + 1))

/-- `bson_string_append_unichar` -/
def appendUnichar (fresh : Mem) (string : BsonStringT) (unichar : Nat) : Option BsonStringT :=
  if unichar = 0 then none
  else
    let (str, len) := bsonUtf8FromUnichar unichar
    if len ≤ 6 then some (string.append fresh (str ++ [0])) else some string

/-- `bson_string_truncate` -/
def truncate (fresh : Mem) (string : BsonStringT) (len : Nat) : Option BsonStringT :=
  if len < 2147483647 then
    let alloc := u32 (len + 1)
    let alloc := roundUp (if alloc < 16 then 16 else alloc)
    some ((string.realloc fresh alloc).terminate len)
  else none

/-! ## What the memory holds of the text -/

/-- The block holds the text and its NUL, and was never overrun. -/
structure Represents (string : BsonStringT) (text : BsonString) : Prop where
  alloc : string.alloc = text.alloc
  len : string.len = text.str.length
  octets : Holds string.str 0 (text.str ++ [0])
  below : ∀ w ∈ string.stores, w.Below

section Steps

variable {fresh : Mem} {string : BsonStringT} {text text' : BsonString}

/-- The NUL behind the text. -/
theorem represents_terminated (halloc : string.alloc = text.alloc)
    (htext : Holds string.str 0 text.str) (hbelow : ∀ w ∈ string.stores, w.Below) :
    (string.terminate text.str.length).Represents text := by
  have hfits := text.fits
  refine ⟨halloc, rfl, ?_, ?_⟩
  · rw [holds_append, Nat.zero_add]
    refine ⟨holds_write_frame htext (Or.inl ?_), holds_write_self _ _ _⟩
    omega
  · intro w hw
    simp only [terminate, store, List.mem_cons, halloc] at hw
    obtain rfl | hw := hw
    · simp only [Store.Below, List.length_singleton]
      omega
    · exact hbelow w hw

/-- `str` and the NUL behind the `kept` octets that stay. -/
theorem represents_stored {kept str : Bytes} (hstr : text.str = kept ++ str)
    (halloc : string.alloc = text.alloc) (hkept : Holds string.str 0 kept)
    (hbelow : ∀ w ∈ string.stores, w.Below) :
    ((string.store kept.length str).terminate (kept.length + str.length)).Represents text := by
  have hlen : text.str.length = kept.length + str.length := by rw [hstr, List.length_append]
  have hfits := text.fits
  rw [← hlen]
  apply represents_terminated
  · exact halloc
  · rw [hstr, holds_append, Nat.zero_add]
    refine ⟨holds_write_frame hkept (Or.inl ?_), holds_write_self _ _ _⟩
    omega
  · intro w hw
    simp only [store, List.mem_cons, halloc] at hw
    obtain rfl | hw := hw
    · simp only [Store.Below]
      omega
    · exact hbelow w hw

theorem Represents.holds_text (h : string.Represents text) : Holds string.str 0 text.str :=
  ((holds_append _ _ _ _).mp h.octets).1

theorem Represents.room (h : string.Represents text) (hmax : text.alloc < 4294967296) :
    u32sub (u32sub string.alloc string.len) 1 = text.alloc - text.str.length - 1 := by
  have hfits := text.fits
  rw [h.alloc, h.len, u32sub_of_le hmax (by omega), u32sub_of_le (by omega) (by omega)]

theorem bsonStringGrow_lt (alloc len : Nat) : bsonStringGrow alloc len < 4294967296 := by
  simp only [bsonStringGrow]
  split
  · exact u32_lt _
  · exact u32_lt _

/-- The memory does what the append on texts does. -/
theorem Represents.append (h : string.Represents text) (hmax : text.alloc < 4294967296)
    {str : Bytes} (happend : bsonStringAppend text str = some text') :
    (string.append fresh str).Represents text' := by
  have hfits := text.fits
  have hfits' := text'.fits
  have hroom := h.room hmax
  have hkept := h.holds_text
  obtain ⟨hstr, halloc⟩ := bsonStringAppend_some happend
  have htake : ((cText str).take (u32 (strlen str))).length = u32 (strlen str) := by
    rw [List.length_take, Nat.min_eq_left]
    exact Nat.mod_le _ _
  have hlen : text'.str.length = text.str.length + u32 (strlen str) := by
    rw [hstr, List.length_append, htake]
  have hsum : u32 (string.len + u32 (strlen str)) = text.str.length + u32 (strlen str) := by
    have hmax' := bsonStringGrow_lt text.alloc (u32 (strlen str))
    rw [h.len, u32_of_lt]
    split at halloc
    · omega
    · omega
  simp only [BsonStringT.append, hroom]
  split
  · next hgrow =>
    rw [if_pos hgrow] at halloc
    have hgrown : (string.realloc fresh (bsonStringGrow string.alloc (u32 (strlen str)))).alloc =
        text'.alloc := by
      rw [halloc, h.alloc]
      rfl
    have hstored := represents_stored hstr hgrown
      (holds_copyPrefix hkept (by rw [h.alloc, Nat.zero_add]; omega)) h.below
    rw [htake, ← hsum, ← h.len] at hstored
    exact hstored
  · next hgrow =>
    rw [if_neg hgrow] at halloc
    have hstored := represents_stored hstr (h.alloc.trans halloc.symm) hkept h.below
    rw [htake, ← hsum, ← h.len] at hstored
    exact hstored

/-- There is room for one more octet, which is not NUL: the octet is stored as an append
of it does. -/
theorem appendC_eq_append (h : string.Represents text) (hmax : text.alloc < 4294967296)
    {c : UInt8} (hc : c ≠ 0) : string.appendC fresh c = string.append fresh [c] := by
  have hfits := text.fits
  have htext : cText [c] = [c] := cText_of_no_nul (by simpa using hc.symm)
  have htext' : cText [c, 0] = [c] := by
    simp [cText, hc]
  have hu : u32 (string.len + 1) = text.str.length + 1 := by
    rw [h.len, u32_of_lt (by omega)]
  have hroom := h.room hmax
  have hone : u32 1 = 1 := rfl
  rw [BsonStringT.appendC]
  split
  · simp only [BsonStringT.append, strlen, htext, htext']
  · next hfull =>
    rw [h.alloc, hu] at hfull
    simp only [BsonStringT.append, strlen, htext, List.length_singleton, hone, hroom]
    rw [if_neg (by omega)]
    rfl

theorem append_len (str : Bytes) :
    (string.append fresh str).len = u32 (string.len + u32 (strlen str)) := by
  simp only [BsonStringT.append, terminate, store]
  split
  · rfl
  · rfl

theorem append_alloc (str : Bytes) :
    (string.append fresh str).alloc =
      if u32sub (u32sub string.alloc string.len) 1 < u32 (strlen str) then
        bsonStringGrow string.alloc (u32 (strlen str))
      else string.alloc := by
  simp only [BsonStringT.append, terminate, store]
  split
  · rfl
  · rfl

theorem append_congr {str str' : Bytes} (h : cText str = cText str') :
    string.append fresh str = string.append fresh str' := by
  have hlen : strlen str = strlen str' := congrArg List.length h
  simp only [BsonStringT.append, h, hlen]

theorem appendUnichar_eq_append {c : Nat} (hc : c ≠ 0) (h : c ≤ 0x1FFFFF) :
    string.appendUnichar fresh c = some (string.append fresh (utf8Encode c)) := by
  have hlen := utf8Encode_length c
  have hnul := utf8Encode_nonzero hc h
  rw [BsonStringT.appendUnichar, if_neg hc, bsonUtf8FromUnichar_encode h]
  dsimp only
  rw [if_pos (by omega), append_congr]
  rw [cText_append_nul hnul, cText_of_no_nul hnul]

theorem roundUp_fits {n : Nat} (h1 : 1 ≤ n) (h : n ≤ 2147483648) :
    n ≤ roundUp n ∧ ∃ k ≤ 31, roundUp n = 2 ^ k := by
  have hgrow : bsonStringGrow n 0 = roundUp n := by
    simp only [bsonStringGrow, roundUp, Nat.add_zero, u32_of_lt (by omega : n < 4294967296)]
  rw [← hgrow]
  exact bsonStringGrow_fits n 0 rfl h1 h

theorem new_represents (fresh : Mem) (str : Option Bytes)
    (hshort : ∀ s, str = some s → strlen s < 2147483648) :
    ∃ string text, BsonStringT.new fresh str = some string ∧ string.Represents text ∧
      text.Doubled ∧ text.str = (str.map cText).getD [] := by
  cases str with
  | none =>
    have hstart : (terminate ⟨fresh, 0, 1, []⟩ bsonStringNew.str.length).Represents bsonStringNew :=
      represents_terminated rfl (holds_nil _ _) (fun w hw => absurd hw List.not_mem_nil)
    exact ⟨_, bsonStringNew, rfl, represents_terminated rfl hstart.holds_text hstart.below,
      bsonStringNew_doubled, rfl⟩
  | some s =>
    have hlt : (cText s).length < 2147483648 := hshort s rfl
    have hlen : ofInt32 (intStrlen s) = (cText s).length := by
      rw [intStrlen, ← Int.add_zero (i32 _)]
      exact (ofInt32_i32_add _ 0).trans (u32_of_lt (Nat.lt_trans hlt (by decide)))
    have hu : u32 ((cText s).length + 1) = (cText s).length + 1 := u32_of_lt (by omega)
    obtain ⟨hge, hpow⟩ := roundUp_fits (n := (cText s).length + 1) (by omega) hlt
    obtain ⟨alloc, halloc⟩ : ∃ alloc, roundUp ((cText s).length + 1) = alloc := ⟨_, rfl⟩
    rw [halloc] at hge hpow
    let text : BsonString := ⟨cText s, alloc, hge⟩
    have hstart : ((store ⟨fresh, (cText s).length, alloc, []⟩ 0 (cText s)).terminate
        (cText s).length).Represents text := by
      have hstr : text.str = [] ++ cText s := rfl
      have hblock : (BsonStringT.mk fresh (cText s).length alloc []).alloc = text.alloc := rfl
      have hstored := represents_stored hstr hblock (holds_nil _ _)
        (fun w hw => absurd hw List.not_mem_nil)
      rw [List.length_nil, Nat.zero_add] at hstored
      exact hstored
    refine ⟨_, text, ?_, represents_terminated rfl hstart.holds_text hstart.below, hpow, rfl⟩
    simp only [BsonStringT.new, hlen, hu, halloc, List.take_length]
    rw [if_pos (by omega)]
    rfl

theorem Represents.truncate (h : string.Represents text) {len : Nat}
    (hlen : len ≤ text.str.length) (hmax : len < 2147483647) :
    ∃ string' text', string.truncate fresh len = some string' ∧ string'.Represents text' ∧
      text'.Doubled ∧ text'.str = text.str.take len := by
  have hu : u32 (len + 1) = len + 1 := u32_of_lt (by omega)
  have htake : (text.str.take len).length = len := by
    rw [List.length_take, Nat.min_eq_left hlen]
  have hfits := text.fits
  have hsize : ∃ size, (if len + 1 < 16 then 16 else len + 1) = size ∧ len < size ∧
      size ≤ 2147483648 := by
    split
    · exact ⟨16, rfl, by omega, by omega⟩
    · exact ⟨len + 1, rfl, by omega, by omega⟩
  obtain ⟨size, hsize, hlow, hhigh⟩ := hsize
  obtain ⟨hge, hpow⟩ := roundUp_fits (n := size) (by omega) hhigh
  obtain ⟨alloc, halloc⟩ : ∃ alloc, roundUp size = alloc := ⟨_, rfl⟩
  rw [halloc] at hge hpow
  let text' : BsonString := ⟨text.str.take len, alloc, by omega⟩
  refine ⟨(string.realloc fresh alloc).terminate len, text', ?_, ?_, hpow, rfl⟩
  · simp only [BsonStringT.truncate, if_pos hmax, hu, hsize, halloc]
  · have hkept : Holds string.str 0 (text.str.take len) := by
      have htext := h.holds_text
      rw [← List.take_append_drop len text.str, holds_append] at htext
      exact htext.1
    have hblock : (string.realloc fresh alloc).alloc = text'.alloc := rfl
    have hcopied := represents_terminated hblock
      (holds_copyPrefix hkept (by rw [h.alloc, htake, Nat.zero_add]; omega)) h.below
    have hlen' : text'.str.length = len := htake
    rw [hlen'] at hcopied
    exact hcopied

end Steps

end BsonStringT

end LibBson.Source
