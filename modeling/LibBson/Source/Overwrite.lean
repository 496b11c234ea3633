import LibBson.Source.AppendBytes
import LibBson.Source.DecodeLaws

/-!
# Overwriting a value in place

Source: bson-iter.c:2171-2310. A write goes to `iter->raw + iter->d1`. The iterator of a
nested document has its `raw` inside the buffer of the root, so that its offset there is
carried along with it. `elementAt` finds an element by its indices, from the outside in,
through nothing but `bson_iter_next` and `bson_iter_recurse`.
-/

set_option autoImplicit false

namespace LibBson.Source
open LibBson.Library LibBson.Spec

/-- What the five functions share: the check of the type and the `memcpy`. `raw` is the
offset of `iter->raw` in the buffer. -/
def overwriteValue (type : BsonType) (octets : Bytes) (raw : Nat) (it : BsonIter) (buf : Mem) : Mem :=
  if iterType it = some type then buf.write (raw + it.d1) octets else buf

def bsonIterOverwriteBool (raw : Nat) (it : BsonIter) (value : Bool) (buf : Mem) : Mem :=
  overwriteValue .bool [if value then 1 else 0] raw it buf

def bsonIterOverwriteInt32 (raw : Nat) (it : BsonIter) (value : Int) (buf : Mem) : Mem :=
  overwriteValue .int32 (leBytes 4 (ofInt32 value)) raw it buf

def bsonIterOverwriteInt64 (raw : Nat) (it : BsonIter) (value : Int) (buf : Mem) : Mem :=
  overwriteValue .int64 (leBytes 8 (ofInt64 value)) raw it buf

/-- `value` by its 64 bits. -/
def bsonIterOverwriteDouble (raw : Nat) (it : BsonIter) (value : Nat) (buf : Mem) : Mem :=
  overwriteValue .double (leBytes 8 value) raw it buf

def bsonIterOverwriteDecimal128 (raw : Nat) (it : BsonIter) (low high : Nat) (buf : Mem) : Mem :=
  overwriteValue .decimal128 (leBytes 8 low ++ leBytes 8 high) raw it buf

/-- A call with the value it is given. -/
inductive Overwrite where
  | bool (value : Bool)
  | int32 (value : BitVec 32)
  | int64 (value : BitVec 64)
  | double (bits : BitVec 64)
  | decimal128 (low high : BitVec 64)

namespace Overwrite

def type : Overwrite → BsonType
  | bool _ => .bool
  | int32 _ => .int32
  | int64 _ => .int64
  | double _ => .double
  | decimal128 .. => .decimal128

def run (raw : Nat) (it : BsonIter) (buf : Mem) : Overwrite → Mem
  | bool v => bsonIterOverwriteBool raw it v buf
  | int32 v => bsonIterOverwriteInt32 raw it v.toInt buf
  | int64 v => bsonIterOverwriteInt64 raw it v.toInt buf
  | double v => bsonIterOverwriteDouble raw it v.toNat buf
  | decimal128 l h => bsonIterOverwriteDecimal128 raw it l.toNat h.toNat buf

/-- The octets written. -/
def octets : Overwrite → Bytes
  | bool v => [if v then 1 else 0]
  | int32 v => leBytes 4 v.toNat
  | int64 v => leBytes 8 v.toNat
  | double v => leBytes 8 v.toNat
  | decimal128 l h => leBytes 8 l.toNat ++ leBytes 8 h.toNat

/-- The accessor of the type returns the value. -/
def Returned (e : BsonIter) : Overwrite → Prop
  | bool v => bsonIterBool e = v
  | int32 v => bsonIterInt32 e = v.toInt
  | int64 v => bsonIterInt64 e = v.toInt
  | double v => bsonIterDouble e = v.toNat
  | decimal128 l h => bsonIterDecimal128 e = some (l.toNat, h.toNat)

end Overwrite

/-- The element `i` steps behind the next one, all of which succeed. -/
def BsonIter.nth : Nat → BsonIter → Option BsonIter
  | 0, it => if (bsonIterNext it).1 then some (bsonIterNext it).2 else none
  | i + 1, it => if (bsonIterNext it).1 then (bsonIterNext it).2.nth i else none

/-- The element with these indices, with the offset of its `raw`. -/
def elementAt : List Nat → BsonIter → Option (Nat × BsonIter)
  | [], _ => none
  | i :: path, it =>
    (it.nth i).bind fun e =>
      if path = [] then some (0, e)
      else (bsonIterRecurse e).bind fun child =>
        (elementAt path child).map fun found => (e.d1 + found.1, found.2)

theorem Overwrite.run_eq (w : Overwrite) (raw : Nat) {it : BsonIter} (buf : Mem)
    (h : iterType it = some w.type) : w.run raw it buf = buf.write (raw + it.d1) w.octets := by
  cases w with
  | bool v => exact if_pos h
  | int32 v =>
    have hw := ofInt32_toInt v
    rw [run, bsonIterOverwriteInt32, overwriteValue, hw]
    exact if_pos h
  | int64 v =>
    have hw := ofInt64_toInt v
    rw [run, bsonIterOverwriteInt64, overwriteValue, hw]
    exact if_pos h
  | double v => exact if_pos h
  | decimal128 l h' => exact if_pos h

/-! ## One step over two memories -/

/-- Two iterators at the same place of their buffers. -/
structure Twin (m m' : Mem) (it it' : BsonIter) : Prop where
  raw : it.raw = some m
  raw' : it'.raw = some m'
  len : it'.len = it.len
  next : it'.nextOff = it.nextOff
  start : 4 ≤ it.nextOff
  max : it.len ≤ maxLen

theorem Twin.symm {m m' : Mem} {it it' : BsonIter} (h : Twin m m' it it') : Twin m' m it' it where
  raw := h.raw'
  raw' := h.raw
  len := h.len.symm
  next := h.next.symm
  start := by rw [h.next]; exact h.start
  max := by rw [h.len]; exact h.max

/-- The octets from `lo` up to `hi` are the same. -/
def Agree (m m' : Mem) (lo hi : Nat) : Prop := ∀ i, lo ≤ i → i < hi → m' i = m i

theorem Agree.mono {m m' : Mem} {lo hi lo' hi' : Nat} (h : Agree m m' lo hi) (hlo : lo ≤ lo')
    (hhi : hi' ≤ hi) : Agree m m' lo' hi' := fun i h1 h2 => h i (by omega) (by omega)

theorem Agree.symm {m m' : Mem} {lo hi : Nat} (h : Agree m m' lo hi) : Agree m' m lo hi :=
  fun i h1 h2 => (h i h1 h2).symm

theorem Agree.le {m m' : Mem} {lo hi o n : Nat} (h : Agree m m' lo hi) (hlo : lo ≤ o)
    (hhi : o + n ≤ hi) : m'.le o n = m.le o n :=
  Mem.le_congr fun i hi => h (o + i) (by omega) (by omega)

theorem Agree.shift {m m' : Mem} {lo hi o : Nat} (h : Agree m m' (o + lo) (o + hi)) :
    Agree (m.shift o) (m'.shift o) lo hi := fun i h1 h2 => h (o + i) (by omega) (by omega)

/-- The octets a layout is about: those of the value, and the length word of a nested
document. -/
structure Covers (t : BsonType) (o stop hi : Nat) : Prop where
  value : stop ≤ hi
  word : t = .document ∨ t = .array → o + 4 ≤ hi

theorem Layout.congr {m m' : Mem} {len o stop hi : Nat} {t : BsonType} (agree : Agree m m' o hi)
    (hc : Covers t o stop hi) (h : Layout m len o stop t) : Layout m' len o stop t := by
  obtain ⟨hstop, hword⟩ := hc
  cases t with
  | code | symbol | utf8 =>
    obtain ⟨h1, h2, h3⟩ := h
    have hle : m'.le o 4 = m.le o 4 := agree.le (Nat.le_refl o) (by omega)
    have hlast := agree (o + m.le o 4 + 3) (by omega) (by omega)
    exact ⟨by omega, by omega, by rw [hle, hlast, h3]⟩
  | dbpointer =>
    obtain ⟨h1, h2, h3⟩ := h
    have hle : m'.le o 4 = m.le o 4 := agree.le (Nat.le_refl o) (by omega)
    have hlast := agree (o + m.le o 4 + 3) (by omega) (by omega)
    exact ⟨by omega, by omega, by rw [hle, hlast, h3]⟩
  | binary =>
    obtain ⟨h1, h2⟩ := h
    have hle : m'.le o 4 = m.le o 4 := agree.le (Nat.le_refl o) (by omega)
    have hsub := agree (o + 4) (by omega) (by omega)
    refine ⟨by rw [hle, h1], fun hs => ?_⟩
    have hin := h2 (hsub.symm.trans hs)
    have hle' : m'.le (o + 5) 4 = m.le (o + 5) 4 := agree.le (by omega) (by omega)
    rw [hle, hle', hin]
  | array =>
    obtain ⟨h1, h2⟩ := h
    have hle : m'.le o 4 = m.le o 4 := agree.le (Nat.le_refl o) (hword (Or.inr rfl))
    exact ⟨h1, by rw [hle, h2]⟩
  | document =>
    obtain ⟨h1, h2⟩ := h
    have hle : m'.le o 4 = m.le o 4 := agree.le (Nat.le_refl o) (hword (Or.inl rfl))
    exact ⟨h1, by rw [hle, h2]⟩
  | bool =>
    obtain ⟨h1, h2⟩ := h
    have hb := agree o (Nat.le_refl o) (by omega)
    exact ⟨by rw [hb]; exact h1, h2⟩
  | regex =>
    obtain ⟨i, j, h1, h2, h3, h4, h5, h6, h7⟩ := h
    have hsame : ∀ k, o ≤ k → k ≤ j → m' k = m k := fun k hk hj => agree k hk (by omega)
    refine ⟨i, j, h1, h2, h3, ?_, ?_, ?_, ?_⟩
    · rw [hsame i h1 (by omega), h4]
    · rw [hsame j (by omega) (Nat.le_refl j), h5]
    · intro k hk hki
      rw [hsame k hk (by omega)]
      exact h6 k hk hki
    · intro k hk hkj
      rw [hsame k (by omega) (by omega)]
      exact h7 k hk hkj
  | codewscope =>
    obtain ⟨h1, h2, h3, h4, h5⟩ := h
    have hle : m'.le o 4 = m.le o 4 := agree.le (Nat.le_refl o) (by omega)
    have hle' : m'.le (o + 4) 4 = m.le (o + 4) 4 := agree.le (by omega) (by omega)
    have hle'' : m'.le (o + 8 + m.le (o + 4) 4) 4 = m.le (o + 8 + m.le (o + 4) 4) 4 :=
      agree.le (by omega) (by omega)
    rw [Layout, hle, hle', hle'']
    exact ⟨h1, h2, h3, h4, h5⟩
  | dateTime | double | int64 | timestamp | oid | int32 | decimal128 | maxkey | minkey | null
  | undefined => exact h
  | eod => exact h.elim

section Step

variable {m m' : Mem} {it it' e : BsonIter} {o : Nat} {t : BsonType}

/-- Where the key is the same and the value is still one of its type and extent, the
step goes to the same element. -/
theorem step_of_layout (htwin : Twin m m' it it') (he : Element m it e o t)
    (agree : Agree m m' it.nextOff o) (hlay : Layout m' it.len o e.nextOff t) :
    (bsonIterNextInternal it').ok = true ∧
      Element m' it' (bsonIterNext it').2 o t ∧ (bsonIterNext it').2.nextOff = e.nextOff := by
  have hkey := he.keyEnd
  have hsame : ∀ k, it.nextOff ≤ k → k < o → m' k = m k := agree
  have hnul : m' (o - 1) = 0 := by rw [hsame _ (by omega) (by omega), he.keyNul]
  have hbytes : ∀ k, it'.nextOff + 1 ≤ k → k + 1 < o → m' k ≠ 0 := by
    intro k hk hko
    rw [htwin.next] at hk
    rw [hsame k (by omega) (by omega)]
    exact he.keyBytes k hk hko
  have htype : m' it'.nextOff = t.toByte := by
    rw [htwin.next, hsame _ (Nat.le_refl _) (by omega), he.typeByte]
  have hkey' : it'.nextOff + 2 ≤ o := by rw [htwin.next]; exact hkey
  have hin : o ≤ it'.len := by rw [htwin.len]; exact he.inside
  have hlay' : Layout m' it'.len o e.nextOff t := by rw [htwin.len]; exact hlay
  have hstop : e.nextOff < it'.len := by rw [htwin.len]; exact he.stop
  obtain ⟨hok, hnext⟩ := next_of_layout htwin.raw' htwin.symm.start htwin.symm.max hkey' hin hnul
    hbytes htype hlay' hstop
  obtain ⟨o', t', he'⟩ := element_of_next htwin.raw' htwin.symm.start htwin.symm.max hok
  obtain rfl : o' = o := he'.keyEnds.unique ⟨hkey', hin, hnul, hbytes⟩
  obtain rfl : t' = t := BsonType.toByte_injective (he'.typeByte.symm.trans htype)
  exact ⟨hok, he', hnext⟩

theorem step_same (htwin : Twin m m' it it') (he : Element m it e o t) {hi : Nat}
    (agree : Agree m m' it.nextOff hi) (hc : Covers t o e.nextOff hi) :
    (bsonIterNextInternal it').ok = true ∧
      Element m' it' (bsonIterNext it').2 o t ∧ (bsonIterNext it').2.nextOff = e.nextOff := by
  have hkey := he.keyEnd
  have hle := he.layout.start_le
  have hstop := hc.value
  exact step_of_layout htwin he (agree.mono (Nat.le_refl _) (by omega))
    (he.layout.congr (agree.mono (by omega) (Nat.le_refl hi)) hc)

/-- The layout of an element ends inside its buffer. -/
theorem Element.covers (he : Element m it e o t) : Covers t o e.nextOff it.len where
  value := Nat.le_of_lt he.stop
  word := by
    intro ht
    have hlay := he.layout
    rcases ht with rfl | rfl
    · exact Nat.le_of_lt hlay.1
    · exact Nat.le_of_lt hlay.1

/-- Where all that is ahead is the same, a step succeeds on both sides or on neither. -/
theorem step_fails (htwin : Twin m m' it it') (agree : Agree m m' it.nextOff it.len)
    (h : (bsonIterNextInternal it).ok = false) : (bsonIterNextInternal it').ok = false := by
  by_contra hne
  rw [Bool.not_eq_false] at hne
  obtain ⟨o, t, he⟩ := element_of_next htwin.raw' htwin.symm.start htwin.symm.max hne
  have hback := agree.symm
  rw [← htwin.next, ← htwin.len] at hback
  obtain ⟨hok, -⟩ := step_same htwin.symm he hback he.covers
  rw [h] at hok
  cases hok

end Step

/-! ## The same element in two memories -/

/-- `e` and `e'` are the element that starts its value at `o` in a buffer of `len`
octets, once in `m` and once in `m'`. -/
structure Paired (m m' : Mem) (len : Nat) (e e' : BsonIter) (o : Nat) (t : BsonType) : Prop where
  elem : ∃ it, it.len = len ∧ it.len ≤ maxLen ∧ 4 ≤ it.nextOff ∧ Element m it e o t
  elem' : ∃ it', it'.len = len ∧ Element m' it' e' o t
  off : e'.off = e.off
  next : e'.nextOff = e.nextOff

/-- What iteration shows of an element besides its value. -/
structure Alike (e e' : BsonIter) : Prop where
  off : e'.off = e.off
  type : iterType e' = iterType e
  key : e'.key = e.key
  keyText : cText (e'.pointer e'.key) = cText (e.pointer e.key)
  next : e'.nextOff = e.nextOff
  len : e'.len = e.len

/-- Every accessor returns the same. -/
structure SameReturns (e e' : BsonIter) : Prop where
  utf8 : bsonIterUtf8 e' = bsonIterUtf8 e
  code : bsonIterCode e' = bsonIterCode e
  symbol : bsonIterSymbol e' = bsonIterSymbol e
  codewscope : bsonIterCodewscope e' = bsonIterCodewscope e
  regex : bsonIterRegex e' = bsonIterRegex e
  dbpointer : bsonIterDbpointer e' = bsonIterDbpointer e
  binary : bsonIterBinary e' = bsonIterBinary e
  document : bsonIterDocument e' = bsonIterDocument e
  array : bsonIterArray e' = bsonIterArray e
  oid : bsonIterOid e' = bsonIterOid e
  bool : bsonIterBool e' = bsonIterBool e
  double : bsonIterDouble e' = bsonIterDouble e
  int32 : bsonIterInt32 e' = bsonIterInt32 e
  int64 : bsonIterInt64 e' = bsonIterInt64 e
  dateTime : bsonIterDateTime e' = bsonIterDateTime e
  timestamp : bsonIterTimestamp e' = bsonIterTimestamp e
  decimal128 : bsonIterDecimal128 e' = bsonIterDecimal128 e

/-- A C string ends at the same NUL. -/
theorem cText_slice_congr {m m' : Mem} {o n z : Nat} (agree : Agree m m' o (z + 1)) (ho : o ≤ z)
    (hz : z < o + n) (hnul : m z = 0) : cText (m'.slice o n) = cText (m.slice o n) := by
  induction n generalizing o with
  | zero => omega
  | succ n ih =>
    have hb := agree o (Nat.le_refl o) (by omega)
    rw [Mem.slice_succ, Mem.slice_succ, hb]
    by_cases h0 : m o = 0
    · simp [cText, h0]
    · have hne : o ≠ z := fun h => h0 (h ▸ hnul)
      have hrest := ih (agree.mono (Nat.le_succ o) (Nat.le_refl _)) (by omega) (by omega)
      have hcons : ∀ rest, cText (m o :: rest) = m o :: cText rest := by
        intro rest
        simp [cText, h0]
      rw [hcons, hcons]
      exact congrArg (m o :: ·) hrest

section Pairs

variable {m m' : Mem} {e e' : BsonIter} {len o : Nat} {t : BsonType}

theorem Paired.alike (h : Paired m m' len e e' o t) (agree : Agree m m' e.off o) : Alike e e' := by
  obtain ⟨⟨it, hlen, -, -, he⟩, ⟨it', hlen', he'⟩, hoff, hnext⟩ := h
  have h1 := he.off
  have h2 := he'.off
  have hkey : e'.key = e.key := by
    rw [he'.key, he.key]
    omega
  have hlens : e'.len = e.len := by rw [he'.len, he.len, hlen, hlen']
  have hin := he.inside
  have hend := he.keyEnd
  refine ⟨hoff, by rw [he'.iterType_eq, he.iterType_eq], hkey, ?_, hnext, hlens⟩
  rw [BsonIter.pointer, BsonIter.pointer, he'.mem_eq, he.mem_eq, hkey, hlens, he.key, he.len]
  have hagree : Agree m m' (it.nextOff + 1) (o - 1 + 1) := agree.mono (by omega) (by omega)
  exact cText_slice_congr hagree (by omega) (by omega) he.keyNul

/-- Twins behind the element. -/
theorem Paired.twin (h : Paired m m' len e e' o t) : Twin m m' e e' := by
  obtain ⟨⟨it, hlen, hmax, h4, he⟩, ⟨it', hlen', he'⟩, hoff, hnext⟩ := h
  have hprog := he.progress
  refine ⟨he.raw, he'.raw, by rw [he'.len, he.len, hlen, hlen'], hnext, by omega, ?_⟩
  rw [he.len]
  exact hmax

/-- What the accessors read is the value, or the length word of a nested document. -/
theorem Paired.sameReturns (h : Paired m m' len e e' o t) {hi : Nat} (agree : Agree m m' e.off hi)
    (hvalue : ¬ (t = .document ∨ t = .array) → e.nextOff ≤ hi)
    (hword : t = .document ∨ t = .array → o + 4 ≤ hi) : SameReturns e e' := by
  obtain ⟨⟨it, hlen, hmax, h4, he⟩, ⟨it', hlen', he'⟩, hoff, hnext⟩ := h
  have htype := he.iterType_eq
  have htype' := he'.iterType_eq
  have hm := he.mem_eq
  have hm' := he'.mem_eq
  have hkey := he.keyEnd
  have heoff := he.off
  have hlay := he.layout
  have hf := he.fields
  have hf' := he'.fields
  have hread : ∀ p n, o ≤ p → p + n ≤ hi → m'.le p n = m.le p n :=
    fun p n hp hn => agree.le (by omega) hn
  have hbyte : ∀ p, o ≤ p → p < hi → m' p = m p := fun p hp hn => agree p (by omega) hn
  have hlens : t = .utf8 ∨ t = .code ∨ t = .symbol →
      e'.d2 = e.d2 ∧ bsonIterUtf8LenUnsafe e' = bsonIterUtf8LenUnsafe e := by
    intro ht
    have hlay' : 1 ≤ m.le o 4 ∧ e.nextOff = o + 4 + m.le o 4 ∧ m (o + m.le o 4 + 3) = 0 := by
      rcases ht with rfl | rfl | rfl <;> exact hlay
    have hd : e.d1 = o ∧ e.d2 = o + 4 := by
      rcases ht with rfl | rfl | rfl <;> exact hf
    have hd' : e'.d1 = o ∧ e'.d2 = o + 4 := by
      rcases ht with rfl | rfl | rfl <;> exact hf'
    have hstop := hvalue (by rcases ht with rfl | rfl | rfl <;> decide)
    have hle := hread o 4 (Nat.le_refl o) (by omega)
    refine ⟨by omega, ?_⟩
    rw [bsonIterUtf8LenUnsafe, bsonIterUtf8LenUnsafe, hm, hm', hd.1, hd'.1, hle]
  refine ⟨?_, ?_, ?_, ?_, ?_, ?_, ?_, ?_, ?_, ?_, ?_, ?_, ?_, ?_, ?_, ?_, ?_⟩
  · by_cases ht : t = .utf8
    · obtain ⟨h1, h2⟩ := hlens (Or.inl ht)
      rw [bsonIterUtf8, bsonIterUtf8, htype, htype', h1, h2]
    · simp [bsonIterUtf8, htype, htype', ht]
  · by_cases ht : t = .code
    · obtain ⟨h1, h2⟩ := hlens (Or.inr (Or.inl ht))
      rw [bsonIterCode, bsonIterCode, htype, htype', h1, h2]
    · simp [bsonIterCode, htype, htype', ht]
  · by_cases ht : t = .symbol
    · obtain ⟨h1, h2⟩ := hlens (Or.inr (Or.inr ht))
      rw [bsonIterSymbol, bsonIterSymbol, htype, htype', h1, h2]
    · simp [bsonIterSymbol, htype, htype', ht]
  · by_cases ht : t = .codewscope
    · subst ht
      have hstop := hvalue (by decide)
      obtain ⟨f1, f2, f3, f4⟩ := hf
      obtain ⟨g1, g2, g3, g4⟩ := hf'
      obtain ⟨h1, h2, h3, h5, h6⟩ := hlay
      have hcode := hread (o + 4) 4 (by omega) (by omega)
      have hscope := hread (o + 8 + m.le (o + 4) 4) 4 (by omega) (by omega)
      rw [bsonIterCodewscope, bsonIterCodewscope, htype, htype', hm, hm', f2, f3, f4, g2, g3, g4,
        hcode, hscope]
    · simp [bsonIterCodewscope, htype, htype', ht]
  · by_cases ht : t = .regex
    · subst ht
      have hstop := hvalue (by decide)
      obtain ⟨f1, f2, f3, f4, f5⟩ := hf
      obtain ⟨g1, g2, g3, g4, g5⟩ := hf'
      have hd : e'.d2 = e.d2 := by
        have hlt : ¬ e'.d2 < e.d2 := by
          intro hlt
          rw [hbyte _ (by omega) (by omega)] at g4
          exact f5 (e'.d2 - 1) (by omega) (by omega) g4
        have hgt : ¬ e.d2 < e'.d2 := by
          intro hgt
          rw [← hbyte _ (by omega) (by omega)] at f4
          exact g5 (e.d2 - 1) (by omega) (by omega) f4
        omega
      rw [bsonIterRegex, bsonIterRegex, htype, htype', f1, g1, hd]
    · simp [bsonIterRegex, htype, htype', ht]
  · by_cases ht : t = .dbpointer
    · subst ht
      have hstop := hvalue (by decide)
      obtain ⟨f1, f2, f3⟩ := hf
      obtain ⟨g1, g2, g3⟩ := hf'
      obtain ⟨h1, h2, h3⟩ := hlay
      have hle := hread o 4 (Nat.le_refl o) (by omega)
      rw [bsonIterDbpointer, bsonIterDbpointer, htype, htype', hm, hm', f1, f2, f3, g1, g2, g3, hle]
    · simp [bsonIterDbpointer, htype, htype', ht]
  · by_cases ht : t = .binary
    · subst ht
      have hstop := hvalue (by decide)
      obtain ⟨f1, f2, f3⟩ := hf
      obtain ⟨g1, g2, g3⟩ := hf'
      obtain ⟨h1, h2⟩ := hlay
      have hle := hread o 4 (Nat.le_refl o) (by omega)
      have hsub := hbyte (o + 4) (by omega) (by omega)
      rw [bsonIterBinary, bsonIterBinary, htype, htype', hm, hm', f1, f2, f3, g1, g2, g3, hle, hsub]
    · simp [bsonIterBinary, htype, htype', ht]
  · by_cases ht : t = .document
    · have hle := hread o 4 (Nat.le_refl o) (hword (Or.inl ht))
      subst ht
      have hd : e.d1 = o := hf
      have hd' : e'.d1 = o := hf'
      rw [bsonIterDocument, bsonIterDocument, htype, htype', hm, hm', hd, hd', hle]
    · simp [bsonIterDocument, htype, htype', ht]
  · by_cases ht : t = .array
    · have hle := hread o 4 (Nat.le_refl o) (hword (Or.inr ht))
      subst ht
      have hd : e.d1 = o := hf
      have hd' : e'.d1 = o := hf'
      rw [bsonIterArray, bsonIterArray, htype, htype', hm, hm', hd, hd', hle]
    · simp [bsonIterArray, htype, htype', ht]
  · by_cases ht : t = .oid
    · subst ht
      have hd : e.d1 = o := hf
      have hd' : e'.d1 = o := hf'
      rw [bsonIterOid, bsonIterOid, htype, htype', hd, hd']
    · simp [bsonIterOid, htype, htype', ht]
  · by_cases ht : t = .bool
    · subst ht
      have hstop := hvalue (by decide)
      have hd : e.d1 = o := hf
      have hd' : e'.d1 = o := hf'
      have hend : e.nextOff = o + 1 := hlay.2
      have hb := hbyte o (Nat.le_refl o) (by omega)
      rw [bsonIterBool, bsonIterBool, htype, htype', hm, hm', hd, hd', hb]
    · simp [bsonIterBool, htype, htype', ht]
  · by_cases ht : t = .double
    · subst ht
      have hstop := hvalue (by decide)
      have hd : e.d1 = o := hf
      have hd' : e'.d1 = o := hf'
      have hend : e.nextOff = o + 8 := hlay
      have hle := hread o 8 (Nat.le_refl o) (by omega)
      rw [bsonIterDouble, bsonIterDouble, htype, htype', hm, hm', hd, hd', hle]
    · simp [bsonIterDouble, htype, htype', ht]
  · by_cases ht : t = .int32
    · subst ht
      have hstop := hvalue (by decide)
      have hd : e.d1 = o := hf
      have hd' : e'.d1 = o := hf'
      have hend : e.nextOff = o + 4 := hlay
      have hle := hread o 4 (Nat.le_refl o) (by omega)
      rw [bsonIterInt32, bsonIterInt32, htype, htype', hm, hm', hd, hd', hle]
    · simp [bsonIterInt32, htype, htype', ht]
  · by_cases ht : t = .int64
    · subst ht
      have hstop := hvalue (by decide)
      have hd : e.d1 = o := hf
      have hd' : e'.d1 = o := hf'
      have hend : e.nextOff = o + 8 := hlay
      have hle := hread o 8 (Nat.le_refl o) (by omega)
      rw [bsonIterInt64, bsonIterInt64, htype, htype', hm, hm', hd, hd', hle]
    · simp [bsonIterInt64, htype, htype', ht]
  · by_cases ht : t = .dateTime
    · subst ht
      have hstop := hvalue (by decide)
      have hd : e.d1 = o := hf
      have hd' : e'.d1 = o := hf'
      have hend : e.nextOff = o + 8 := hlay
      have hle := hread o 8 (Nat.le_refl o) (by omega)
      rw [bsonIterDateTime, bsonIterDateTime, htype, htype', hm, hm', hd, hd', hle]
    · simp [bsonIterDateTime, htype, htype', ht]
  · by_cases ht : t = .timestamp
    · subst ht
      have hstop := hvalue (by decide)
      have hd : e.d1 = o := hf
      have hd' : e'.d1 = o := hf'
      have hend : e.nextOff = o + 8 := hlay
      have hle := hread o 8 (Nat.le_refl o) (by omega)
      rw [bsonIterTimestamp, bsonIterTimestamp, htype, htype', hm, hm', hd, hd', hle]
    · simp [bsonIterTimestamp, htype, htype', ht]
  · by_cases ht : t = .decimal128
    · subst ht
      have hstop := hvalue (by decide)
      have hd : e.d1 = o := hf
      have hd' : e'.d1 = o := hf'
      have hend : e.nextOff = o + 16 := hlay
      have hle := hread o 8 (Nat.le_refl o) (by omega)
      have hle' := hread (o + 8) 8 (by omega) (by omega)
      rw [bsonIterDecimal128, bsonIterDecimal128, htype, htype', hm, hm', hd, hd', hle, hle']
    · simp [bsonIterDecimal128, htype, htype', ht]

theorem Paired.octets (h : Paired m m' len e e' o t) (agree : Agree m m' e.off e.nextOff) :
    Agree e.mem e'.mem e.off e.nextOff := by
  obtain ⟨⟨it, -, -, -, he⟩, ⟨it', -, he'⟩, -, -⟩ := h
  rw [he.mem_eq, he'.mem_eq]
  exact agree

end Pairs

/-! ## A level and what is nested in it -/

section Levels

variable {m m' : Mem} {it it' : BsonIter}

/-- A step that succeeds on the first side and keeps its layout on the second. -/
theorem Paired.of_step {o : Nat} {t : BsonType} (htwin : Twin m m' it it')
    (he : Element m it (bsonIterNext it).2 o t)
    (h : (bsonIterNextInternal it').ok = true ∧ Element m' it' (bsonIterNext it').2 o t ∧
      (bsonIterNext it').2.nextOff = (bsonIterNext it).2.nextOff) :
    Paired m m' it.len (bsonIterNext it).2 (bsonIterNext it').2 o t where
  elem := ⟨it, rfl, htwin.max, htwin.start, he⟩
  elem' := ⟨it', htwin.len, h.2.1⟩
  off := by rw [h.2.1.off, he.off, htwin.next]
  next := h.2.2

/-- What `nth` finds on both sides, in front of the octet `lo`. -/
def NthPaired (m m' : Mem) (len lo : Nat) (x x' : Option BsonIter) : Prop :=
  (x = none ∧ x' = none) ∨
    ∃ e e' o t, x = some e ∧ x' = some e' ∧ Paired m m' len e e' o t ∧ lo ≤ e.off

theorem nth_same (htwin : Twin m m' it it') (agree : Agree m m' it.nextOff it.len) (i : Nat) :
    NthPaired m m' it.len it.nextOff (it.nth i) (it'.nth i) := by
  induction i generalizing it it' with
  | zero =>
    cases hok : (bsonIterNextInternal it).ok with
    | false =>
      have hok' := step_fails htwin agree hok
      refine Or.inl ⟨?_, ?_⟩
      · simp [BsonIter.nth, bsonIterNext, hok]
      · simp [BsonIter.nth, bsonIterNext, hok']
    | true =>
      obtain ⟨o, t, he⟩ := element_of_next htwin.raw htwin.start htwin.max hok
      have hstep := step_same htwin he agree he.covers
      refine Or.inr ⟨_, _, o, t, ?_, ?_, Paired.of_step htwin he hstep, Nat.le_of_eq he.off.symm⟩
      · simp [BsonIter.nth, bsonIterNext, hok]
      · simp [BsonIter.nth, bsonIterNext, hstep.1]
  | succ i ih =>
    cases hok : (bsonIterNextInternal it).ok with
    | false =>
      have hok' := step_fails htwin agree hok
      refine Or.inl ⟨?_, ?_⟩
      · simp [BsonIter.nth, bsonIterNext, hok]
      · simp [BsonIter.nth, bsonIterNext, hok']
    | true =>
      obtain ⟨o, t, he⟩ := element_of_next htwin.raw htwin.start htwin.max hok
      have hstep := step_same htwin he agree he.covers
      have hpair := Paired.of_step htwin he hstep
      have hprog := he.progress
      have hlen : (bsonIterNext it).2.len = it.len := he.len
      have hmore : it.nextOff ≤ (bsonIterNext it).2.nextOff :=
        Nat.le_trans (Nat.le_add_right _ 2) hprog.1
      have hrest := ih hpair.twin (agree.mono hmore (Nat.le_of_eq hlen))
      have hnth : it.nth (i + 1) = (bsonIterNext it).2.nth i := by
        simp [BsonIter.nth, bsonIterNext, hok]
      have hnth' : it'.nth (i + 1) = (bsonIterNext it').2.nth i := by
        simp [BsonIter.nth, bsonIterNext, hstep.1]
      rw [hnth, hnth', ← hlen]
      rcases hrest with hnone | ⟨e, e', o', t', h1, h2, h3, h4⟩
      · exact Or.inl hnone
      · exact Or.inr ⟨e, e', o', t', h1, h2, h3, by omega⟩

/-- Both sides recurse, into the same octets of their buffers, or neither does. -/
theorem Paired.recurse {len o : Nat} {e e' : BsonIter} {t : BsonType}
    (h : Paired m m' len e e' o t) {hi : Nat} (agree : Agree m m' o hi)
    (hword : t = .document ∨ t = .array → o + 4 ≤ hi) :
    (bsonIterRecurse e = none ∧ bsonIterRecurse e' = none) ∨
      (t = .document ∨ t = .array) ∧ e.d1 = o ∧ e'.d1 = o ∧ e.nextOff = o + m.le o 4 ∧
        bsonIterRecurse e = some (BsonIter.start (some (m.shift o)) (m.le o 4)) ∧
        bsonIterRecurse e' = some (BsonIter.start (some (m'.shift o)) (m.le o 4)) := by
  obtain ⟨⟨it, -, -, -, he⟩, ⟨it', -, he'⟩, -, -⟩ := h
  by_cases ht : t = .document ∨ t = .array
  · have hle : m'.le o 4 = m.le o 4 := agree.le (Nat.le_refl o) (hword ht)
    have hd : e.d1 = o := by
      have hf := he.fields
      rcases ht with rfl | rfl <;> exact hf
    have hd' : e'.d1 = o := by
      have hf := he'.fields
      rcases ht with rfl | rfl <;> exact hf
    refine Or.inr ⟨ht, hd, hd', he.nested_len ht, ?_, ?_⟩
    · rcases ht with rfl | rfl
      · simp [bsonIterRecurse, he.iterType_eq, bsonIterDocument, he.mem_eq, hd]
      · simp [bsonIterRecurse, he.iterType_eq, bsonIterArray, he.mem_eq, hd]
    · rcases ht with rfl | rfl
      · simp [bsonIterRecurse, he'.iterType_eq, bsonIterDocument, he'.mem_eq, hd', hle]
      · simp [bsonIterRecurse, he'.iterType_eq, bsonIterArray, he'.mem_eq, hd', hle]
  · refine Or.inl ⟨?_, ?_⟩
    · rw [bsonIterRecurse, he.iterType_eq]
      cases t <;> simp at ht ⊢
    · rw [bsonIterRecurse, he'.iterType_eq]
      cases t <;> simp at ht ⊢

/-- Iterators opened on the same octets of two buffers. -/
theorem twin_start (m m' : Mem) {a : Nat} (ha : a ≤ maxLen) :
    Twin m m' (BsonIter.start (some m) a) (BsonIter.start (some m') a) :=
  ⟨rfl, rfl, rfl, rfl, Nat.le_refl 4, ha⟩

/-- The same element is found on both sides, with the same value where `P` asks so and
the same octets where `Q` does. -/
def FoundAlike (P Q : Prop) (x x' : Option (Nat × BsonIter)) : Prop :=
  (x = none ∧ x' = none) ∨
    ∃ base e e', x = some (base, e) ∧ x' = some (base, e') ∧ Alike e e' ∧
      (P → SameReturns e e') ∧ (Q → Agree e.mem e'.mem e.off e.nextOff)

theorem FoundAlike.imp {P P' Q Q' : Prop} {x x' : Option (Nat × BsonIter)}
    (h : FoundAlike P' Q' x x') (hp : P → P') (hq : Q → Q') : FoundAlike P Q x x' := by
  rcases h with hnone | ⟨base, e, e', h1, h2, h3, h4, h5⟩
  · exact Or.inl hnone
  · exact Or.inr ⟨base, e, e', h1, h2, h3, fun h => h4 (hp h), fun h => h5 (hq h)⟩

/-- Behind the first index, what is found is the element there or one nested in it. -/
theorem foundAlike_cons {P Q : Prop} {i : Nat} {path : List Nat} {len o hi : Nat} {e e' : BsonIter}
    {t : BsonType} (hnth : it.nth i = some e) (hnth' : it'.nth i = some e')
    (hp : Paired m m' len e e' o t) (hkey : Agree m m' e.off o) (agree : Agree m m' o hi)
    (hword : t = .document ∨ t = .array → o + 4 ≤ hi)
    (hval : path = [] → P → SameReturns e e')
    (hoctets : path = [] → Q → Agree e.mem e'.mem e.off e.nextOff)
    (hchild : path ≠ [] → (t = .document ∨ t = .array) → e.nextOff = o + m.le o 4 →
      FoundAlike P Q (elementAt path (BsonIter.start (some (m.shift o)) (m.le o 4)))
        (elementAt path (BsonIter.start (some (m'.shift o)) (m.le o 4)))) :
    FoundAlike P Q (elementAt (i :: path) it) (elementAt (i :: path) it') := by
  rw [elementAt, elementAt, hnth, hnth', Option.bind_some, Option.bind_some]
  by_cases hpath : path = []
  · rw [if_pos hpath, if_pos hpath]
    exact Or.inr ⟨0, e, e', rfl, rfl, hp.alike hkey, hval hpath, hoctets hpath⟩
  · rw [if_neg hpath, if_neg hpath]
    rcases hp.recurse agree hword with ⟨h1, h2⟩ | ⟨ht, hd, hd', hn, h1, h2⟩
    · rw [h1, h2]
      exact Or.inl ⟨rfl, rfl⟩
    · rw [h1, h2, Option.bind_some, Option.bind_some, hd, hd']
      rcases hchild hpath ht hn with ⟨h3, h4⟩ | ⟨base, x, x', h3, h4, h5⟩
      · rw [h3, h4]
        exact Or.inl ⟨rfl, rfl⟩
      · rw [h3, h4]
        exact Or.inr ⟨o + base, x, x', rfl, rfl, h5⟩

/-- Where all that is ahead is the same, so is every element. -/
theorem elementAt_same {P Q : Prop} (way : List Nat) (htwin : Twin m m' it it')
    (agree : Agree m m' it.nextOff it.len) :
    FoundAlike P Q (elementAt way it) (elementAt way it') := by
  induction way generalizing m m' it it' with
  | nil => exact Or.inl ⟨rfl, rfl⟩
  | cons i path ih =>
    rcases nth_same htwin agree i with ⟨h1, h2⟩ | ⟨e, e', o, t, h1, h2, hp, hlo⟩
    · refine Or.inl ⟨?_, ?_⟩
      · rw [elementAt, h1]
        rfl
      · rw [elementAt, h2]
        rfl
    · obtain ⟨jt, hlen, hmax, h4, he⟩ := hp.elem
      have hcov := he.covers
      rw [hlen] at hcov
      have hin := he.inside
      have hkey := he.keyEnd
      have hoff := he.off
      have hstop := he.stop
      have hsame : Agree m m' o it.len := agree.mono (by omega) (Nat.le_refl _)
      apply foundAlike_cons h1 h2 hp (agree.mono hlo (by omega)) hsame hcov.word
      · intro _ _
        exact hp.sameReturns (agree.mono hlo (Nat.le_refl _)) (fun _ => hcov.value) hcov.word
      · intro _ _
        exact hp.octets (agree.mono hlo hcov.value)
      · intro _ _ hn
        have htwin' := twin_start (m.shift o) (m'.shift o) (a := m.le o 4) (by omega)
        apply ih htwin'
        exact Agree.shift (hsame.mono (by simp only [BsonIter.start]; omega)
          (by simp only [BsonIter.start]; omega))

end Levels

/-! ## The overwritten element -/

/-- The value a call writes. -/
def Overwrite.value : Overwrite → Value
  | bool v => .bool v
  | int32 v => .int32 v
  | int64 v => .int64 v
  | double v => .double v
  | decimal128 l h => .decimal128 l h

theorem Overwrite.value_type (w : Overwrite) : w.value.type = w.type := by
  cases w <;> rfl

theorem Overwrite.value_encode (w : Overwrite) : w.value.encode = w.octets := by
  cases w <;> simp only [value, Value.encode, octets]

theorem Overwrite.not_nested {w : Overwrite} (h : w.type = .document ∨ w.type = .array) : False := by
  cases w <;> simp [type] at h

/-- A value of such a type fills its element. -/
theorem Overwrite.extent (w : Overwrite) {m : Mem} {it e : BsonIter} {o : Nat}
    (he : Element m it e o w.type) : e.d1 = o ∧ e.nextOff = o + w.octets.length := by
  have hf := he.fields
  have hlay := he.layout
  cases w with
  | bool v => exact ⟨hf, hlay.2⟩
  | int32 v => exact ⟨hf, by rw [octets, leBytes_length]; exact hlay⟩
  | int64 v => exact ⟨hf, by rw [octets, leBytes_length]; exact hlay⟩
  | double v => exact ⟨hf, by rw [octets, leBytes_length]; exact hlay⟩
  | decimal128 l h =>
    exact ⟨hf, by rw [octets, List.length_append, leBytes_length, leBytes_length]; exact hlay⟩

theorem Overwrite.layout (w : Overwrite) {m : Mem} {len o : Nat} (h : Holds m o w.octets)
    (hlen : o + w.octets.length < len) (hmax : len ≤ maxLen) :
    Layout m len o (o + w.octets.length) w.type := by
  rw [← w.value_encode] at h hlen ⊢
  rw [← w.value_type]
  exact layout_of_encode h hlen hmax

theorem Overwrite.returned (w : Overwrite) {m : Mem} {it e : BsonIter} {o : Nat}
    (he : Element m it e o w.type) (h : Holds m o w.octets)
    (hlen : o + w.octets.length < it.len) (hmax : it.len ≤ maxLen) : w.Returned e := by
  rw [← w.value_encode] at h hlen
  rw [← w.value_type] at he
  have hread := reads_of_element w.value he h hlen hmax
  cases w <;> exact hread

section Target

variable {m m' : Mem} {it it' : BsonIter}

/-- An iterator is its own twin. -/
theorem twin_self (hraw : it.raw = some m) (h4 : 4 ≤ it.nextOff) (hmax : it.len ≤ maxLen) :
    Twin m m it it := ⟨hraw, hraw, rfl, rfl, h4, hmax⟩

theorem nth_element (htwin : Twin m m' it it') {i : Nat} {e : BsonIter} (h : it.nth i = some e) :
    ∃ jt o t, jt.len = it.len ∧ it.nextOff ≤ jt.nextOff ∧ Element m jt e o t := by
  have hself := twin_self htwin.raw htwin.start htwin.max
  rcases nth_same hself (fun _ _ _ => rfl) i with ⟨h1, -⟩ | ⟨x, x', o, t, h1, -, hp, hlo⟩
  · rw [h] at h1
    cases h1
  · rw [h] at h1
    cases h1
    obtain ⟨jt, hlen, -, -, he⟩ := hp.elem
    have hoff := he.off
    exact ⟨jt, o, t, hlen, by omega, he⟩

theorem nth_ok {i : Nat} {e : BsonIter} (h : it.nth i = some e) :
    (bsonIterNextInternal it).ok = true := by
  by_contra hne
  have hfalse : (bsonIterNext it).1 = false := Bool.not_eq_true _ ▸ hne
  cases i with
  | zero => simp [BsonIter.nth, hfalse] at h
  | succ i => simp [BsonIter.nth, hfalse] at h

theorem nth_succ {i : Nat} {e : BsonIter} (h : it.nth (i + 1) = some e) :
    (bsonIterNextInternal it).ok = true ∧ (bsonIterNext it).2.nth i = some e := by
  have hok := nth_ok h
  simp only [BsonIter.nth, bsonIterNext, hok, if_true] at h
  exact ⟨hok, h⟩

/-- A nested document that another element follows has all of its length word. -/
theorem word_of_followed {e f : BsonIter} {o p : Nat} {t u : BsonType}
    (he : Element m it e o t) (hf : Element m e f p u) : Covers t o e.nextOff e.nextOff where
  value := Nat.le_refl _
  word := by
    intro ht
    have hn := he.nested_len ht
    by_contra hlt
    have htype := hf.typeByte
    -- the type octet of the next element would be one of the zeroes of the word
    have hzero : m (o + m.le o 4) = 0 := by
      have hword := holds_le m o 4
      obtain ⟨x, hx⟩ : ∃ x, m.le o 4 = x := ⟨_, rfl⟩
      rw [hx] at hword ⊢
      have hsmall : x = 0 ∨ x = 1 ∨ x = 2 ∨ x = 3 := by omega
      rcases hsmall with rfl | rfl | rfl | rfl
      · exact hword.get 0 (by decide)
      · exact hword.get 1 (by decide)
      · exact hword.get 2 (by decide)
      · exact hword.get 3 (by decide)
    rw [hn, hzero] at htype
    have hu : u = .eod := by
      cases u <;> simp [BsonType.toByte] at htype ⊢
    have hlay := hf.layout
    rw [hu] at hlay
    exact hlay

/-- The first of the elements in front of the one that `nth` finds. -/
theorem first_before (htwin : Twin m m' it it') {i : Nat} {e : BsonIter}
    (h : it.nth (i + 1) = some e) (agree : Agree m m' it.nextOff e.off) :
    ∃ o t, Paired m m' it.len (bsonIterNext it).2 (bsonIterNext it').2 o t ∧
      (bsonIterNextInternal it').ok = true ∧
      Covers t o (bsonIterNext it).2.nextOff (bsonIterNext it).2.nextOff ∧
      (bsonIterNext it).2.nextOff ≤ e.off ∧ (bsonIterNext it).2.nth i = some e := by
  obtain ⟨hok, hnth⟩ := nth_succ h
  obtain ⟨o, t, he⟩ := element_of_next htwin.raw htwin.start htwin.max hok
  have hprog := he.progress
  have hstart := htwin.start
  have hself : Twin m m (bsonIterNext it).2 (bsonIterNext it).2 :=
    twin_self he.raw (by simp only [bsonIterNext]; omega) (by rw [bsonIterNext, he.len]; exact htwin.max)
  obtain ⟨jt, p, u, hjlen, hjoff, hj⟩ := nth_element hself hnth
  have hjo := hj.off
  have hcov : Covers t o (bsonIterNext it).2.nextOff (bsonIterNext it).2.nextOff := by
    obtain ⟨p', u', hf⟩ := element_of_next hself.raw hself.start hself.max (nth_ok hnth)
    exact word_of_followed he hf
  have hle : (bsonIterNext it).2.nextOff ≤ e.off := by omega
  have hstep := step_same htwin he (agree.mono (Nat.le_refl _) hle) hcov
  exact ⟨o, t, Paired.of_step htwin he hstep, hstep.1, hcov, hle, hnth⟩

theorem element_unique {jt e : BsonIter} {o p : Nat} {t u : BsonType} (he : Element m it e o t)
    (hf : Element m jt e p u) : o = p ∧ t = u := by
  have hoff : jt.nextOff = it.nextOff := by rw [← hf.off, he.off]
  have hlen : jt.len = it.len := by rw [← hf.len, he.len]
  have hends : KeyEnds m it p := by
    have hk := hf.keyEnds
    rw [KeyEnds, hoff, hlen] at hk
    exact hk
  refine ⟨he.keyEnds.unique hends, BsonType.toByte_injective ?_⟩
  rw [← he.typeByte, ← hf.typeByte, hoff]

theorem nth_zero {e : BsonIter} (h : it.nth 0 = some e) : (bsonIterNext it).2 = e := by
  have hok : (bsonIterNext it).1 = true := nth_ok h
  rw [BsonIter.nth, if_pos hok] at h
  exact Option.some.inj h

theorem nth_of_step {i : Nat} (hok : (bsonIterNextInternal it).ok = true) :
    it.nth 0 = some (bsonIterNext it).2 ∧ it.nth (i + 1) = (bsonIterNext it).2.nth i := by
  have hnext : (bsonIterNext it).1 = true := hok
  exact ⟨by rw [BsonIter.nth, if_pos hnext], by rw [BsonIter.nth, if_pos hnext]⟩

/-- The element is found on the second side if its layout is kept there. -/
theorem nth_target (htwin : Twin m m' it it') {i : Nat} {e : BsonIter} {o : Nat} {t : BsonType}
    (h : it.nth i = some e) (hat : ∃ jt, Element m jt e o t) (agree : Agree m m' it.nextOff o)
    (hlay : Layout m' it.len o e.nextOff t) :
    ∃ e', it'.nth i = some e' ∧ Paired m m' it.len e e' o t := by
  induction i generalizing it it' with
  | zero =>
    have hok := nth_ok h
    have heq := nth_zero h
    obtain ⟨o', t', he⟩ := element_of_next htwin.raw htwin.start htwin.max hok
    have he' : Element m it (bsonIterNext it).2 o' t' := he
    rw [heq] at he'
    obtain ⟨jt, hj⟩ := hat
    obtain ⟨rfl, rfl⟩ := element_unique he' hj
    rw [← heq] at he' hlay
    have hstep := step_of_layout htwin he' agree hlay
    refine ⟨_, (nth_of_step (i := 0) hstep.1).1, ?_⟩
    rw [← heq]
    exact Paired.of_step htwin he' hstep
  | succ i ih =>
    have hoff : e.off < o := by
      obtain ⟨jt, hj⟩ := hat
      have hkey := hj.keyEnd
      have hjoff := hj.off
      omega
    obtain ⟨o0, t0, hp, hok', -, hle, hnth⟩ :=
      first_before htwin h (agree.mono (Nat.le_refl _) (by omega))
    obtain ⟨o1, t1, he⟩ := element_of_next htwin.raw htwin.start htwin.max (nth_ok h)
    have hprog : it.nextOff + 2 ≤ (bsonIterNext it).2.nextOff := he.progress.1
    have hlen : (bsonIterNext it).2.len = it.len := he.len
    obtain ⟨e', he', hpe⟩ := ih hp.twin hnth (agree.mono (by omega) (Nat.le_refl o))
      (by rw [hlen]; exact hlay)
    refine ⟨e', ?_, by rw [← hlen]; exact hpe⟩
    rw [(nth_of_step hok').2, he']

/-- The elements in front of one are the same as far as their octets are. -/
theorem nth_before (htwin : Twin m m' it it') {i k : Nat} {e : BsonIter} (h : it.nth i = some e)
    (hk : k < i) (agree : Agree m m' it.nextOff e.off) :
    ∃ x x' o t, it.nth k = some x ∧ it'.nth k = some x' ∧ Paired m m' it.len x x' o t ∧
      it.nextOff ≤ x.off ∧ x.nextOff ≤ e.off ∧ Covers t o x.nextOff x.nextOff := by
  induction i generalizing it it' k with
  | zero => exact absurd hk (Nat.not_lt_zero k)
  | succ i ih =>
    obtain ⟨o0, t0, hp, hok', hcov, hle, hnth⟩ := first_before htwin h agree
    have hok := nth_ok h
    obtain ⟨o1, t1, he⟩ := element_of_next htwin.raw htwin.start htwin.max hok
    have hoff : (bsonIterNext it).2.off = it.nextOff := he.off
    have hprog : it.nextOff + 2 ≤ (bsonIterNext it).2.nextOff := he.progress.1
    have hlen : (bsonIterNext it).2.len = it.len := he.len
    cases k with
    | zero =>
      exact ⟨_, _, o0, t0, (nth_of_step (i := 0) hok).1, (nth_of_step (i := 0) hok').1, hp,
        Nat.le_of_eq hoff.symm, hle, hcov⟩
    | succ k =>
      obtain ⟨x, x', o, t, h1, h2, h3, h4, h5, h6⟩ :=
        ih hp.twin hnth (Nat.lt_of_succ_lt_succ hk) (agree.mono (by omega) (Nat.le_refl _))
      refine ⟨x, x', o, t, ?_, ?_, by rw [← hlen]; exact h3, by omega, h5, h6⟩
      · rw [(nth_of_step hok).2, h1]
      · rw [(nth_of_step hok').2, h2]

theorem nth_add {i : Nat} {e : BsonIter} (h : it.nth i = some e) (j : Nat) :
    it.nth (i + 1 + j) = e.nth j := by
  induction i generalizing it with
  | zero =>
    rw [Nat.zero_add, Nat.add_comm 1 j, (nth_of_step (nth_ok h)).2, nth_zero h]
  | succ i ih =>
    obtain ⟨hok, hnth⟩ := nth_succ h
    rw [Nat.add_right_comm, (nth_of_step hok).2]
    exact ih hnth

/-- An element behind the first index is that element or one in the document there. -/
theorem elementAt_cons {i base : Nat} {path : List Nat} {e : BsonIter}
    (h : elementAt (i :: path) it = some (base, e)) :
    ∃ x, it.nth i = some x ∧
      ((path = [] ∧ base = 0 ∧ e = x) ∨
        (path ≠ [] ∧ ∃ child inner, bsonIterRecurse x = some child ∧
          elementAt path child = some (inner, e) ∧ base = x.d1 + inner)) := by
  rw [elementAt] at h
  obtain ⟨x, hx, hrest⟩ := Option.bind_eq_some_iff.mp h
  refine ⟨x, hx, ?_⟩
  by_cases hpath : path = []
  · rw [if_pos hpath] at hrest
    cases hrest
    exact Or.inl ⟨hpath, rfl, rfl⟩
  · rw [if_neg hpath] at hrest
    obtain ⟨child, hchild, hfound⟩ := Option.bind_eq_some_iff.mp hrest
    obtain ⟨⟨inner, y⟩, hy, heq⟩ := Option.map_eq_some_iff.mp hfound
    cases heq
    exact Or.inr ⟨hpath, child, inner, hchild, hy, rfl⟩

/-- The octets that a call writes are inside the level it starts from. -/
theorem elementAt_inside (w : Overwrite) (way : List Nat) (htwin : Twin m m' it it') {base : Nat}
    {e : BsonIter} (h : elementAt way it = some (base, e)) (htype : iterType e = some w.type) :
    it.nextOff + 2 ≤ base + e.d1 ∧ base + e.d1 + w.octets.length < it.len := by
  induction way generalizing m m' it it' base e with
  | nil => cases h
  | cons i path ih =>
    obtain ⟨x, hx, hcases⟩ := elementAt_cons h
    obtain ⟨jt, o, t, hlen, hoff, hj⟩ := nth_element htwin hx
    have hkey := hj.keyEnd
    have hstop := hj.stop
    rcases hcases with ⟨-, rfl, rfl⟩ | ⟨-, child, inner, hchild, hin, rfl⟩
    · have ht := hj.type_eq htype
      subst ht
      obtain ⟨hd, hend⟩ := w.extent hj
      omega
    · obtain ⟨ht, rfl⟩ := recurse_child hj hchild
      have hn := hj.nested_len ht
      have hd : x.d1 = o := by
        have hf := hj.fields
        rcases ht with rfl | rfl <;> exact hf
      have hmax := htwin.max
      obtain ⟨h1, h2⟩ := ih (twin_start (m.shift o) (m.shift o) (a := m.le o 4) (by omega))
        hin htype
      simp only [BsonIter.start] at h1 h2
      omega

/-- The octets that a call writes are all of the element behind its key. -/
theorem elementAt_extent (w : Overwrite) (way : List Nat) (htwin : Twin m m' it it') {base : Nat}
    {e : BsonIter} (h : elementAt way it = some (base, e)) (htype : iterType e = some w.type) :
    e.off < e.d1 ∧ e.nextOff = e.d1 + w.octets.length := by
  induction way generalizing m m' it it' base e with
  | nil => cases h
  | cons i path ih =>
    obtain ⟨x, hx, hcases⟩ := elementAt_cons h
    obtain ⟨jt, o, t, hlen, hoff, hj⟩ := nth_element htwin hx
    have hjoff := hj.off
    have hkey := hj.keyEnd
    have hstop := hj.stop
    rcases hcases with ⟨-, rfl, rfl⟩ | ⟨-, child, inner, hchild, hin, rfl⟩
    · have ht := hj.type_eq htype
      subst ht
      obtain ⟨hd, hend⟩ := w.extent hj
      omega
    · obtain ⟨ht, rfl⟩ := recurse_child hj hchild
      have hn := hj.nested_len ht
      have hmax := htwin.max
      exact ih (twin_start (m.shift o) (m'.shift o) (by omega)) hin htype

end Target

end LibBson.Source
