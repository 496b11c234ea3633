import LibBson.Source.Iter
import Mathlib.Tactic.SplitIfs

/-!
# What one iterator step can do

Each branch of the type switch accepts exactly the value layouts listed in
`Layout`, when the value starts at `o` inside a buffer of at most `2 ^ 31`
octets; at these sizes no offset computation of an accepted element wraps.
`next_iff` is the inversion of a whole step: every later fact about iteration
is derived from it and not from the branches.
-/

set_option autoImplicit false

namespace LibBson.Source
open LibBson.Library

/-- Lengths below this bound keep every offset of an accepted element in 32 bits. -/
def maxLen : Nat := 2147483648

/-- The value of type `t` that starts at `o` ends before `stop`, with all the
checks the iterator makes on the way in a buffer of `len` octets. -/
def Layout (m : Mem) (len o stop : Nat) : BsonType → Prop
  | .dateTime | .double | .int64 | .timestamp => stop = o + 8
  | .code | .symbol | .utf8 =>
    1 ≤ m.le o 4 ∧ stop = o + 4 + m.le o 4 ∧ m (o + m.le o 4 + 3) = 0
  | .binary =>
    stop = o + 5 + m.le o 4 ∧
      (m (o + 4) = subtypeBinaryDeprecated → m.le (o + 5) 4 + 4 = m.le o 4)
  | .array | .document => o + 4 < len ∧ stop = o + m.le o 4
  | .oid => stop = o + 12
  | .bool => (m o = 0 ∨ m o = 1) ∧ stop = o + 1
  | .regex => ∃ i j, o ≤ i ∧ i < j ∧ stop = j + 1 ∧ m i = 0 ∧ m j = 0 ∧
      (∀ k, o ≤ k → k < i → m k ≠ 0) ∧ ∀ k, i < k → k < j → m k ≠ 0
  | .dbpointer =>
    1 ≤ m.le o 4 ∧ stop = o + 4 + m.le o 4 + 12 ∧ m (o + m.le o 4 + 3) = 0
  | .codewscope =>
    14 ≤ m.le o 4 ∧ stop = o + m.le o 4 ∧ 1 ≤ m.le (o + 4) 4 ∧
      5 ≤ m.le (o + 8 + m.le (o + 4) 4) 4 ∧
      stop = o + 8 + m.le (o + 4) 4 + m.le (o + 8 + m.le (o + 4) 4) 4
  | .int32 => stop = o + 4
  | .decimal128 => stop = o + 16
  | .maxkey | .minkey | .null | .undefined => stop = o
  | .eod => False

/-- The field offsets the iterator records for a value of type `t` at `o`. -/
def Fields (m : Mem) (o : Nat) (e : BsonIter) : BsonType → Prop
  | .dateTime | .double | .int64 | .timestamp | .array | .document | .oid | .bool | .int32
  | .decimal128 => e.d1 = o
  | .code | .symbol | .utf8 => e.d1 = o ∧ e.d2 = o + 4
  | .binary => e.d1 = o ∧ e.d2 = o + 4 ∧ e.d3 = o + 5
  | .regex => e.d1 = o ∧ o < e.d2 ∧ e.d2 < e.nextOff ∧ m (e.d2 - 1) = 0 ∧
      ∀ k, o ≤ k → k + 1 < e.d2 → m k ≠ 0
  | .dbpointer => e.d1 = o ∧ e.d2 = o + 4 ∧ e.d3 = o + 4 + m.le o 4
  | .codewscope =>
    e.d1 = o ∧ e.d2 = o + 4 ∧ e.d3 = o + 8 ∧ e.d4 = o + 8 + m.le (o + 4) 4
  | .maxkey | .minkey | .null | .undefined | .eod => True

/-- The branches of the switch touch `d1` to `d4` and `next_off` only. -/
def SameElement (it it' : BsonIter) : Prop :=
  it'.raw = it.raw ∧ it'.len = it.len ∧ it'.off = it.off ∧ it'.type = it.type ∧ it'.key = it.key

theorem nextFixed_parsed (it : BsonIter) (o w : Nat) (m : Mem) (it' : BsonIter) (o' : Nat)
    (ho : o ≤ it.len) (hl : it.len ≤ maxLen) (hw : w ≤ 16) :
    (nextFixed it o w).val m = .parsed it' o' ↔ it' = { it with nextOff := o + w } ∧ o' = o := by
  have hu : u32 (o + w) = o + w := u32_of_lt (by unfold maxLen at hl; omega)
  simp [nextFixed, hu, eq_comm]

theorem nextEmpty_parsed (it : BsonIter) (o : Nat) (m : Mem) (it' : BsonIter) (o' : Nat) :
    (nextEmpty it o).val m = .parsed it' o' ↔
      it' = { it with d1 := 4294967295, nextOff := o } ∧ o' = o := by
  simp [nextEmpty, eq_comm]

theorem nextString_parsed (it : BsonIter) (o : Nat) (m : Mem) (it' : BsonIter) (o' : Nat)
    (hd : it.d1 = o) (ho : o ≤ it.len) (hl : it.len ≤ maxLen) :
    (nextString it o).val m = .parsed it' o' ↔
      (1 ≤ m.le o 4 ∧ o + 4 + m.le o 4 < it.len ∧ m (o + m.le o 4 + 3) = 0) ∧
        it' = { it with d2 := o + 4, nextOff := o + 4 + m.le o 4 } ∧ o' = o := by
  have h4 : u32 (o + 4) = o + 4 := u32_of_lt (by unfold maxLen at hl; omega)
  have hlt := m.le_lt o 4
  unfold maxLen at hl
  simp only [nextString, corrupt, hd, h4, Read.val_ite, Read.val_bind, Read.val_le, Read.val_byte,
    Read.val_pure]
  generalize m.le o 4 = l at *
  split_ifs with h1 h2 h3 h5
  · simp; omega
  · rw [u32sub_of_le (by omega) (by omega)] at h2
    simp; omega
  · simp only [u32] at h3
    rw [u32sub_of_le (by omega) (by omega)] at h2
    simp; omega
  · have hz : m (o + l + 3) ≠ 0 := by
      rwa [show o + l + 3 = o + 4 + (l - 1) by omega]
    simp [hz]
  · rw [u32sub_of_le (by omega) (by omega)] at h2
    have hu : u32 (o + 4 + l) = o + 4 + l := u32_of_lt (by omega)
    rw [hu] at h3 ⊢
    have hz : m (o + l + 3) = 0 := by
      rw [show o + l + 3 = o + 4 + (l - 1) by omega]
      simpa using h5
    have hin : 1 ≤ l ∧ o + 4 + l < it.len := by omega
    simp [hz, hin, eq_comm]

theorem nextBinary_parsed (it : BsonIter) (o : Nat) (m : Mem) (it' : BsonIter) (o' : Nat)
    (hd : it.d1 = o) (ho : o ≤ it.len) (hmin : 4 ≤ it.len) (hl : it.len ≤ maxLen) :
    (nextBinary it o).val m = .parsed it' o' ↔
      (o + 4 < it.len ∧ o + m.le o 4 < it.len ∧
        (m (o + 4) = subtypeBinaryDeprecated → m.le (o + 5) 4 + 4 = m.le o 4)) ∧
        it' = { it with d2 := o + 4, d3 := o + 5, nextOff := o + 5 + m.le o 4 } ∧ o' = o := by
  unfold maxLen at hl
  have h4 : u32 (o + 4) = o + 4 := u32_of_lt (by omega)
  have h5 : u32 (o + 5) = o + 5 := u32_of_lt (by omega)
  have hs4 : u32sub it.len 4 = it.len - 4 := u32sub_of_le (by omega) hmin
  have hso : u32sub it.len o = it.len - o := u32sub_of_le (by omega) ho
  have hlt := m.le_lt o 4
  have hlt2 := m.le_lt (o + 5) 4
  simp only [nextBinary, corrupt, hd, h4, h5, hs4, hso, Read.val_ite, Read.val_bind, Read.val_le,
    Read.val_byte, Read.val_pure]
  generalize m.le o 4 = l at *
  generalize m.le (o + 5) 4 = k at *
  split_ifs with h1 h2 hsub h3 h6
  · simp; omega
  · simp; omega
  · simp [hsub]; omega
  · simp only [u32] at h6
    simp [hsub]; omega
  · have hu : u32 (o + 5 + l) = o + 5 + l := u32_of_lt (by omega)
    simp only [u32] at h6
    have hin : o + 4 < it.len ∧ o + l < it.len ∧ k + 4 = l := by omega
    simp [hu, hsub, hin, eq_comm]
  · have hu : u32 (o + 5 + l) = o + 5 + l := u32_of_lt (by omega)
    have hin : o + 4 < it.len ∧ o + l < it.len := by omega
    simp [hu, hsub, hin, eq_comm]

theorem nextDocument_parsed (it : BsonIter) (o : Nat) (m : Mem) (it' : BsonIter) (o' : Nat)
    (hd : it.d1 = o) (ho : o ≤ it.len) (hmin : 4 ≤ it.len) (hl : it.len ≤ maxLen) :
    (nextDocument it o).val m = .parsed it' o' ↔
      (o + 4 < it.len ∧ o + m.le o 4 ≤ it.len) ∧
        it' = { it with nextOff := o + m.le o 4 } ∧ o' = o := by
  unfold maxLen at hl
  have hs4 : u32sub it.len 4 = it.len - 4 := u32sub_of_le (by omega) hmin
  have hso : u32sub it.len o = it.len - o := u32sub_of_le (by omega) ho
  simp only [nextDocument, corrupt, hd, hs4, hso, Read.val_ite, Read.val_bind, Read.val_le,
    Read.val_pure]
  generalize m.le o 4 = l
  split_ifs with h1 h2
  · simp; omega
  · simp; omega
  · have hu : u32 (o + l) = o + l := u32_of_lt (by omega)
    have hin : o + 4 < it.len ∧ o + l ≤ it.len := by omega
    simp [hu, hin, eq_comm]

theorem nextBool_parsed (it : BsonIter) (o : Nat) (m : Mem) (it' : BsonIter) (o' : Nat)
    (hd : it.d1 = o) (ho : o ≤ it.len) (hl : it.len ≤ maxLen) :
    (nextBool it o).val m = .parsed it' o' ↔
      (o < it.len ∧ (m o = 0 ∨ m o = 1)) ∧ it' = { it with nextOff := o + 1 } ∧ o' = o := by
  unfold maxLen at hl
  have hu : u32 (o + 1) = o + 1 := u32_of_lt (by omega)
  simp only [nextBool, corrupt, hd, hu, Read.val_ite, Read.val_bind, Read.val_byte, Read.val_pure]
  split_ifs with h1 h2
  · simp; omega
  · have : ¬ (m o = 0 ∨ m o = 1) := by tauto
    simp [this]
  · have hv : m o = 0 ∨ m o = 1 := by tauto
    have hin : o < it.len := by omega
    simp [hv, hin, eq_comm]

theorem nextDbpointer_parsed (it : BsonIter) (o : Nat) (m : Mem) (it' : BsonIter) (o' : Nat)
    (hd : it.d1 = o) (ho : o ≤ it.len) (hmin : 4 ≤ it.len) (hl : it.len ≤ maxLen) :
    (nextDbpointer it o).val m = .parsed it' o' ↔
      (o + 4 < it.len ∧ 1 ≤ m.le o 4 ∧ o + 4 + m.le o 4 ≤ it.len ∧ m (o + m.le o 4 + 3) = 0) ∧
        it' = { it with d2 := o + 4, d3 := o + 4 + m.le o 4, nextOff := o + 4 + m.le o 4 + 12 } ∧
        o' = o := by
  unfold maxLen at hl
  have h4 : u32 (o + 4) = o + 4 := u32_of_lt (by omega)
  have hs4 : u32sub it.len 4 = it.len - 4 := u32sub_of_le (by omega) hmin
  have hso : u32sub it.len o = it.len - o := u32sub_of_le (by omega) ho
  simp only [nextDbpointer, corrupt, hd, h4, hs4, hso, Read.val_ite, Read.val_bind, Read.val_le,
    Read.val_byte, Read.val_pure]
  generalize m.le o 4 = l
  split_ifs with h1 h2 h3
  · simp; omega
  · rw [u32sub_of_le (by omega) (by omega)] at h2
    simp; omega
  · simp [h3]
  · rw [u32sub_of_le (by omega) (by omega)] at h2
    have hu : u32 (o + 4 + l) = o + 4 + l := u32_of_lt (by omega)
    have hv : u32 (o + 4 + l + 12) = o + 4 + l + 12 := u32_of_lt (by omega)
    have hz : m (o + l + 3) = 0 := by simpa using h3
    have hin : o + 4 < it.len ∧ 1 ≤ l ∧ o + 4 + l ≤ it.len := by omega
    simp [hu, hv, hz, hin, eq_comm]

theorem nextCodewscope_parsed (it : BsonIter) (o : Nat) (m : Mem) (it' : BsonIter) (o' : Nat)
    (hd : it.d1 = o) (ho : o ≤ it.len) (h6 : 6 ≤ o) (hl : it.len ≤ maxLen) :
    (nextCodewscope it o).val m = .parsed it' o' ↔
      (14 ≤ m.le o 4 ∧ o + m.le o 4 < it.len ∧ 1 ≤ m.le (o + 4) 4 ∧
        5 ≤ m.le (o + 8 + m.le (o + 4) 4) 4 ∧
        o + m.le o 4 = o + 8 + m.le (o + 4) 4 + m.le (o + 8 + m.le (o + 4) 4) 4) ∧
        it' = { it with d2 := o + 4, d3 := o + 8, d4 := o + 8 + m.le (o + 4) 4,
                        nextOff := o + m.le o 4 } ∧ o' = o := by
  unfold maxLen at hl
  have h4 : u32 (o + 4) = o + 4 := u32_of_lt (by omega)
  have h8 : u32 (o + 8) = o + 8 := u32_of_lt (by omega)
  have hso : u32sub it.len o = it.len - o := u32sub_of_le (by omega) ho
  simp only [nextCodewscope, corrupt, hd, h4, h8, hso, Read.val_ite, Read.val_bind, Read.val_le,
    Read.val_pure]
  have hcomm : ∀ l, o + 4 + 4 + l = o + 8 + l := fun l => by omega
  simp only [hcomm]
  have hlt := m.le_lt o 4
  have hlt2 := m.le_lt (o + 4) 4
  generalize m.le o 4 = l at *
  generalize m.le (o + 4) 4 = j at *
  have hlt3 := m.le_lt (u32 (o + 8 + j)) 4
  have hlt4 := m.le_lt (o + 8 + j) 4
  split_ifs with c1 c2 c3 c4 c5 c6
  · simp only [u32sub] at c1
    simp; omega
  · simp; omega
  · simp only [u32] at c3
    simp; omega
  · rw [u32sub_of_le (a := it.len - o) (by omega) (by omega),
      u32sub_of_le (by omega) (by omega)] at c4
    simp; omega
  · simp only [u32] at c3 c5
    rw [u32sub_of_le (a := it.len - o) (by omega) (by omega),
      u32sub_of_le (by omega) (by omega)] at c4
    simp; omega
  · rw [u32sub_of_le (a := it.len - o) (by omega) (by omega),
      u32sub_of_le (by omega) (by omega)] at c4
    have hu : u32 (o + 8 + j) = o + 8 + j := u32_of_lt (by omega)
    rw [hu] at c6
    simp only [u32] at c3 c5 c6
    simp; omega
  · rw [u32sub_of_le (a := it.len - o) (by omega) (by omega),
      u32sub_of_le (by omega) (by omega)] at c4
    have hu : u32 (o + 8 + j) = o + 8 + j := u32_of_lt (by omega)
    have hv : u32 (o + l) = o + l := u32_of_lt (by omega)
    rw [hu] at c6 ⊢
    rw [hv] at c3 c5 c6 ⊢
    simp only [u32] at c5 c6
    have hin : 14 ≤ l ∧ o + l < it.len ∧ 1 ≤ j ∧ 5 ≤ m.le (o + 8 + j) 4 ∧
        o + l = o + 8 + j + m.le (o + 8 + j) 4 := by omega
    constructor
    · intro h
      simp only [Branch.parsed.injEq] at h
      exact ⟨hin, h.1.symm, h.2.symm⟩
    · rintro ⟨-, rfl, rfl⟩
      rfl

/-- The regex branch takes the first NUL for the end of the pattern and the next
one for the end of the options. -/
theorem nextRegex_parsed (it : BsonIter) (o : Nat) (m : Mem) (it' : BsonIter) (o' : Nat)
    (hl : it.len ≤ maxLen) :
    (nextRegex it o).val m = .parsed it' o' ↔
      ∃ i, o ≤ i ∧ i < o' ∧ o' < it.len ∧ m i = 0 ∧ m o' = 0 ∧
        (∀ k, o ≤ k → k < i → m k ≠ 0) ∧ (∀ k, i < k → k < o' → m k ≠ 0) ∧
        it' = { it with d2 := i + 1, nextOff := o' + 1 } := by
  unfold maxLen at hl
  simp only [nextRegex, Read.val_bind]
  cases h1 : (Read.scanNul (it.len - o) o).val m with
  | none =>
    simp only [corrupt, Read.val_pure, reduceCtorEq, false_iff]
    rintro ⟨i, hi, hij, hj, hz, -⟩
    exact Read.scanNul_none h1 i hi (by omega) hz
  | some i =>
    obtain ⟨hi1, hi2, hi3, hi4⟩ := Read.scanNul_some h1
    have hu : u32 (i + 1) = i + 1 := u32_of_lt (by omega)
    simp only [hu, Read.val_bind]
    have hfirst : ∀ i', o ≤ i' → m i' = 0 → (∀ k, o ≤ k → k < i' → m k ≠ 0) → i' = i := by
      intro i' h1' h2' h3'
      have ha : ¬ i < i' := fun hlt => h3' i hi1 hlt hi3
      have hb : ¬ i' < i := fun hlt => hi4 i' h1' hlt h2'
      omega
    cases h2 : (Read.scanNul (it.len - (i + 1)) (i + 1)).val m with
    | none =>
      simp only [corrupt, Read.val_pure, reduceCtorEq, false_iff]
      rintro ⟨i', hi, hij, hj, hz, hz', hk, -⟩
      have heq := hfirst i' hi hz hk
      subst heq
      exact Read.scanNul_none h2 o' (by omega) (by omega) hz'
    | some j =>
      obtain ⟨hj1, hj2, hj3, hj4⟩ := Read.scanNul_some h2
      have hv : u32 (j + 1) = j + 1 := u32_of_lt (by omega)
      simp only [hv, Read.val_pure, Branch.parsed.injEq]
      constructor
      · rintro ⟨rfl, rfl⟩
        exact ⟨i, hi1, by omega, by omega, hi3, hj3, hi4, fun k hk hk' => hj4 k (by omega) hk', rfl⟩
      · rintro ⟨i', hi, hij, hj, hz, hz', hk, hk', rfl⟩
        have heq := hfirst i' hi hz hk
        subst heq
        have hjo : j = o' := by
          have ha : ¬ j < o' := fun hlt => hk' j (by omega) hlt hj3
          have hb : ¬ o' < j := fun hlt => hj4 o' (by omega) hlt hz'
          omega
        subst hjo
        exact ⟨rfl, rfl⟩

/-- Every branch that ends in `break` before `len` has checked its layout. -/
theorem nextValue_layout {it it' : BsonIter} {o o' : Nat} {m : Mem} {t : Option BsonType}
    (hd : it.d1 = o) (h6 : 6 ≤ o) (ho : o ≤ it.len) (hl : it.len ≤ maxLen)
    (h : (nextValue it o t).val m = .parsed it' o') :
    ∃ t', t = some t' ∧ Layout m it.len o it'.nextOff t' ∧ Fields m o it' t' ∧
      SameElement it it' := by
  have h4 : 4 ≤ it.len := by omega
  cases t with
  | none => simp [nextValue, corrupt] at h
  | some t =>
    refine ⟨t, rfl, ?_⟩
    cases t
    case eod => simp [nextValue, corrupt] at h
    case maxkey | minkey | null | undefined =>
      obtain ⟨rfl, -⟩ := (nextEmpty_parsed it o m it' o').mp h
      simp [Layout, Fields, SameElement]
    case double | dateTime | timestamp | int64 | oid | int32 | decimal128 =>
      obtain ⟨rfl, -⟩ := (nextFixed_parsed it o _ m it' o' ho hl (by decide)).mp h
      simp [Layout, Fields, SameElement, hd]
    case utf8 | code | symbol =>
      obtain ⟨⟨h1, h2, h3⟩, rfl, -⟩ := (nextString_parsed it o m it' o' hd ho hl).mp h
      simp [Layout, Fields, SameElement, hd, h1, h3]
    case document | array =>
      obtain ⟨⟨h1, h2⟩, rfl, -⟩ := (nextDocument_parsed it o m it' o' hd ho h4 hl).mp h
      simp [Layout, Fields, SameElement, hd, h1]
    case binary =>
      obtain ⟨⟨h1, h2, h3⟩, rfl, -⟩ := (nextBinary_parsed it o m it' o' hd ho h4 hl).mp h
      simp [Layout, Fields, SameElement, hd]
      exact h3
    case bool =>
      obtain ⟨⟨h1, h2⟩, rfl, -⟩ := (nextBool_parsed it o m it' o' hd ho hl).mp h
      simp [Layout, Fields, SameElement, hd, h2]
    case regex =>
      obtain ⟨i, h1, h2, h3, h5, h6, h7, h8, rfl⟩ := (nextRegex_parsed it o m it' o' hl).mp h
      refine ⟨⟨i, o', h1, h2, rfl, h5, h6, h7, h8⟩, ?_, by simp [SameElement]⟩
      refine ⟨hd, by simp; omega, by simp; omega, by simpa using h5, ?_⟩
      intro k hk hk'
      exact h7 k hk (by simpa using hk')
    case dbpointer =>
      obtain ⟨⟨h1, h2, h3, h5⟩, rfl, -⟩ := (nextDbpointer_parsed it o m it' o' hd ho h4 hl).mp h
      simp [Layout, Fields, SameElement, hd, h2, h5]
    case codewscope =>
      obtain ⟨⟨h1, h2, h3, h5, h7⟩, rfl, -⟩ := (nextCodewscope_parsed it o m it' o' hd ho h6 hl).mp h
      exact ⟨⟨h1, rfl, h3, h5, h7⟩, ⟨hd, rfl, rfl, rfl⟩, by simp [SameElement]⟩

/-- A layout that ends before `len` is accepted. -/
theorem nextValue_of_layout {it : BsonIter} {o stop : Nat} {m : Mem} {t : BsonType}
    (hd : it.d1 = o) (h6 : 6 ≤ o) (ho : o ≤ it.len) (hl : it.len ≤ maxLen)
    (h : Layout m it.len o stop t) (hstop : stop < it.len) :
    ∃ it' o', (nextValue it o (some t)).val m = .parsed it' o' ∧ it'.nextOff = stop ∧
      it'.len = it.len := by
  have h4 : 4 ≤ it.len := by omega
  cases t
  case eod => exact absurd h id
  case maxkey | minkey | null | undefined =>
    exact ⟨_, o, (nextEmpty_parsed it o m _ o).mpr ⟨rfl, rfl⟩, h.symm, rfl⟩
  case double | dateTime | timestamp | int64 | oid | int32 | decimal128 =>
    exact ⟨_, o, (nextFixed_parsed it o _ m _ o ho hl (by decide)).mpr ⟨rfl, rfl⟩, h.symm, rfl⟩
  case utf8 | code | symbol =>
    obtain ⟨h1, h2, h3⟩ := h
    exact ⟨_, o, (nextString_parsed it o m _ o hd ho hl).mpr ⟨⟨h1, by omega, h3⟩, rfl, rfl⟩,
      h2.symm, rfl⟩
  case document | array =>
    obtain ⟨h1, h2⟩ := h
    exact ⟨_, o, (nextDocument_parsed it o m _ o hd ho h4 hl).mpr ⟨⟨h1, by omega⟩, rfl, rfl⟩,
      h2.symm, rfl⟩
  case binary =>
    obtain ⟨h1, h2⟩ := h
    exact ⟨_, o, (nextBinary_parsed it o m _ o hd ho h4 hl).mpr
      ⟨⟨by omega, by omega, h2⟩, rfl, rfl⟩, h1.symm, rfl⟩
  case bool =>
    obtain ⟨h1, h2⟩ := h
    exact ⟨_, o, (nextBool_parsed it o m _ o hd ho hl).mpr ⟨⟨by omega, h1⟩, rfl, rfl⟩, h2.symm, rfl⟩
  case regex =>
    obtain ⟨i, j, h1, h2, h3, h5, h6, h7, h8⟩ := h
    exact ⟨_, j, (nextRegex_parsed it o m _ j hl).mpr
      ⟨i, h1, h2, by omega, h5, h6, h7, h8, rfl⟩, h3.symm, rfl⟩
  case dbpointer =>
    obtain ⟨h1, h2, h3⟩ := h
    exact ⟨_, o, (nextDbpointer_parsed it o m _ o hd ho h4 hl).mpr
      ⟨⟨by omega, h1, by omega, h3⟩, rfl, rfl⟩, h2.symm, rfl⟩
  case codewscope =>
    obtain ⟨h1, h2, h3, h5, h7⟩ := h
    exact ⟨_, o, (nextCodewscope_parsed it o m _ o hd ho h6 hl).mpr
      ⟨⟨h1, by omega, h3, h5, by omega⟩, rfl, rfl⟩, h2.symm, rfl⟩

/-- Everything a successful step from `it` to `e` has established: the key ends
at `o`, where the value of type `t` starts. -/
structure Element (m : Mem) (it e : BsonIter) (o : Nat) (t : BsonType) : Prop where
  raw : e.raw = some m
  len : e.len = it.len
  off : e.off = it.nextOff
  type : e.type = it.nextOff
  key : e.key = it.nextOff + 1
  keyEnd : it.nextOff + 2 ≤ o
  inside : o ≤ it.len
  keyNul : m (o - 1) = 0
  keyBytes : ∀ k, it.nextOff + 1 ≤ k → k + 1 < o → m k ≠ 0
  typeByte : m it.nextOff = t.toByte
  layout : Layout m it.len o e.nextOff t
  fields : Fields m o e t
  stop : e.nextOff < it.len
  err : e.errOff = 0

/-- Inversion of a successful step. -/
theorem element_of_next {it : BsonIter} {m : Mem} (hraw : it.raw = some m)
    (h4 : 4 ≤ it.nextOff) (hl : it.len ≤ maxLen) (h : (bsonIterNextInternal it).ok = true) :
    ∃ o t, Element m it (bsonIterNextInternal it).iter o t := by
  have hl' := hl
  unfold maxLen at hl'
  simp only [bsonIterNextInternal, hraw, nextElement, Read.val_bind] at h ⊢
  generalize hit : enterElement it = it1 at *
  have hoff : it1.off = it.nextOff := by rw [← hit]; rfl
  have hlen : it1.len = it.len := by rw [← hit]; rfl
  cases hz : (Read.scanNul (it1.len - (it1.off + 1)) (it1.off + 1)).val m with
  | none => simp [hz] at h
  | some z =>
    obtain ⟨z1, z2, z3, z4⟩ := Read.scanNul_some hz
    rw [hoff, hlen] at z2
    rw [hoff] at z1 z4
    simp only [hz, fillDataFields, Read.val_bind, Read.val_byte] at h ⊢
    cases hv : (nextValue { it1 with d1 := z + 1 } (z + 1)
        (BsonType.ofByte (m it1.type))).val m with
    | invalid _ => simp [hv] at h
    | parsed it' o' =>
      simp only [hv, Read.val_ite, Read.val_pure] at h ⊢
      obtain ⟨t, ht, hlay, hf, s1, s2, s3, s4, s5⟩ :=
        nextValue_layout (o := z + 1) rfl (by omega) (by simp; omega) (by simpa [hlen] using hl) hv
      simp only at s1 s2 s3 s4 s5 hlay
      split at h
      · cases h
      next hstop =>
        rw [if_neg hstop]
        subst hit
        simp only [enterElement] at s1 s2 s3 s4 s5 hlay ht
        refine ⟨z + 1, t, ?_⟩
        exact {
          raw := s1.trans hraw
          len := s2
          off := s3
          type := s4
          key := s5.trans (u32_of_lt (by omega))
          keyEnd := by omega
          inside := by omega
          keyNul := z3
          keyBytes := fun k hk hk' => z4 k hk (by omega)
          typeByte := (BsonType.toByte_of_ofByte ht).symm
          layout := hlay
          fields := hf
          stop := by simp only; omega
          err := rfl }

/-- A key that ends at `o` and a layout that ends before `len` make a step succeed. -/
theorem next_of_layout {it : BsonIter} {m : Mem} {o stop : Nat} {t : BsonType}
    (hraw : it.raw = some m) (h4 : 4 ≤ it.nextOff) (hl : it.len ≤ maxLen)
    (hkey : it.nextOff + 2 ≤ o) (ho : o ≤ it.len) (hnul : m (o - 1) = 0)
    (hbytes : ∀ k, it.nextOff + 1 ≤ k → k + 1 < o → m k ≠ 0)
    (ht : m it.nextOff = t.toByte) (hlay : Layout m it.len o stop t) (hstop : stop < it.len) :
    (bsonIterNextInternal it).ok = true ∧ (bsonIterNextInternal it).iter.nextOff = stop := by
  have hz : (Read.scanNul (it.len - (it.nextOff + 1)) (it.nextOff + 1)).val m = some (o - 1) :=
    Read.scanNul_eq_some (by omega) (by omega) hnul fun i h1 h2 => hbytes i h1 (by omega)
  have heq : o - 1 + 1 = o := by omega
  have hd : ({ enterElement it with d1 := o } : BsonIter).d1 = o := rfl
  obtain ⟨it', o', hv, hn, hlen⟩ := nextValue_of_layout hd (by omega)
    (by simpa [enterElement] using ho) (by simpa [enterElement] using hl)
    (by simpa [enterElement] using hlay) (by simpa [enterElement] using hstop)
  simp only [enterElement, hraw] at hv hlen
  simp only [bsonIterNextInternal, hraw, nextElement, Read.val_bind, fillDataFields,
    enterElement, hz, Read.val_byte, ht, BsonType.ofByte_toByte, heq, hv]
  rw [if_neg (by omega)]
  exact ⟨rfl, hn⟩

/-- A step reports corruption through `err_off`, or it has come to the end: no
further NUL stands behind the type octet. -/
theorem next_end {it : BsonIter} {m : Mem} (hraw : it.raw = some m) (h0 : it.errOff = 0)
    (hend : it.len ≤ it.nextOff + 1) :
    (bsonIterNextInternal it).ok = false ∧ (bsonIterNextInternal it).iter.errOff = 0 ∧
      (bsonIterNextInternal it).unsupported = false := by
  have hz : it.len - (it.nextOff + 1) = 0 := by omega
  simp [bsonIterNextInternal, hraw, nextElement, enterElement, hz, Read.scanNul, markInvalid, h0]

end LibBson.Source
