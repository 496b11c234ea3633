import LibBson.Source.IterRuns

/-!
# Where one iterator step reads

`nextValue_below` goes through the type switch once: every branch compares an
offset with `len` before it reads there, except the inner length word of an
old-style binary, which is compared with nothing.
-/

set_option autoImplicit false

namespace LibBson.Source
open LibBson.Library

/-- A binary value at `o` that passes every check made before its inner length
word is read, although that word does not fit in front of `len`. -/
def InnerLengthCut (m : Mem) (len o : Nat) : Prop :=
  o + 4 < len ∧ 4 ≤ m.le o 4 ∧ o + m.le o 4 < len ∧ m (o + 4) = subtypeBinaryDeprecated ∧
    len < o + 9

/-- The element in front of the iterator is such a binary. -/
def OverreadAhead (it : BsonIter) : Prop :=
  ∃ m o, it.raw = some m ∧ KeyEnds m it o ∧ m it.nextOff = BsonType.binary.toByte ∧
    InnerLengthCut m it.len o

theorem nextString_below (it : BsonIter) (o : Nat) (m : Mem)
    (hd : it.d1 = o) (ho : o ≤ it.len) (hl : it.len ≤ maxLen) :
    (nextString it o).Below m it.len := by
  unfold maxLen at hl
  have h4 : u32 (o + 4) = o + 4 := u32_of_lt (by omega)
  simp only [nextString, corrupt, hd, h4, Read.below_ite, Read.below_bind, Read.val_le,
    Read.below_le, Read.below_byte, Read.val_byte, Read.below_pure, implies_true, and_true,
    true_and, Nat.zero_lt_succ]
  intro h1
  rw [u32sub_of_le (by omega) (by omega)]
  exact ⟨by omega, fun h2 h3 => by omega⟩

theorem nextDocument_below (it : BsonIter) (o : Nat) (m : Mem)
    (hd : it.d1 = o) (h4 : 4 ≤ it.len) (hl : it.len ≤ maxLen) :
    (nextDocument it o).Below m it.len := by
  unfold maxLen at hl
  have hs4 : u32sub it.len 4 = it.len - 4 := u32sub_of_le (by omega) h4
  simp only [nextDocument, corrupt, hd, hs4, Read.below_ite, Read.below_bind, Read.val_le,
    Read.below_le, Read.below_pure, implies_true, and_true, true_and, Nat.zero_lt_succ]
  omega

theorem nextBool_below (it : BsonIter) (o : Nat) (m : Mem) (hd : it.d1 = o) :
    (nextBool it o).Below m it.len := by
  simp only [nextBool, corrupt, hd, Read.below_ite, Read.below_bind, Read.val_byte,
    Read.below_byte, Read.below_pure, implies_true, and_true, true_and]
  omega

theorem nextRegex_below (it : BsonIter) (o : Nat) (m : Mem) (ho : o ≤ it.len)
    (hl : it.len ≤ maxLen) : (nextRegex it o).Below m it.len := by
  unfold maxLen at hl
  have hwin : ∀ p, p ≤ it.len → (Read.scanNul (it.len - p) p).Below m it.len := fun p hp =>
    (Read.below_scanNul _ _ _).mono (by omega)
  simp only [nextRegex, Read.below_bind]
  refine ⟨hwin o ho, ?_⟩
  cases h1 : (Read.scanNul (it.len - o) o).val m with
  | none => exact Read.below_pure _ _ _
  | some i =>
    obtain ⟨hi1, hi2, -⟩ := Read.scanNul_some h1
    have hu : u32 (i + 1) = i + 1 := u32_of_lt (by omega)
    simp only [hu, Read.below_bind]
    refine ⟨hwin (i + 1) (by omega), ?_⟩
    cases (Read.scanNul (it.len - (i + 1)) (i + 1)).val m with
    | none => exact Read.below_pure _ _ _
    | some j => exact Read.below_pure _ _ _

theorem nextDbpointer_below (it : BsonIter) (o : Nat) (m : Mem)
    (hd : it.d1 = o) (ho : o ≤ it.len) (h4 : 4 ≤ it.len) (hl : it.len ≤ maxLen) :
    (nextDbpointer it o).Below m it.len := by
  unfold maxLen at hl
  have hs4 : u32sub it.len 4 = it.len - 4 := u32sub_of_le (by omega) h4
  have hso : u32sub it.len o = it.len - o := u32sub_of_le (by omega) ho
  simp only [nextDbpointer, corrupt, hd, hs4, hso, Read.below_ite, Read.below_bind, Read.val_le,
    Read.below_le, Read.below_byte, Read.val_byte, Read.below_pure, implies_true, and_true,
    true_and, Nat.zero_lt_succ]
  intro h1
  rw [u32sub_of_le (by omega) (by omega)]
  exact ⟨by omega, fun h2 => by omega⟩

theorem nextCodewscope_below (it : BsonIter) (o : Nat) (m : Mem)
    (hd : it.d1 = o) (ho : o ≤ it.len) (hl : it.len ≤ maxLen) :
    (nextCodewscope it o).Below m it.len := by
  unfold maxLen at hl
  have h4 : u32 (o + 4) = o + 4 := u32_of_lt (by omega)
  have hso : u32sub it.len o = it.len - o := u32sub_of_le (by omega) ho
  simp only [nextCodewscope, corrupt, hd, h4, hso, Read.below_ite, Read.below_bind, Read.val_le,
    Read.below_le, Read.below_pure, implies_true, and_true, true_and, Nat.zero_lt_succ]
  generalize m.le o 4 = l
  generalize m.le (o + 4) 4 = j
  intro c1
  rw [u32sub_of_le (b := 14) (by omega) (by omega)] at c1
  refine ⟨by omega, fun c2 c3 => ⟨by omega, fun c4 c5 => ?_⟩⟩
  rw [u32sub_of_le (a := it.len - o) (by omega) (by omega), u32sub_of_le (by omega) (by omega)] at c4
  -- the scope's length word lies in front of `next_off`
  simp only [u32] at *
  omega

/-- The only read of a binary that can leave the buffer is its inner length. -/
theorem nextBinary_below_iff (it : BsonIter) (o : Nat) (m : Mem)
    (hd : it.d1 = o) (ho : o ≤ it.len) (h4 : 4 ≤ it.len) (hl : it.len ≤ maxLen) :
    (nextBinary it o).Below m it.len ↔ ¬ InnerLengthCut m it.len o := by
  unfold maxLen at hl
  have hu4 : u32 (o + 4) = o + 4 := u32_of_lt (by omega)
  have hu5 : u32 (o + 5) = o + 5 := u32_of_lt (by omega)
  have hs4 : u32sub it.len 4 = it.len - 4 := u32sub_of_le (by omega) h4
  have hso : u32sub it.len o = it.len - o := u32sub_of_le (by omega) ho
  simp only [nextBinary, corrupt, hd, hu4, hu5, hs4, hso, Read.below_ite, Read.below_bind,
    Read.val_le, Read.val_byte, Read.below_le, Read.below_byte, Read.below_pure, implies_true,
    and_true, true_and, Nat.zero_lt_succ, InnerLengthCut]
  generalize m.le o 4 = l
  by_cases hsub : m (o + 4) = subtypeBinaryDeprecated
  · simp only [hsub, forall_const, true_and]
    omega
  · simp only [hsub, false_and, and_false, not_false_iff, iff_true, IsEmpty.forall_iff, and_true]
    omega

theorem nextValue_below_iff (it : BsonIter) (o : Nat) (m : Mem) (t : Option BsonType)
    (hd : it.d1 = o) (ho : o ≤ it.len) (h4 : 4 ≤ it.len) (hl : it.len ≤ maxLen) :
    (nextValue it o t).Below m it.len ↔ ¬ (t = some .binary ∧ InnerLengthCut m it.len o) := by
  cases t with
  | none => simp [nextValue, corrupt, Read.below_pure]
  | some t =>
    cases t
    case binary => simpa [nextValue] using nextBinary_below_iff it o m hd ho h4 hl
    case utf8 | code | symbol => simpa [nextValue] using nextString_below it o m hd ho hl
    case document | array => simpa [nextValue] using nextDocument_below it o m hd h4 hl
    case bool => simpa [nextValue] using nextBool_below it o m hd
    case regex => simpa [nextValue] using nextRegex_below it o m ho hl
    case dbpointer => simpa [nextValue] using nextDbpointer_below it o m hd ho h4 hl
    case codewscope => simpa [nextValue] using nextCodewscope_below it o m hd ho hl
    all_goals simp [nextValue, nextFixed, nextEmpty, corrupt, Read.below_pure]

/-- The key of the next element is what the first loop of the step looks for. -/
theorem keyEnds_iff_scan (it : BsonIter) (m : Mem) (o : Nat) :
    KeyEnds m it o ↔
      1 ≤ o ∧ (Read.scanNul (it.len - (it.nextOff + 1)) (it.nextOff + 1)).val m = some (o - 1) := by
  constructor
  · rintro ⟨h1, h2, h3, h5⟩
    exact ⟨by omega, Read.scanNul_eq_some (by omega) (by omega) h3
      fun i hi hi' => h5 i hi (by omega)⟩
  · rintro ⟨h1, h2⟩
    obtain ⟨a1, a2, a3, a4⟩ := Read.scanNul_some h2
    exact ⟨by omega, by omega, a3, fun k hk hk' => a4 k hk (by omega)⟩

/-- One step stays inside the buffer exactly when no cut binary is ahead. -/
theorem next_reads_iff (it : BsonIter) (hu : Usable it) :
    (∀ i ∈ bsonIterNextReads it, i < it.len) ↔ ¬ OverreadAhead it := by
  unfold bsonIterNextReads OverreadAhead
  cases hraw : it.raw with
  | none => simp
  | some m =>
    obtain ⟨h4, hl⟩ := hu m hraw
    have hscan : (Read.scanNul (it.len - (it.nextOff + 1)) (it.nextOff + 1)).Below m it.len ∨
        it.len < it.nextOff + 1 := by
      rcases Nat.lt_or_ge it.len (it.nextOff + 1) with hlt | hge
      · exact Or.inr hlt
      · exact Or.inl ((Read.below_scanNul _ _ _).mono (by omega))
    have hwin : (Read.scanNul (it.len - (it.nextOff + 1)) (it.nextOff + 1)).Below m it.len := by
      rcases hscan with h | h
      · exact h
      · rw [show it.len - (it.nextOff + 1) = 0 by omega]
        exact Read.below_pure _ _ _
    show (nextElement it).Below m it.len ↔ _
    simp only [nextElement, Read.below_bind, enterElement, hwin, true_and]
    cases hz : (Read.scanNul (it.len - (it.nextOff + 1)) (it.nextOff + 1)).val m with
    | none =>
      simp only [Read.below_pure, true_iff]
      rintro ⟨m', o, hm, hkey, -⟩
      cases hm
      rw [keyEnds_iff_scan, hz] at hkey
      cases hkey.2
    | some z =>
      obtain ⟨z1, z2, z3, z4⟩ := Read.scanNul_some hz
      have hkey : ∀ o, KeyEnds m it o ↔ o = z + 1 := by
        intro o
        rw [keyEnds_iff_scan, hz, Option.some_inj]
        omega
      have hvalue := nextValue_below_iff
        { enterElement it with d1 := z + 1 } (z + 1) m (BsonType.ofByte (m it.nextOff)) rfl
        (by simp only [enterElement]; omega) (by simp only [enterElement]; omega) hl
      simp only [enterElement] at hvalue
      simp only [fillDataFields, Read.below_bind, Read.below_byte, Read.val_byte]
      constructor
      · rintro ⟨-, hv, -⟩ ⟨m', o, hm, hk, ht, hcut⟩
        cases hm
        rw [hkey] at hk
        subst hk
        rw [ht, BsonType.ofByte_toByte] at hvalue hv
        exact hvalue.mp hv ⟨rfl, hcut⟩
      · intro hno
        refine ⟨by omega, hvalue.mpr ?_, ?_⟩
        · rintro ⟨ht, hcut⟩
          exact hno ⟨m, z + 1, rfl, (hkey _).mpr rfl, (BsonType.toByte_of_ofByte ht).symm, hcut⟩
        · split
          · exact Read.below_pure _ _ _
          · rw [Read.below_ite]
            exact ⟨fun _ => Read.below_pure _ _ _, fun _ => Read.below_pure _ _ _⟩

end LibBson.Source
