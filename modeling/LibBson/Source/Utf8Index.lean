import LibBson.Source.Utf8

/-!
# The validation loop with its counters

Source: bson-utf8.c:113-237. `i` and `j` are of type `unsigned` while `utf8_len`
is a `size_t`, so the counters can come round for a long enough string; then the
loop need not end. Below `2 ^ 32` octets they cannot, and the loop is the one
that drops what it has read.
-/

set_option autoImplicit false

namespace LibBson.Source
open LibBson.Library

section Validate

variable (utf8 : Bytes) (allowNull : Bool)

/-- `for (j = i + 1; j < (i + seq_length); j++)`. -/
def utf8ContinueFrom (stop : UInt32) : Nat → UInt32 → Nat → Option Nat
  | 0, _, c => some c
  | turns + 1, j, c =>
    if j < stop then
      let b := utf8.getD j.toNat 0
      if b &&& 0xC0 ≠ 0x80 then none
      else utf8ContinueFrom stop turns (j + 1) (c <<< 6 ||| (b &&& 0x3F).toNat)
    else some c

/-- The loop that looks for NUL octets in the sequence at `i`. -/
def utf8NullFrom (i : UInt32) (seqLength : Nat) : Bool :=
  (List.range seqLength).any fun j =>
    decide (utf8.length < (i + UInt32.ofNat j).toNat) || utf8.getD (i + UInt32.ofNat j).toNat 0 == 0

/-- The body of the outer loop: the next `i`, or no more turns and `false`. -/
def utf8Turn (i : UInt32) : Option UInt32 :=
  let b := utf8.getD i.toNat 0
  let (seqLength, firstMask) := bsonUtf8GetSequence b
  if seqLength = 0 then none
  else if utf8.length - i.toNat < seqLength then none
  else
    match utf8ContinueFrom utf8 (i + UInt32.ofNat seqLength) 6 (i + 1) (b &&& firstMask).toNat with
    | none => none
    | some c =>
      if allowNull = false ∧ utf8NullFrom utf8 i seqLength = true then none
      else if c > 0x0010FFFF then none
      else if c &&& 0xFFFFF800 = 0xD800 then none
      else if utf8Shortest allowNull seqLength c then some (i + UInt32.ofNat seqLength)
      else none

def utf8From : Nat → UInt32 → Option Bool
  | 0, _ => none
  | turns + 1, i =>
    if i.toNat < utf8.length then
      match utf8Turn utf8 allowNull i with
      | none => some false
      | some i' => utf8From turns i'
    else some true

/-- With a turn for each octet and one to see the end; no value is a loop that goes on. -/
def bsonUtf8ValidateIndexed : Option Bool := utf8From utf8 allowNull (utf8.length + 1) 0

end Validate

/-! ## Without wrapping -/

variable {utf8 : Bytes} {allowNull : Bool}

theorem getSequence_le (b : UInt8) : (bsonUtf8GetSequence b).1 ≤ 6 := by
  unfold bsonUtf8GetSequence
  split_ifs <;> decide

theorem getD_eq_head_drop (utf8 : Bytes) (i : Nat) : utf8.getD i 0 = (utf8.drop i).headD 0 := by
  simp [List.headD_eq_head?_getD, List.head?_drop]

theorem index_add {i : UInt32} {n : Nat} (h : i.toNat + n < 4294967296) :
    (i + UInt32.ofNat n).toNat = i.toNat + n := by
  rw [UInt32.toNat_add, UInt32.toNat_ofNat']
  omega

theorem utf8ContinueFrom_eq {turns : Nat} {j stop : UInt32} {c : Nat}
    (hj : j.toNat ≤ stop.toNat) (hturns : stop.toNat - j.toNat ≤ turns)
    (hstop : stop.toNat ≤ utf8.length) :
    utf8ContinueFrom utf8 stop turns j c =
      utf8Continue c ((utf8.drop j.toNat).take (stop.toNat - j.toNat)) := by
  induction turns generalizing j c with
  | zero =>
    have hz : stop.toNat - j.toNat = 0 := by omega
    rw [hz]
    rfl
  | succ turns ih =>
    rw [utf8ContinueFrom]
    by_cases hlt : j < stop
    · have hlt' : j.toNat < stop.toNat := hlt
      have hmax := stop.toNat_lt
      have hnext : (j + 1).toNat = j.toNat + 1 := index_add (n := 1) (by omega)
      have hdrop : utf8.drop j.toNat = utf8.getD j.toNat 0 :: utf8.drop (j.toNat + 1) := by
        rw [List.getD_eq_getElem _ _ (by omega : j.toNat < utf8.length)]
        exact List.drop_eq_getElem_cons (by omega)
      obtain ⟨n, hn⟩ : ∃ n, stop.toNat - j.toNat = n + 1 := ⟨stop.toNat - j.toNat - 1, by omega⟩
      rw [if_pos hlt, hdrop, hn, List.take_succ_cons, utf8Continue]
      dsimp only
      split
      · rfl
      · rw [ih (by omega) (by omega), hnext, show stop.toNat - (j.toNat + 1) = n by omega]
    · have hge : ¬ j.toNat < stop.toNat := hlt
      have hz : stop.toNat - j.toNat = 0 := by omega
      rw [if_neg hlt, hz]
      rfl

theorem utf8NullFrom_eq {i : UInt32} {n : Nat} (hlen : utf8.length < 4294967296)
    (h : i.toNat + n ≤ utf8.length) :
    utf8NullFrom utf8 i n = true ↔ 0 ∈ (utf8.drop i.toNat).take n := by
  have hget : ∀ j < n, ((i + UInt32.ofNat j).toNat = i.toNat + j) := fun j hj =>
    index_add (by omega)
  have hmem : 0 ∈ (utf8.drop i.toNat).take n ↔
      ∃ j, ∃ hj : j < n ∧ i.toNat + j < utf8.length, utf8[i.toNat + j] = 0 := by
    simp only [List.mem_iff_getElem, List.length_take, List.length_drop, List.getElem_take,
      List.getElem_drop]
    constructor
    · intro ⟨j, hj, hv⟩
      exact ⟨j, by omega, hv⟩
    · intro ⟨j, hj, hv⟩
      exact ⟨j, by omega, hv⟩
  simp only [utf8NullFrom, List.any_eq_true, List.mem_range, Bool.or_eq_true, decide_eq_true_eq,
    beq_iff_eq, hmem]
  constructor
  · intro ⟨j, hj, hv⟩
    rw [hget j hj] at hv
    rcases hv with hv | hv
    · omega
    · rw [List.getD_eq_getElem _ _ (by omega)] at hv
      exact ⟨j, by omega, hv⟩
  · intro ⟨j, hj, hv⟩
    refine ⟨j, hj.1, Or.inr ?_⟩
    rw [hget j hj.1, List.getD_eq_getElem _ _ hj.2]
    exact hv

/-- A turn reads the sequence at `i` and steps behind it. -/
theorem utf8Turn_eq (allowNull : Bool) {i : UInt32} (hlen : utf8.length < 4294967296)
    (hi : i.toNat < utf8.length) :
    (utf8Sequence allowNull (utf8.drop i.toNat) = none ∧ utf8Turn utf8 allowNull i = none) ∨
      ∃ i', utf8Turn utf8 allowNull i = some i' ∧ i.toNat < i'.toNat ∧
        utf8Sequence allowNull (utf8.drop i.toNat) = some (utf8.drop i'.toNat) := by
  have hb := getD_eq_head_drop utf8 i.toNat
  have h6 := getSequence_le ((utf8.drop i.toNat).headD 0)
  cases hg : bsonUtf8GetSequence ((utf8.drop i.toNat).headD 0) with
  | mk n mask =>
    rw [hg] at h6
    simp only at h6
    simp only [utf8Turn, utf8Sequence, hb, hg, List.length_drop]
    by_cases hn : n = 0
    · simp [hn]
    rw [if_neg hn, if_neg hn]
    by_cases hshort : utf8.length - i.toNat < n
    · simp [hshort]
    rw [if_neg hshort, if_neg hshort]
    have hstop : (i + UInt32.ofNat n).toNat = i.toNat + n := index_add (by omega)
    have hone : (i + 1).toNat = i.toNat + 1 := index_add (n := 1) (by omega)
    have htail : ((utf8.drop i.toNat).take n).tail = (utf8.drop (i.toNat + 1)).take (n - 1) := by
      rw [← List.drop_one, List.drop_take, List.drop_drop]
    rw [utf8ContinueFrom_eq (by omega) (by omega) (by omega), hstop, hone, htail,
      show i.toNat + n - (i.toNat + 1) = n - 1 by omega]
    cases utf8Continue ((utf8.drop i.toNat).headD 0 &&& mask).toNat
        ((utf8.drop (i.toNat + 1)).take (n - 1)) with
    | none => simp
    | some c =>
      simp only [utf8NullFrom_eq hlen (show i.toNat + n ≤ utf8.length by omega), List.drop_drop]
      split_ifs
      · exact Or.inl ⟨rfl, rfl⟩
      · exact Or.inl ⟨rfl, rfl⟩
      · exact Or.inl ⟨rfl, rfl⟩
      · exact Or.inr ⟨_, rfl, by omega, by rw [hstop]⟩
      · exact Or.inl ⟨rfl, rfl⟩

theorem utf8Loop_next (fuel : Nat) {s : Bytes} (hs : s ≠ []) :
    utf8Loop allowNull (fuel + 1) s =
      match utf8Sequence allowNull s with
      | none => false
      | some rest => utf8Loop allowNull fuel rest := by
  cases s with
  | nil => exact absurd rfl hs
  | cons b s => rfl

theorem utf8From_eq {turns : Nat} {i : UInt32} (fuel : Nat) (hlen : utf8.length < 4294967296)
    (hturns : utf8.length - i.toNat < turns) (hfuel : utf8.length - i.toNat ≤ fuel) :
    utf8From utf8 allowNull turns i = some (utf8Loop allowNull fuel (utf8.drop i.toNat)) := by
  induction turns generalizing i fuel with
  | zero => omega
  | succ turns ih =>
    rw [utf8From]
    by_cases hi : i.toNat < utf8.length
    · rw [if_pos hi]
      obtain ⟨fuel, rfl⟩ : ∃ f, fuel = f + 1 := ⟨fuel - 1, by omega⟩
      have hne : utf8.drop i.toNat ≠ [] := by simp [List.drop_eq_nil_iff, hi]
      rw [utf8Loop_next fuel hne]
      rcases utf8Turn_eq allowNull hlen hi with ⟨hseq, hturn⟩ | ⟨i', hturn, hlt, hseq⟩
      · rw [hturn, hseq]
      · rw [hturn, hseq]
        exact ih fuel (by omega) (by omega)
    · rw [if_neg hi, List.drop_eq_nil_of_le (by omega)]
      cases fuel <;> rfl

/-- Below `2 ^ 32` octets the counters do not come round. -/
theorem bsonUtf8ValidateIndexed_eq (hlen : utf8.length < 4294967296) :
    bsonUtf8ValidateIndexed utf8 allowNull = some (bsonUtf8Validate utf8 allowNull) := by
  rw [bsonUtf8ValidateIndexed, utf8From_eq utf8.length hlen (by simp) (by simp)]
  rfl

end LibBson.Source
