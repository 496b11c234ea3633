import LibBson.Source.DecimalEncode
import LibBson.Source.DecimalPrint

/-!
# The 128-bit helpers

Source: bson-decimal128.c:76-102, 329-362. The product and the quotient are exact, and
so is each product and sum of 64 bits on the way to them.
-/

set_option autoImplicit false

namespace LibBson.Guarantees
open LibBson.Library LibBson.Source

/-- The products and sums of `_mul_64x64` in its order, over unbounded integers. The
shift of `product_mid` is meant to drop what has gone to `product_high`. -/
def mulSums (left right : Nat) : List Nat :=
  let leftHigh := left / 4294967296
  let leftLow := left % 4294967296
  let rightHigh := right / 4294967296
  let rightLow := right % 4294967296
  let high := leftHigh * rightHigh + leftHigh * rightLow / 4294967296
  let mid := leftHigh * rightLow % 4294967296 + leftLow * rightHigh +
    leftLow * rightLow / 4294967296
  [leftHigh * rightHigh, leftHigh * rightLow, leftLow * rightHigh, leftLow * rightLow, high, mid,
    high + mid / 4294967296,
    mid * 4294967296 % 18446744073709551616 + leftLow * rightLow % 4294967296]

/-- `_rem` as each word is divided: its quotient has to fit a word. -/
def divideSums : List Nat → Nat → List Nat
  | [], _ => []
  | part :: parts, rem =>
    let sum := rem * 4294967296 + part
    sum :: divideSums parts (sum % 1000000000)

theorem mul_words_le {a b : Nat} (ha : a ≤ 4294967295) (hb : b ≤ 4294967295) :
    a * b ≤ 18446744065119617025 :=
  Nat.mul_le_mul ha hb

/-- Two factors below `2 ^ 32` leave room for two more words. -/
theorem mulSums_lt (left right : Nat) (hl : left < 2 ^ 64) (hr : right < 2 ^ 64) :
    ∀ sum ∈ mulSums left right, sum < 2 ^ 64 := by
  have hlh : left / 4294967296 ≤ 4294967295 := by omega
  have hll : left % 4294967296 ≤ 4294967295 := by omega
  have hrh : right / 4294967296 ≤ 4294967295 := by omega
  have hrl : right % 4294967296 ≤ 4294967295 := by omega
  have hhh := mul_words_le hlh hrh
  have hhl := mul_words_le hlh hrl
  have hlh' := mul_words_le hll hrh
  have hll' := mul_words_le hll hrl
  simp only [mulSums, List.forall_mem_cons, List.not_mem_nil, false_implies, implies_true,
    and_true]
  generalize left / 4294967296 * (right / 4294967296) = high at *
  generalize left / 4294967296 * (right % 4294967296) = mid at *
  generalize left % 4294967296 * (right / 4294967296) = mid2 at *
  generalize left % 4294967296 * (right % 4294967296) = low at *
  refine ⟨?_, ?_, ?_, ?_, ?_, ?_, ?_, ?_⟩ <;> omega

theorem divideSums_lt (parts : List Nat) (rem : Nat) (hw : Words parts) (hrem : rem < 1000000000) :
    ∀ sum ∈ divideSums parts rem, sum < 1000000000 * 2 ^ 32 := by
  induction parts generalizing rem with
  | nil =>
    intro sum hsum
    cases hsum
  | cons part parts ih =>
    have hp : part < 4294967296 := hw part List.mem_cons_self
    intro sum hsum
    obtain rfl | hsum := List.mem_cons.mp hsum
    · omega
    · exact ih _ (fun p hp => hw p (List.mem_cons_of_mem _ hp)) (Nat.mod_lt _ (by decide)) sum hsum

/-- Both words of the product. -/
def IsProduct (left right : Nat) (product : Nat × Nat) : Prop :=
  product.1 < 2 ^ 64 ∧ product.2 < 2 ^ 64 ∧ product.1 * 2 ^ 64 + product.2 = left * right

/-- Four words of a quotient by `10 ^ 9`, and the remainder. -/
def IsQuotient (value : List Nat) (result : List Nat × Nat) : Prop :=
  Words result.1 ∧ result.1.length = value.length ∧
    limbs result.1 = limbs value / 10 ^ 9 ∧ result.2 = limbs value % 10 ^ 9

theorem mul64x64_isProduct (left right : Nat) (hl : left < 2 ^ 64) (hr : right < 2 ^ 64) :
    IsProduct left right (mul64x64 left right) := by
  obtain ⟨hprod, hlow⟩ := mul64x64_spec left right hl hr
  have hle := Nat.mul_le_mul (Nat.le_sub_one_of_lt hl) (Nat.le_sub_one_of_lt hr)
  refine ⟨?_, hlow, hprod⟩
  omega

theorem divide1B_isQuotient {value : List Nat} (hw : Words value) :
    IsQuotient value (bsonUint128Divide1B value) := by
  obtain ⟨hquotient, hrem, hwords⟩ := bsonUint128Divide1B_spec hw
  have hlength : (bsonUint128Divide1B value).1.length = value.length := by
    unfold bsonUint128Divide1B
    split
    · rfl
    · exact (divideParts_spec value 0 hw (by decide)).2.2.1
  exact ⟨hwords, hlength, hquotient, hrem⟩

/-- The words of a `_bson_uint128_t`. -/
def uint128Parts (value : Fin 4 → BitVec 32) : List Nat := List.ofFn fun i => (value i).toNat

theorem uint128Parts_words (value : Fin 4 → BitVec 32) : Words (uint128Parts value) := by
  intro part hpart
  obtain ⟨i, rfl⟩ := List.mem_ofFn.mp hpart
  exact (value i).isLt

theorem uint128_helpers_exact :
    (∀ left right : BitVec 64,
      IsProduct left.toNat right.toNat (mul64x64 left.toNat right.toNat) ∧
        ∀ sum ∈ mulSums left.toNat right.toNat, sum < 2 ^ 64) ∧
    ∀ value : Fin 4 → BitVec 32,
      IsQuotient (uint128Parts value) (bsonUint128Divide1B (uint128Parts value)) ∧
        ∀ sum ∈ divideSums (uint128Parts value) 0, sum < 2 ^ 64 ∧ sum / 10 ^ 9 < 2 ^ 32 := by
  constructor
  · intro left right
    exact ⟨mul64x64_isProduct _ _ left.isLt right.isLt, mulSums_lt _ _ left.isLt right.isLt⟩
  · intro value
    have hwords := uint128Parts_words value
    refine ⟨divide1B_isQuotient hwords, fun sum hsum => ?_⟩
    have hlt := divideSums_lt (uint128Parts value) 0 hwords (by decide) sum hsum
    constructor
    · omega
    · omega

end LibBson.Guarantees
