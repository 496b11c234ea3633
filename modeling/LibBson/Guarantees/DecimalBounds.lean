import LibBson.Source.DecimalBounds

/-!
# `bson_decimal128_from_string` in its string and its array

Source: bson-decimal128.c:441-707.
-/

set_option autoImplicit false

namespace LibBson.Guarantees
open LibBson.Library LibBson.Spec LibBson.Source

/-- The string is read from its first octet to its NUL, `digits` below its size. -/
def StaysInBounds (wide : Int → BitVec 32) (stray : Nat → BitVec 16) (string : Bytes) : Prop :=
  (bsonDecimal128FromStringLog wide stray string).TextBelow (string.length + 1) ∧
    (bsonDecimal128FromStringLog wide stray string).ArrayBelow bsonDecimal128MaxDigits

/-- The log is one of the function. Its string is always read in its bounds; the array is unless
a 35th digit is looked up. -/
theorem decimal128_from_string_bounds (wide : Int → BitVec 32) (stray : Nat → BitVec 16)
    (string : Bytes) :
    (bsonDecimal128FromStringLog wide stray string).val =
        bsonDecimal128FromString wide stray string ∧
      (StaysInBounds wide stray string ↔ ¬ NeedsDigit35 wide string) := by
  obtain ⟨htext, harray⟩ := bsonDecimal128FromStringLog_below wide stray string
  refine ⟨val_bsonDecimal128FromStringLog wide stray string, ?_⟩
  constructor
  · intro h
    exact harray.mp h.2
  · intro h
    exact ⟨htext, harray.mpr h⟩

/-- `1E6145` has the encoding read `digits[34]`. -/
theorem decimal128_from_string_reads_past :
    ¬ ∀ (wide : Int → BitVec 32) (stray : Nat → BitVec 16) (string : Bytes),
      0 ∉ string → StaysInBounds wide stray string := by
  intro h
  have harray := (h (fun _ => 0) (fun _ => 0) (ascii "1E6145") (by decide)).2
  have hread : 34 ∈ (bsonDecimal128FromStringLog (fun _ => 0) (fun _ => 0) (ascii "1E6145")).array :=
    by decide +kernel
  exact absurd (harray 34 hread) (by decide)

end LibBson.Guarantees
