import LibBson.Source.IterReads

/-!
# Iteration never reads past its buffer

For a buffer of 5 to `2 ^ 31 - 1` octets, iterated in any order and at any depth.
Source: bson-iter.c:477-794, 42-67, 146-177.
-/

set_option autoImplicit false

namespace LibBson.Guarantees
open LibBson.Library LibBson.Source

/-- No step from an iterator opened on `b` reads at or past the iterator's `len`. -/
def ReadsInBounds (b : BsonRef) : Prop :=
  ∀ it, Reached b it → ∀ i ∈ bsonIterNextReads it, i < it.len

/-- Every read is in bounds exactly when no iterator comes to a subtype 2 binary
that ends its buffer before its inner length word does. -/
theorem reads_in_bounds_iff (b : BsonRef) (hlen : b.len < 2147483648) :
    ReadsInBounds b ↔ ∀ it, Reached b it → ¬ OverreadAhead it := by
  have hb : b.len ≤ maxLen := by unfold maxLen; omega
  constructor
  · intro h it hit
    exact (next_reads_iff it (hit.usable hb)).mp (h it hit)
  · intro h it hit
    exact (next_reads_iff it (hit.usable hb)).mpr (h it hit)

/-- `{"": BinData (2, 1 octet)}` without room for the redundant length. -/
def cutBinary : Bytes := [12, 0, 0, 0, 5, 0, 4, 0, 0, 0, 2, 0]

theorem reads_in_bounds_iff_cutBinary :
    ReadsInBounds { data := Mem.ofBytes cutBinary, len := 12 } ↔
      ∀ it, Reached { data := Mem.ofBytes cutBinary, len := 12 } it → ¬ OverreadAhead it :=
  reads_in_bounds_iff { data := Mem.ofBytes cutBinary, len := 12 } (by decide)

/-- `bson_init_static` accepts the buffer; the first step reads offset 14 of 12. -/
theorem cutBinary_overread :
    (bsonInitStatic (Mem.ofBytes cutBinary) 12).isSome = true ∧
      ¬ ReadsInBounds { data := Mem.ofBytes cutBinary, len := 12 } := by
  refine ⟨by decide, fun h => ?_⟩
  have hread := h _ (Reached.init _ rfl) 14 (by decide)
  exact absurd hread (by decide)

end LibBson.Guarantees
