import LibBson.Source.Utf8Char
import LibBson.Source.Utf8Index

/-!
# UTF-8: what is accepted, what is written and read back

Source: bson-utf8.c:44-237, 356-478.
-/

set_option autoImplicit false

namespace LibBson.Guarantees
open LibBson.Library LibBson.Source

/-- The validation ends, and passes exactly the texts whose characters all have
their shortest form, NUL in either form only where it is allowed. -/
theorem utf8_validate_iff (utf8 : Bytes) (allowNull : Bool) (hlen : utf8.length < 2147483648) :
    ∃ valid, bsonUtf8ValidateIndexed utf8 allowNull = some valid ∧
      (valid = true ↔ Utf8Text allowNull utf8) := by
  refine ⟨bsonUtf8Validate utf8 allowNull, ?_, bsonUtf8Validate_iff utf8 allowNull⟩
  exact bsonUtf8ValidateIndexed_eq (by omega)

/-- A euro sign, NUL in both forms. -/
theorem utf8_validate_euro :
    ∃ valid, bsonUtf8ValidateIndexed [0xE2, 0x82, 0xAC, 0x00, 0xC0, 0x80] true = some valid ∧
      (valid = true ↔ Utf8Text true [0xE2, 0x82, 0xAC, 0x00, 0xC0, 0x80]) :=
  utf8_validate_iff [0xE2, 0x82, 0xAC, 0x00, 0xC0, 0x80] true (by decide)

/-- As many octets are written as are announced, and whatever stands behind them
they are read as `unichar` and passed as a whole. -/
def UnicharRoundTrip (unichar : Nat) : Prop :=
  (bsonUtf8FromUnichar unichar).1.length = (bsonUtf8FromUnichar unichar).2 ∧
    ∀ rest, bsonUtf8GetChar ((bsonUtf8FromUnichar unichar).1 ++ rest) = some unichar ∧
      bsonUtf8NextChar ((bsonUtf8FromUnichar unichar).1 ++ rest) =
        some (bsonUtf8FromUnichar unichar).2

theorem unicharRoundTrip_iff (unichar : Nat) :
    UnicharRoundTrip unichar ↔
      (bsonUtf8FromUnichar unichar).1.length = (bsonUtf8FromUnichar unichar).2 ∧
        Decodes (bsonUtf8FromUnichar unichar).1 unichar := by
  constructor
  · intro ⟨hlen, h⟩
    refine ⟨hlen, fun rest => (h rest).1, fun rest => ?_⟩
    rw [hlen]
    exact (h rest).2
  · intro ⟨hlen, hget, hnext⟩
    refine ⟨hlen, fun rest => ⟨hget rest, ?_⟩⟩
    rw [← hlen]
    exact hnext rest

/-- Up to five octets every character comes back, of the six-octet ones none. -/
theorem from_unichar_round_trip_iff (unichar : Nat) (h : unichar ≤ 0x7FFFFFFF) :
    UnicharRoundTrip unichar ↔ unichar ≤ 0x3FFFFFF := by
  rw [unicharRoundTrip_iff]
  constructor
  · intro ⟨_, hd⟩
    by_contra hbig
    obtain ⟨-, hsix⟩ := bsonUtf8FromUnichar_six (by omega) h
    have heq := hd.unique hsix
    omega
  · intro hsmall
    by_cases hfour : unichar ≤ 0x1FFFFF
    · rw [bsonUtf8FromUnichar_encode hfour]
      exact ⟨rfl, utf8Encode_decodes hfour⟩
    · exact bsonUtf8FromUnichar_five (by omega) hsmall

theorem from_unichar_round_trip_edge : UnicharRoundTrip 0x3FFFFFF ↔ 0x3FFFFFF ≤ 0x3FFFFFF :=
  from_unichar_round_trip_iff 0x3FFFFFF (by decide)

/-- The least character of six octets is written as `FC 82 80 80 80 80`, which is
read as half of it. -/
theorem from_unichar_not_round_trip : ¬ ∀ unichar ≤ 0x7FFFFFFF, UnicharRoundTrip unichar := by
  intro h
  obtain ⟨-, hread⟩ := h 0x4000000 (by decide)
  have hget := (hread []).1
  revert hget
  decide +kernel

end LibBson.Guarantees
