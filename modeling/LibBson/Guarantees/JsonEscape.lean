import LibBson.Source.Utf8Escape

/-!
# A valid string as the body of a JSON string

Source: bson-utf8.c:266-334.
-/

set_option autoImplicit false

namespace LibBson.Guarantees
open LibBson.Library LibBson.Source

/-- The escaped text is the body of a JSON string for the characters of `s`. -/
def EscapesToBody (s : Bytes) : Prop :=
  ∃ text cs, bsonUtf8EscapeForJson s s.length = .text text ∧ Utf8Points true s cs ∧ JsonBody text cs

/-- On a string the validation lets through. -/
theorem escape_for_json_iff (s : Bytes) (h : bsonUtf8Validate s true = true) :
    EscapesToBody s ↔ 0xC0 ∉ s ∧ escapedLength s < 2147483648 := by
  obtain ⟨cs, hcs⟩ := ((bsonUtf8Validate_iff s true).mp h).points
  obtain ⟨hgood, hbad⟩ := bsonUtf8EscapeForJson_spec hcs
  constructor
  · intro ⟨text, _, htext, _, _⟩
    by_contra hnot
    rcases hbad hnot with hlost | hnull
    · rw [hlost] at htext
      cases htext
    · rw [hnull] at htext
      cases htext
  · intro hok
    exact ⟨_, cs, hgood hok, hcs, escaped_body hcs.scalar⟩

/-- `a`, NUL, a quote and a euro sign. -/
theorem escape_for_json_euro :
    EscapesToBody [0x61, 0x00, 0x22, 0xE2, 0x82, 0xAC] ↔
      0xC0 ∉ ([0x61, 0x00, 0x22, 0xE2, 0x82, 0xAC] : Bytes) ∧
        escapedLength [0x61, 0x00, 0x22, 0xE2, 0x82, 0xAC] < 2147483648 :=
  escape_for_json_iff [0x61, 0x00, 0x22, 0xE2, 0x82, 0xAC] (by decide +kernel)

/-- NUL in two octets passes the validation and is refused here. -/
theorem escape_for_json_refuses :
    ¬ ∀ s : Bytes, bsonUtf8Validate s true = true → EscapesToBody s := by
  intro h
  obtain ⟨text, cs, htext, -⟩ := h [0xC0, 0x80] (by decide +kernel)
  revert htext
  have hnull : bsonUtf8EscapeForJson [0xC0, 0x80] 2 = .null := by decide +kernel
  intro htext
  cases hnull.symm.trans htext

end LibBson.Guarantees
