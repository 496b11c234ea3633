import LibBson.Source.Iso8601Grammar

/-!
# The date parser accepts its grammar

A text is read if and only if it is `yyyy-mm-ddThh:mm`, seconds and a fraction of one to
three digits at will, and `Z` or a signed offset, each number within its bounds. What is
read is the date in milliseconds, less the offset. `_bson_timegm` is any function of the
fields. Source: bson-iso8601.c:26-297.
-/

set_option autoImplicit false

namespace LibBson.Guarantees
open LibBson.Library LibBson.Source LibBson.Spec

/-- The parser succeeds on the texts of dates, with the values of these dates. -/
theorem iso8601_parse_iff (timegm : BsonTm → Int) (str : Bytes) (v : Int) :
    bsonIso8601DateParse str timegm = .ok v ↔
      ∃ d : IsoDate, d.text = str ∧ isoValue timegm d = v := by
  constructor
  · intro h
    obtain ⟨d, rfl⟩ := parse_ok timegm h
    rw [parse_text, Except.ok.injEq] at h
    exact ⟨d, rfl, h⟩
  · intro h
    obtain ⟨d, rfl, rfl⟩ := h
    exact parse_text timegm d

/-- A second behind 23:59:59, and an offset to the west. -/
example : (IsoDate.mk 1970 0 0 23 59 (some ⟨60, some ⟨[2, 5], by decide, by decide⟩⟩)
    (.offset true 23 59)).text = ascii "1970-01-01T23:59:60.25-2359" := by
  decide +kernel

end LibBson.Guarantees
