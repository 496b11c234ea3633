import LibBson.Source.JsonEvents
import LibBson.Source.JsonHarmless

/-!
# Wrappers in the reader's callbacks

How a wrapper begins where a value is stored, and how a document is opened in its
place and ends. Source: bson-json.c:278-378, 1042-1304, 1548-1733.
-/

set_option autoImplicit false

namespace LibBson.Source
open LibBson.Library

namespace BsonJsonBsonData

variable (d : BsonJsonBsonData)

end BsonJsonBsonData

namespace JsonReaderBson

variable {fresh : JsonBlock → Nat → Mem} {dec : JsonDecoders} {s : JsonReaderBson}

section Begins

variable (fresh) (s)

end Begins

/-- `s'` is in a document that was opened in `s`, and in front of a member. -/
structure InDocument (s s' : JsonReaderBson) : Prop where
  depth : s'.depth = s.depth + 1
  regular : s'.readState = .regular
  top : s'.top.type = .doc ∧ s'.top.hasId = s'.top.hasRef
  below : ∀ i, i < s.depth → s'.stack i = s.stack i
  keyed : s'.key.isSome = true
  error : s'.error = none

theorem InDocument.endMapInState {s' : JsonReaderBson} (h : s.InDocument s')
    (hinside : 0 < s.depth) :
    s'.endMapInState = .done { s' with depth := s.depth } [.appendEnd] := by
  obtain ⟨hdepth, hregular, ⟨htype, hflags⟩, -, -, -⟩ := h
  rw [JsonReaderBson.endMapInState]
  simp only [hregular]
  rw [endRegularMap]
  simp only [htype]
  rw [if_neg (fun hne => hne hflags), stackPop, if_neg (by rw [htype, hdepth]; simp),
    if_neg (by omega), finishIfEmpty, if_neg (by simp only [hdepth]; omega), hdepth, hregular]
  rfl

/-- The end of the document. -/
theorem InDocument.ends {s' : JsonReaderBson} (h : s.InDocument s') (hinside : 0 < s.depth) :
    s'.react fresh dec .endMap = .done { s' with depth := s.depth } [.appendEnd] := by
  rw [react, readEndMap]
  simp only [h.regular]
  rw [h.endMapInState hinside, h.regular]

section Objects

variable (fresh) (s)

variable {s}

end Objects

/-- In a document the key of a value stands already. -/
theorem InDocument.fixedKey {s' : JsonReaderBson} (h : s.InDocument s') :
    s'.readFixupKey fresh = s' := by
  rw [readFixupKey, if_neg]
  rintro ⟨-, harray, -⟩
  rw [h.top.1] at harray
  cases harray

/-! ## `$type` -/

section TypeOperator

end TypeOperator

end JsonReaderBson

end LibBson.Source
