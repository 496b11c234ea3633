import LibBson.Source.JsonReturns

/-!
# What a list of events comes to

`reacts` are the calls the callbacks make for some events, in order, with the state
behind them. A run executes these calls on the documents, up to the first one that
fails. Source: bson-json.c:544-1780, 1850-1940.
-/

set_option autoImplicit false

namespace LibBson.Source
open LibBson.Library

namespace JsonReaderBson

/-- A value is stored where the reader is. -/
structure TakesValue (s : JsonReaderBson) : Prop where
  regular : s.readState = .regular
  inside : 0 < s.depth
  keyed : s.top.type = .array ∨ s.key.isSome = true

section Keys

variable (fresh : JsonBlock → Nat → Mem)

theorem readFixupKey_keeps (s : JsonReaderBson) :
    (s.readFixupKey fresh).readState = s.readState ∧ (s.readFixupKey fresh).depth = s.depth ∧
      (s.readFixupKey fresh).error = s.error := by
  unfold readFixupKey
  split
  · simp only
    split
    · exact ⟨rfl, rfl, rfl⟩
    · exact ⟨rfl, rfl, rfl⟩
  · exact ⟨rfl, rfl, rfl⟩

/-- An element of an array gets its key. -/
theorem TakesValue.fixedKey {s : JsonReaderBson} (h : s.TakesValue) :
    (s.readFixupKey fresh).key.isSome = true := by
  unfold readFixupKey
  split
  · simp only
    split
    · rfl
    · rfl
  · next hfix =>
    rcases h.keyed with harray | hkey
    · exact absurd ⟨h.inside, harray, h.regular⟩ hfix
    · exact hkey

end Keys

section Reacts

variable (fresh : JsonBlock → Nat → Mem) (dec : JsonDecoders)

variable {fresh dec}

end Reacts

end JsonReaderBson

/-! ## On the documents -/

namespace JsonParse

variable {fresh : JsonHeap} {dec : JsonDecoders}

end JsonParse

end LibBson.Source
