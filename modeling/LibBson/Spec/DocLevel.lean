import LibBson.Spec.Level
import LibBson.Spec.Walk

/-!
# The tree of a document

`Doc.level d` is what a walk of the encoding of `d` sees, and `Doc.Utf8 d` says
that every key and every text of `d` is UTF-8.
-/

set_option autoImplicit false

namespace LibBson.Spec
open LibBson.Library LibBson.Source

mutual

def Value.content : Value → Content
  | .utf8 s => .utf8 s
  | .code s => .text s
  | .symbol s => .text s
  | .dbpointer collection _ => .text collection
  | .regex pattern _ => .text pattern.bytes
  | .document d => .nested true d.level
  | .array d => .nested true d.level
  | .codewscope s scope => .scope s true scope.level
  | .double _ => .plain
  | .binary .. => .plain
  | .undefined => .plain
  | .oid _ => .plain
  | .bool _ => .plain
  | .dateTime _ => .plain
  | .null => .plain
  | .int32 _ => .plain
  | .timestamp .. => .plain
  | .int64 _ => .plain
  | .decimal128 .. => .plain
  | .maxkey => .plain
  | .minkey => .plain

def Doc.level : Doc → Level
  | .nil => .stop false
  | .cons key v rest => .field key.bytes v.content rest.level

end

mutual

/-- Every text in the value is UTF-8; a string may contain NUL characters. -/
def Value.Utf8 : Value → Prop
  | .utf8 s => Utf8Text true s
  | .code s => Utf8Text true s
  | .symbol s => Utf8Text true s
  | .dbpointer collection _ => Utf8Text true collection
  | .regex pattern _ => Utf8Text true pattern.bytes
  | .document d => d.Utf8
  | .array d => d.Utf8
  | .codewscope s scope => Utf8Text true s ∧ scope.Utf8
  | .double _ => True
  | .binary .. => True
  | .undefined => True
  | .oid _ => True
  | .bool _ => True
  | .dateTime _ => True
  | .null => True
  | .int32 _ => True
  | .timestamp .. => True
  | .int64 _ => True
  | .decimal128 .. => True
  | .maxkey => True
  | .minkey => True

def Doc.Utf8 : Doc → Prop
  | .nil => True
  | .cons key v rest => Utf8Text false key.bytes ∧ v.Utf8 ∧ rest.Utf8

end

mutual

/-- The tree of a document with UTF-8 text is well formed where it is visible. -/
theorem Doc.level_visible (d : Doc) (h : d.Utf8) :
    d.level.visible.corrupt = false ∧ d.level.visible.Below cleanHere := by
  match d with
  | .nil => exact ⟨rfl, trivial⟩
  | .cons key v rest =>
    rw [Doc.Utf8] at h
    obtain ⟨hkey, hv, hrest⟩ := h
    have hvalid : validKey key.bytes = true := by
      simp [validKey, (bsonUtf8Validate_iff _ _).mpr hkey]
    have hc := Value.content_visible v hv
    obtain ⟨h1, h2⟩ := Doc.level_visible rest hrest
    rw [Doc.level, Level.visible, if_pos hvalid, Level.corrupt, Level.Below]
    cases v.content.ends with
    | true => exact ⟨rfl, hc, trivial⟩
    | false => exact ⟨h1, hc, h2⟩

theorem Value.content_visible (v : Value) (h : v.Utf8) :
    v.content.visible.Below cleanHere := by
  match v with
  | .document d | .array d =>
    rw [Value.Utf8] at h
    obtain ⟨h1, h2⟩ := Doc.level_visible d h
    rw [Value.content, Content.visible, if_pos rfl, Content.Below]
    exact ⟨⟨rfl, h1⟩, h2⟩
  | .codewscope s d =>
    rw [Value.Utf8] at h
    obtain ⟨hs, hd⟩ := h
    obtain ⟨h1, h2⟩ := Doc.level_visible d hd
    have hvalid : validText s = true := (bsonUtf8Validate_iff _ _).mpr hs
    rw [Value.content, Content.visible, hvalid]
    exact ⟨⟨rfl, h1⟩, h2⟩
  | .utf8 s =>
    rw [Value.content, Content.visible]
    split <;> trivial
  | .double _ | .binary .. | .undefined | .oid _ | .bool _ | .dateTime _ | .null | .regex ..
  | .dbpointer .. | .code _ | .symbol _ | .int32 _ | .timestamp .. | .int64 _ | .decimal128 ..
  | .maxkey | .minkey => trivial

end

end LibBson.Spec
