import LibBson.Spec.Builds
import Mathlib.Data.List.TakeWhile

/-!
# Documents built by appends alone

What the append functions write for a value they are given: texts they measure with
`strlen` have no NUL inside, the options of a regex are sorted. `Appended` narrows
`Builds` to concatenations of documents that are themselves built so; a document handed
over as a value may come from anywhere.
-/

set_option autoImplicit false

namespace LibBson.Spec
open LibBson.Library LibBson.Source

/-- What an append writes for some argument. -/
def Value.Canonical : Value → Prop
  | .code s | .dbpointer s _ | .codewscope s _ => (0 : UInt8) ∉ s
  | .regex _ options => options.bytes = bsonAppendRegexOptionsSorted options.bytes
  | _ => True

def Doc.Canonical : Doc → Prop
  | .nil => True
  | .cons _ v rest => v.Canonical ∧ rest.Canonical

/-- The supported options of a regex in their sorted order. -/
def sortedOptions (options : Bytes) : CStr :=
  ⟨[105, 108, 109, 115, 117, 120].filter (· ∈ cText options),
    fun h => absurd (List.mem_of_mem_filter h) (by simp)⟩

/-- What an append writes for the parts of a value: a text handed over without its length
ends at a NUL, the options of a regex are sorted. -/
def Value.copy : Value → Value
  | .code s => .code (cText s)
  | .dbpointer s o => .dbpointer (cText s) o
  | .codewscope s scope => .codewscope (cText s) scope
  | .regex pattern options => .regex pattern (sortedOptions options.bytes)
  | v => v

/-- The calls are well bracketed, describe `d`, and concatenate only documents of this
kind. -/
inductive Appended : List Step → Doc → Prop
  | nil : Appended [] .nil
  | keyed (call : AppendCall) (key : Bytes) (keyLength : Int) (f : Field) (k : CStr) (v : Value)
    (steps : List Step) (e : Doc) (h : call.keyed = some (key, keyLength, f))
    (hkey : k.bytes = textOf key keyLength) (hv : Means f v) (rest : Appended steps e) :
    Appended (.append call :: steps) (.cons k v e)
  | concat (src : BsonRef) (own : List Step) (d : Doc) (steps : List Step) (e : Doc)
    (hd : Appended own d) (h : Encodes src d) (rest : Appended steps e) :
    Appended (.append (.concat src) :: steps) (d.append e)
  | document (key : Bytes) (keyLength : Int) (k : CStr) (inner : List Step) (d : Doc)
    (steps : List Step) (e : Doc) (hkey : k.bytes = textOf key keyLength)
    (child : Builds inner d) (rest : Appended steps e) :
    Appended (.documentBegin key keyLength :: (inner ++ .end :: steps)) (.cons k (.document d) e)
  | array (key : Bytes) (keyLength : Int) (k : CStr) (inner : List Step) (d : Doc)
    (steps : List Step) (e : Doc) (hkey : k.bytes = textOf key keyLength)
    (child : Builds inner d) (rest : Appended steps e) :
    Appended (.arrayBegin key keyLength :: (inner ++ .end :: steps)) (.cons k (.array d) e)

theorem Appended.builds {steps : List Step} {d : Doc} (h : Appended steps d) : Builds steps d := by
  induction h with
  | nil => exact .nil
  | keyed call key keyLength f k v steps e h hkey hv _ ih =>
    exact .append call (.cons k v .nil) steps e (.keyed call key keyLength f k v h hkey hv) ih
  | concat src own d steps e _ h _ _ ih => exact .append _ d steps e (.concat src d h) ih
  | document key keyLength k inner d steps e hkey child _ ih =>
    exact .document key keyLength k inner d steps e hkey child ih
  | array key keyLength k inner d steps e hkey child _ ih =>
    exact .array key keyLength k inner d steps e hkey child ih

theorem Doc.Canonical.append {d e : Doc} (hd : d.Canonical) (he : e.Canonical) :
    (d.append e).Canonical := by
  match d with
  | .nil => exact he
  | .cons _ v rest => exact ⟨hd.1, hd.2.append he⟩

theorem regexOptions_sorted {o s : Bytes}
    (h : o = [105, 108, 109, 115, 117, 120].filter (· ∈ cText s)) :
    o = bsonAppendRegexOptionsSorted o := by
  have hnul : cText o = o := by
    apply cText_of_no_nul
    rw [h]
    intro hmem
    have hin := List.mem_of_mem_filter hmem
    simp at hin
  rw [bsonAppendRegexOptionsSorted, hnul]
  conv => lhs; rw [h]
  apply List.filter_congr
  intro b hb
  rw [h]
  simp only [List.mem_filter, decide_eq_true_eq, decide_eq_decide]
  constructor
  · intro hs
    exact ⟨hb, hs⟩
  · intro hs
    exact hs.2

theorem Value.Canonical.copy {v : Value} (h : v.Canonical) : v.copy = v := by
  cases v with
  | code s => exact congrArg Value.code (cText_of_no_nul h)
  | dbpointer s o => exact congrArg (Value.dbpointer · o) (cText_of_no_nul h)
  | codewscope s scope => exact congrArg (Value.codewscope · scope) (cText_of_no_nul h)
  | regex pattern options =>
    have hoptions : (sortedOptions options.bytes).bytes = options.bytes := h.symm
    cases options
    simp only [Value.copy, Value.regex.injEq, true_and]
    exact CStr.mk.injEq .. ▸ hoptions
  | _ => rfl

theorem means_canonical {f : Field} {v : Value} (h : Means f v) : v.Canonical := by
  cases h with
  | code s => exact not_mem_cText s
  | codeNullScope s => exact not_mem_cText s
  | codeWithScope s b d h => exact not_mem_cText s
  | dbpointer c o oid h => exact not_mem_cText c
  | regex r o pattern options hp ho => exact regexOptions_sorted ho
  | array | binary | bool | document | double | int32 | int64 | decimal128 | maxkey | minkey | null
  | oid | utf8Null | utf8 | symbolNull | symbol | timestamp | dateTime | timeval | timeT
  | undefined => trivial

theorem Appended.canonical {steps : List Step} {d : Doc} (h : Appended steps d) :
    d.Canonical := by
  induction h with
  | nil => trivial
  | keyed call key keyLength f k v steps e h hkey hv _ ih => exact ⟨means_canonical hv, ih⟩
  | concat src own d steps e _ h _ ihd ih => exact ihd.append ih
  | document key keyLength k inner d steps e hkey child _ ih => exact ⟨trivial, ih⟩
  | array key keyLength k inner d steps e hkey child _ ih => exact ⟨trivial, ih⟩

end LibBson.Spec
