import LibBson.Spec.Tree

/-!
# Looking a path up in a document

The first element with the first key, then the same below it, for the rest of the path and
only in a document or an array. What is found is told by the indices on the way and the
value at the end.
-/

set_option autoImplicit false

namespace LibBson.Spec
open LibBson.Library

/-- The parts of a dotted key. -/
def segments (dotkey : Bytes) : List Bytes := dotkey.splitOn 46

namespace Doc

/-- The first element with the key `k`: its index and its value. -/
def find (k : Bytes) : Doc → Option (Nat × Value)
  | .nil => none
  | .cons key v rest =>
    if key.bytes = k then some (0, v) else (rest.find k).map fun found => (found.1 + 1, found.2)

/-- The document or array that a value is. -/
def nested : Value → Option Doc
  | .document d => some d
  | .array d => some d
  | _ => none

def lookup : List Bytes → Doc → Option (List Nat × Value)
  | [], _ => none
  | k :: path, d =>
    match d.find k with
    | none => none
    | some (i, v) =>
      if path = [] then some ([i], v)
      else
        match nested v with
        | none => none
        | some child => (child.lookup path).map fun found => (i :: found.1, found.2)

theorem find_cons_eq {k : Bytes} {key : CStr} {v : Value} {rest : Doc} (h : key.bytes = k) :
    (Doc.cons key v rest).find k = some (0, v) := by
  rw [find, if_pos h]

theorem find_cons_ne {k : Bytes} {key : CStr} {v : Value} {rest : Doc} (h : key.bytes ≠ k) :
    (Doc.cons key v rest).find k = (rest.find k).map fun found => (found.1 + 1, found.2) := by
  rw [find, if_neg h]

/-- The key and the value stand in the document. -/
theorem find_length {d : Doc} {k : Bytes} {i : Nat} {v : Value} (h : d.find k = some (i, v)) :
    k.length + v.encode.length ≤ d.body.length := by
  match d with
  | .nil => cases h
  | .cons key w rest =>
    rw [body_cons, List.length_append, List.length_append, header_length]
    by_cases hk : key.bytes = k
    · rw [find_cons_eq hk, Option.some.injEq, Prod.mk.injEq] at h
      rw [← h.2, hk]
      omega
    · rw [find_cons_ne hk] at h
      obtain ⟨⟨j, u⟩, hj, heq⟩ := Option.map_eq_some_iff.mp h
      obtain rfl : u = v := congrArg Prod.snd heq
      have hrest := find_length hj
      omega

theorem nested_length {v : Value} {child : Doc} (h : nested v = some child) :
    child.body.length ≤ v.encode.length := by
  cases v with
  | document d | array d =>
    cases h
    rw [Value.encode, frame_length]
    omega
  | double | utf8 | binary | undefined | oid | bool | dateTime | null | regex | dbpointer | code
  | symbol | codewscope | int32 | timestamp | int64 | decimal128 | maxkey | minkey => cases h

theorem lookup_find_none {path : List Bytes} {d : Doc} {k : Bytes} (h : d.find k = none) :
    d.lookup (k :: path) = none := by
  rw [lookup, h]

theorem lookup_single {d : Doc} {k : Bytes} {i : Nat} {v : Value} (h : d.find k = some (i, v)) :
    d.lookup [k] = some ([i], v) := by
  rw [lookup, h]
  rfl

theorem lookup_cons {path : List Bytes} {d : Doc} {k : Bytes} {i : Nat} {v : Value}
    (h : d.find k = some (i, v)) (hpath : path ≠ []) :
    d.lookup (k :: path) =
      (nested v).bind fun child =>
        (child.lookup path).map fun found => (i :: found.1, found.2) := by
  rw [lookup, h]
  dsimp only
  rw [if_neg hpath]
  cases nested v <;> rfl

/-- The way to an element has at least one step. -/
theorem lookup_way {path : List Bytes} {d : Doc} {found : List Nat × Value}
    (h : d.lookup path = some found) : found.1 ≠ [] := by
  cases path with
  | nil => cases h
  | cons k path =>
    cases hfind : d.find k with
    | none =>
      rw [lookup_find_none hfind] at h
      cases h
    | some p =>
      obtain ⟨i, v⟩ := p
      by_cases hpath : path = []
      · rw [hpath, lookup_single hfind] at h
        cases h
        exact List.cons_ne_nil i []
      · rw [lookup_cons hfind hpath] at h
        obtain ⟨child, -, h⟩ := Option.bind_eq_some_iff.mp h
        obtain ⟨found', -, rfl⟩ := Option.map_eq_some_iff.mp h
        exact List.cons_ne_nil i found'.1

/-- Every part of a path that leads somewhere is a key of the document. -/
theorem lookup_length {path : List Bytes} {d : Doc} {found : List Nat × Value}
    (h : d.lookup path = some found) : ∀ k ∈ path, k.length ≤ d.body.length := by
  induction path generalizing d found with
  | nil => cases h
  | cons k path ih =>
    cases hfind : d.find k with
    | none =>
      rw [lookup_find_none hfind] at h
      cases h
    | some p =>
      obtain ⟨i, v⟩ := p
      have hlen := find_length hfind
      intro k' hk'
      rcases List.mem_cons.mp hk' with rfl | hmem
      · omega
      · rw [lookup_cons hfind (List.ne_nil_of_mem hmem)] at h
        obtain ⟨child, hnested, h⟩ := Option.bind_eq_some_iff.mp h
        obtain ⟨found', hfound', -⟩ := Option.map_eq_some_iff.mp h
        have hchild := nested_length hnested
        have hk := ih hfound' k' hmem
        omega

end Doc

section Segments

variable {s rest : Bytes}

theorem segments_last (h : (46 : UInt8) ∉ s) : segments s = [s] := by
  rw [segments, List.splitOn_eq_splitOnP]
  apply List.splitOnP_eq_singleton
  intro x hx
  have hne : x ≠ 46 := fun heq => h (heq ▸ hx)
  simpa using hne

theorem segments_dot (h : (46 : UInt8) ∉ s) : segments (s ++ 46 :: rest) = s :: segments rest := by
  rw [segments, List.splitOn_eq_splitOnP]
  apply List.splitOnP_append_cons_of_forall_mem
  · intro x hx
    have hne : x ≠ 46 := fun heq => h (heq ▸ hx)
    simpa using hne
  · decide

end Segments

end LibBson.Spec
