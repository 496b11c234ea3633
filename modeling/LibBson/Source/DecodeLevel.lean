import LibBson.Source.DecodeLaws
import LibBson.Source.LevelLaws
import LibBson.Spec.DocLevel

/-!
# What is read back is what a walk sees

An iterator that yields the fields of `d` sees the tree `d.level`, so a statement
about trees applies to every document that was built.
-/

set_option autoImplicit false

namespace LibBson.Source
open LibBson.Library LibBson.Spec

/-- A C string whose NUL stands inside the window. -/
theorem cstringAt_eq {m : Mem} {o n : Nat} {s : CStr} (h : Holds m o (s.bytes ++ [0]))
    (hn : s.bytes.length < n) : cstringAt m o n = s.bytes := by
  rw [holds_append] at h
  have hslice : m.slice o n = s.bytes ++ m.slice (o + s.bytes.length) (n - s.bytes.length) := by
    have hadd := m.slice_add o s.bytes.length (n - s.bytes.length)
    rw [show s.bytes.length + (n - s.bytes.length) = n by omega] at hadd
    rw [hadd, h.1.slice_eq]
  have hnul : m (o + s.bytes.length) = 0 := ((holds_cons _ _ _ _).mp h.2).1
  have hkeep : ∀ b ∈ s.bytes, (b ≠ 0) = true := fun b hb => by
    simp only [ne_eq, eq_iff_iff, iff_true]
    rintro rfl
    exact s.noNul hb
  rw [cstringAt, hslice, List.takeWhile_append_of_pos (by simpa using hkeep),
    show n - s.bytes.length = (n - s.bytes.length - 1) + 1 by omega, Mem.slice_succ, hnul]
  simp

/-- The NUL of a key that is a C string stands where the iterator found it. -/
theorem Element.key_eq {it e : BsonIter} {m : Mem} {o : Nat} {t : BsonType} {k : CStr}
    (he : Element m it e o t) (h : Holds e.mem e.key (k.bytes ++ [0])) :
    bsonIterKeyUnsafe e = k.bytes := by
  rw [he.mem_eq, he.key] at h
  have hend : o = it.nextOff + 1 + k.bytes.length + 1 := by
    rw [holds_append] at h
    obtain ⟨hk, hn⟩ := h
    have hnul : m (it.nextOff + 1 + k.bytes.length) = 0 := ((holds_cons _ _ _ _).mp hn).1
    have h1 : ¬ it.nextOff + 1 + k.bytes.length + 1 < o :=
      fun hlt => he.keyBytes _ (by omega) hlt hnul
    have h2 : ¬ o < it.nextOff + 1 + k.bytes.length + 1 := by
      intro hlt
      have hkey := he.keyEnd
      obtain ⟨j, hj⟩ := Nat.exists_eq_add_of_le (show it.nextOff + 1 ≤ o - 1 by omega)
      have hz := he.keyNul
      rw [hj, hk.get j (by omega)] at hz
      exact k.noNul (hz ▸ List.getElem_mem _)
    omega
  have hin := he.inside
  rw [bsonIterKeyUnsafe, he.mem_eq, he.key, he.len]
  exact cstringAt_eq h (by omega)

/-- The octets of a document are framed. -/
theorem framed_of_slice {m : Mem} {o len : Nat} {body : Bytes} (h : m.slice o len = frame body)
    (hmax : len < 4294967296) : Framed m o len := by
  have hlen : len = body.length + 5 := by
    have hl := congrArg List.length h
    simpa using hl
  have hholds : Holds m o (frame body) := by
    unfold Holds
    rw [frame_length, ← hlen]
    exact h
  obtain ⟨hword, hrest⟩ := frame_holds hholds (by omega)
  rw [holds_append, holds_cons] at hrest
  refine ⟨by omega, by omega, ?_⟩
  rw [show o + len - 1 = o + 4 + body.length by omega]
  exact hrest.2.1

theorem framed_of_initStatic {m : Mem} {o len : Nat} {b : BsonRef}
    (h : bsonInitStatic (m.shift o) len = some b) :
    Framed m o len ∧ b = { data := m.shift o, len := len } := by
  unfold bsonInitStatic at h
  split_ifs at h with h1 h2 h3
  cases h
  refine ⟨⟨by omega, by simpa using h2, ?_⟩, rfl⟩
  rw [show o + len - 1 = o + (len - 1) by omega]
  simpa using h3

theorem Inside.len_lt {it e : BsonIter} {p : Slice} (h : Inside it e p) (hmax : it.len ≤ maxLen) :
    p.len < maxLen := by
  obtain ⟨h1, h2, h3⟩ := h
  omega

/-- The pattern that is read back is the C string the accessor points to. -/
theorem cstring_regex {it e : BsonIter} {m : Mem} {o p q : Nat} {s : CStr}
    (he : Element m it e o .regex) (hp : bsonIterRegex e = some (p, q))
    (h : Holds e.mem p (s.bytes ++ [0])) : e.cstring p = s.bytes := by
  unfold bsonIterRegex at hp
  rw [if_pos he.iterType_eq] at hp
  cases hp
  obtain ⟨f1, f2, f3, f4, -⟩ :
    e.d1 = o ∧ o < e.d2 ∧ e.d2 < e.nextOff ∧ m (e.d2 - 1) = 0 ∧
      ∀ k, o ≤ k → k + 1 < e.d2 → m k ≠ 0 := he.fields
  have hstop := he.stop
  have hshort : ¬ e.d2 < o + s.bytes.length + 1 := by
    intro hlt
    rw [he.mem_eq, f1, holds_append] at h
    obtain ⟨j, hj⟩ := Nat.exists_eq_add_of_le (show o ≤ e.d2 - 1 by omega)
    rw [hj, h.1.get j (by omega)] at f4
    exact s.noNul (f4 ▸ List.getElem_mem _)
  have hlen := he.len
  exact cstringAt_eq h (by omega)

mutual

theorem shows_of_reads (v : Value) {it e : BsonIter} {m : Mem} {o : Nat}
    (he : Element m it e o v.type) (hmax : it.len ≤ maxLen) (h : Reads v e) :
    Shows e v.content := by
  have htype := he.iterType_eq
  match v with
  | .utf8 s =>
    obtain ⟨p, hp, rfl⟩ := h
    exact .utf8 e p hp
  | .code s =>
    obtain ⟨p, hp, rfl⟩ := h
    exact .code e p hp
  | .symbol s =>
    obtain ⟨p, hp, rfl⟩ := h
    exact .symbol e p hp
  | .dbpointer c x =>
    obtain ⟨p, q, hp, rfl, -⟩ := h
    exact .dbpointer e p q hp
  | .regex pattern options =>
    rw [Reads] at h
    obtain ⟨p, q, hp, hpattern, -⟩ := h
    rw [Value.content, ← cstring_regex he hp hpattern]
    exact .regex e p q hp
  | .document d =>
    rw [Reads] at h
    obtain ⟨⟨p, hp, hslice⟩, child, hchild, hy⟩ := h
    have hin := inside_document he hp
    have hlen := hin.len_lt hmax
    obtain rfl : childIter e p = child := by
      simpa [bsonIterRecurse, htype, Value.type, hp, childIter] using hchild
    have hs := Shows.document e p d.level hp
      (sees_of_yields d rfl (Nat.le_refl 4) (Nat.le_of_lt hlen) hy)
    rwa [decide_eq_true (framed_of_slice hslice (by unfold maxLen at hlen; omega))] at hs
  | .array d =>
    rw [Reads] at h
    obtain ⟨⟨p, hp, hslice⟩, child, hchild, hy⟩ := h
    have hin := inside_array he hp
    have hlen := hin.len_lt hmax
    obtain rfl : childIter e p = child := by
      simpa [bsonIterRecurse, htype, Value.type, hp, childIter] using hchild
    have hs := Shows.array e p d.level hp
      (sees_of_yields d rfl (Nat.le_refl 4) (Nat.le_of_lt hlen) hy)
    rwa [decide_eq_true (framed_of_slice hslice (by unfold maxLen at hlen; omega))] at hs
  | .codewscope s d =>
    rw [Reads] at h
    obtain ⟨p, q, hp, rfl, b, it', hb, hinit, hy⟩ := h
    have hin := inside_codewscope he hp
    have hlen := hin.len_lt hmax
    obtain ⟨hframed, rfl⟩ := framed_of_initStatic hb
    obtain rfl : childIter e q = it' := by
      rw [bsonIterInit, if_neg (by have := hframed.1; simp only; omega)] at hinit
      exact (Prod.mk.inj hinit).2
    have hs := Shows.codewscope e p q d.level hp
      (sees_of_yields d rfl (Nat.le_refl 4) (Nat.le_of_lt hlen) hy)
    rwa [decide_eq_true hframed] at hs
  | .double _ | .binary .. | .undefined | .oid _ | .bool _ | .dateTime _ | .null
  | .int32 _ | .timestamp .. | .int64 _ | .decimal128 .. | .maxkey | .minkey =>
    exact .plain e _ htype rfl

theorem sees_of_yields (d : Doc) {it : BsonIter} {m : Mem} (hraw : it.raw = some m)
    (h4 : 4 ≤ it.nextOff) (hmax : it.len ≤ maxLen) (h : Yields d it) : Sees it d.level := by
  match d with
  | .nil =>
    rw [Yields] at h
    obtain ⟨hok, herr, -⟩ := h
    have hs := Sees.stop it hok
    rw [Doc.level]
    simpa [herr] using hs
  | .cons k v rest =>
    rw [Yields] at h
    obtain ⟨hok, hkey, htype, hreads, hrest⟩ := h
    obtain ⟨o, t, he'⟩ := element_of_next hraw h4 hmax hok
    have he : Element m it (bsonIterNext it).2 o t := he'
    obtain rfl : t = v.type := Option.some.inj (he.iterType_eq.symm.trans htype)
    have hp := he.progress
    have hc := shows_of_reads v he hmax hreads
    have hlevel := sees_of_yields rest he.raw (by omega) (by rw [he.len]; exact hmax) hrest
    have hs := Sees.field it v.content rest.level hok hc hlevel
    rw [he.key_eq hkey] at hs
    exact hs

end

end LibBson.Source
