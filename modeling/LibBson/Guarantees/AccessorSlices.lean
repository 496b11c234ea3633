import LibBson.Source.IterRuns

/-!
# What the typed accessors hand out

For every element a walk of a buffer that `bson_init_static` accepts can yield,
at any depth. Source: bson-iter.c:477-794, 855-898, 1224-1556, 1744-1824.
-/

set_option autoImplicit false

namespace LibBson.Guarantees
open LibBson.Library LibBson.Source

/-- The slice lies inside the octets of the current element. -/
def Inside (e : BsonIter) (s : Slice) : Prop := e.off ≤ s.off ∧ s.off + s.len ≤ e.nextOff

/-- A C string of the reported length: its NUL is part of the element. -/
def CString (e : BsonIter) (s : Slice) : Prop :=
  Inside e { s with len := s.len + 1 } ∧ e.mem (s.off + s.len) = 0

def Nested (e : BsonIter) (s : Slice) : Prop := Inside e s ∧ 5 ≤ s.len

/-- Every accessor's result is sound on the current element; the two strings of
a regex come without a length, so that theirs is where a NUL stands. -/
structure AccessorsSound (e : BsonIter) : Prop where
  utf8 : ∀ s ∈ bsonIterUtf8 e, CString e s
  code : ∀ s ∈ bsonIterCode e, CString e s
  symbol : ∀ s ∈ bsonIterSymbol e, CString e s
  codewscope : ∀ s ∈ bsonIterCodewscope e, CString e s.1 ∧ Nested e s.2
  regex : ∀ s ∈ bsonIterRegex e, (∃ n, CString e ⟨s.1, n⟩) ∧ ∃ n, CString e ⟨s.2, n⟩
  dbpointer : ∀ s ∈ bsonIterDbpointer e, CString e s.1 ∧ Inside e ⟨s.2, 12⟩
  binary : ∀ s ∈ bsonIterBinary e, Inside e s.2
  document : ∀ s ∈ bsonIterDocument e, Nested e s
  array : ∀ s ∈ bsonIterArray e, Nested e s

/-- The next element is a document or an array whose length word is below 5. -/
def ShortNestedAhead (it : BsonIter) : Prop :=
  ∃ m o, it.raw = some m ∧ KeyEnds m it o ∧
    (m it.nextOff = BsonType.document.toByte ∨ m it.nextOff = BsonType.array.toByte) ∧
    m.le o 4 < 5

/-- The next element is a code with scope whose code does not end in a NUL. -/
def OpenCodeAhead (it : BsonIter) : Prop :=
  ∃ m o, it.raw = some m ∧ KeyEnds m it o ∧ m it.nextOff = BsonType.codewscope.toByte ∧
    m (o + 7 + m.le (o + 4) 4) ≠ 0

section Element

variable {m : Mem} {it e : BsonIter} {o : Nat} {t : BsonType}

/-- The length an UTF-8 accessor reports leaves out the NUL. -/
theorem utf8_len (he : Element m it e o t) (hd : e.d1 = o) (hlen : it.len ≤ maxLen)
    (h1 : 1 ≤ m.le o 4) (hstop : m.le o 4 < it.len) :
    bsonIterUtf8LenUnsafe e = m.le o 4 - 1 := by
  unfold maxLen at hlen
  rw [bsonIterUtf8LenUnsafe, he.mem_eq, hd, i32_of_lt (by omega)]
  omega

theorem string_slice (he : Element m it e o t) (hlen : it.len ≤ maxLen)
    (ht : t = .utf8 ∨ t = .code ∨ t = .symbol) :
    CString e { off := e.d2, len := bsonIterUtf8LenUnsafe e } := by
  have hlay : 1 ≤ m.le o 4 ∧ e.nextOff = o + 4 + m.le o 4 ∧ m (o + m.le o 4 + 3) = 0 := by
    have := he.layout
    rcases ht with rfl | rfl | rfl <;> exact this
  have hf : e.d1 = o ∧ e.d2 = o + 4 := by
    have := he.fields
    rcases ht with rfl | rfl | rfl <;> exact this
  obtain ⟨h1, h2, h3⟩ := hlay
  have hstop := he.stop
  have hkey := he.keyEnd
  have hoff := he.off
  have hl := utf8_len he hf.1 hlen h1 (by omega)
  refine ⟨⟨by simp only [hf]; omega, by simp only [hf, hl]; omega⟩, ?_⟩
  rw [he.mem_eq]
  simp only [hf, hl]
  rwa [show o + 4 + (m.le o 4 - 1) = o + m.le o 4 + 3 by omega]

theorem regex_slices (he : Element m it e o .regex) :
    (∃ n, CString e ⟨e.d1, n⟩) ∧ ∃ n, CString e ⟨e.d2, n⟩ := by
  obtain ⟨f1, f2, f3, f4, -⟩ := he.fields
  obtain ⟨i, j, -, -, h3, -, h5, -⟩ := he.layout
  have hkey := he.keyEnd
  have hoff := he.off
  refine ⟨⟨e.d2 - 1 - o, ⟨?_, ?_⟩, ?_⟩, ⟨j - e.d2, ⟨?_, ?_⟩, ?_⟩⟩
  · simp only; omega
  · simp only; omega
  · rw [he.mem_eq]
    simp only [f1]
    rwa [show o + (e.d2 - 1 - o) = e.d2 - 1 by omega]
  · simp only; omega
  · simp only; omega
  · rw [he.mem_eq]
    simp only
    rwa [show e.d2 + (j - e.d2) = j by omega]

theorem dbpointer_slices (he : Element m it e o .dbpointer) :
    ∀ s ∈ bsonIterDbpointer e, CString e s.1 ∧ Inside e ⟨s.2, 12⟩ := by
  intro s hs
  obtain ⟨f1, f2, f3⟩ := he.fields
  obtain ⟨h1, h2, h3⟩ := he.layout
  have hkey := he.keyEnd
  have hoff := he.off
  have hpos : m.le o 4 > 0 := h1
  simp only [bsonIterDbpointer, he.iterType_eq, he.mem_eq, f1, f2, f3, if_true, hpos,
    Option.mem_some_iff] at hs
  subst hs
  refine ⟨⟨⟨by simp only; omega, by simp only; omega⟩, ?_⟩, by simp only; omega, by simp only; omega⟩
  rw [he.mem_eq]
  simp only
  rwa [show o + 4 + (m.le o 4 - 1) = o + m.le o 4 + 3 by omega]

theorem binary_slice (he : Element m it e o .binary) (hlen : it.len ≤ maxLen) :
    ∀ s ∈ bsonIterBinary e, Inside e s.2 := by
  intro s hs
  obtain ⟨f1, f2, f3⟩ := he.fields
  obtain ⟨h1, h2⟩ := he.layout
  have hkey := he.keyEnd
  have hoff := he.off
  have hstop := he.stop
  unfold maxLen at hlen
  simp only [bsonIterBinary, he.iterType_eq, he.mem_eq, f1, f2, f3, if_true] at hs
  split at hs
  · next hsub =>
    have hin := h2 hsub
    cases hs
    rw [u32sub_of_le (by omega) (by omega)]
    exact ⟨by simp only; omega, by simp only; omega⟩
  · cases hs
    exact ⟨by simp only; omega, by simp only; omega⟩

/-- The slice of a nested document is the element's value, whatever its length. -/
theorem nested_slice (he : Element m it e o t) (ht : t = .document ∨ t = .array) :
    Nested e { off := e.d1, len := e.mem.le e.d1 4 } ↔ 5 ≤ m.le o 4 := by
  have hf : e.d1 = o := by
    have := he.fields
    rcases ht with rfl | rfl <;> exact this
  have hn := he.nested_len ht
  have hkey := he.keyEnd
  have hoff := he.off
  simp only [Nested, Inside, he.mem_eq, hf]
  omega

/-- The scope is always sound, the code exactly when its last octet is NUL. -/
theorem codewscope_slices (he : Element m it e o .codewscope) :
    (∀ s ∈ bsonIterCodewscope e, CString e s.1 ∧ Nested e s.2) ↔
      m (o + 7 + m.le (o + 4) 4) = 0 := by
  obtain ⟨f1, f2, f3, f4⟩ := he.fields
  obtain ⟨h1, h2, h3, h4, h5⟩ := he.layout
  have hkey := he.keyEnd
  have hoff := he.off
  have hs : bsonIterCodewscope e =
      some ({ off := o + 8, len := m.le (o + 4) 4 - 1 },
        { off := o + 8 + m.le (o + 4) 4, len := m.le (o + 8 + m.le (o + 4) 4) 4 }) := by
    simp [bsonIterCodewscope, he.iterType_eq, he.mem_eq, f2, f3, f4]
  have hlast : o + 8 + (m.le (o + 4) 4 - 1) = o + 7 + m.le (o + 4) 4 := by omega
  simp only [hs, Option.mem_some_iff, forall_eq', CString, Nested, Inside, he.mem_eq, hlast]
  constructor
  · rintro ⟨⟨-, hz⟩, -⟩
    exact hz
  · intro hz
    exact ⟨⟨⟨by omega, by omega⟩, hz⟩, ⟨by omega, by omega⟩, h4⟩

theorem shortNestedAhead_iff (hraw : it.raw = some m) (he : Element m it e o t) :
    ShortNestedAhead it ↔ (t = .document ∨ t = .array) ∧ m.le o 4 < 5 := by
  constructor
  · rintro ⟨m', o', hm, hk, ht, hs⟩
    cases hraw.symm.trans hm
    cases hk.unique he.keyEnds
    rw [he.typeByte] at ht
    refine ⟨?_, hs⟩
    revert ht
    cases t <;> decide
  · rintro ⟨ht, hs⟩
    refine ⟨m, o, hraw, he.keyEnds, ?_, hs⟩
    rcases ht with rfl | rfl
    · exact Or.inl he.typeByte
    · exact Or.inr he.typeByte

theorem openCodeAhead_iff (hraw : it.raw = some m) (he : Element m it e o t) :
    OpenCodeAhead it ↔ t = .codewscope ∧ m (o + 7 + m.le (o + 4) 4) ≠ 0 := by
  constructor
  · rintro ⟨m', o', hm, hk, ht, hs⟩
    cases hraw.symm.trans hm
    cases hk.unique he.keyEnds
    rw [he.typeByte] at ht
    refine ⟨?_, hs⟩
    revert ht
    cases t <;> decide
  · rintro ⟨rfl, hs⟩
    exact ⟨m, o, hraw, he.keyEnds, he.typeByte, hs⟩

end Element

/-- Every accessor of a yielded element is sound exactly when the element is
neither a nested document shorter than 5 octets nor an unterminated code. -/
theorem accessors_sound_iff (data : Mem) (length : Nat) (b : BsonRef)
    (hb : bsonInitStatic data length = some b) (it : BsonIter) (hit : Reached b it)
    (hok : (bsonIterNext it).1 = true) :
    AccessorsSound (bsonIterNext it).2 ↔ ¬ ShortNestedAhead it ∧ ¬ OpenCodeAhead it := by
  have hlen : b.len ≤ maxLen := by
    unfold bsonInitStatic at hb
    unfold maxLen
    split_ifs at hb
    cases hb
    simp only
    omega
  cases hraw : it.raw with
  | none => simp [bsonIterNext, bsonIterNextInternal, hraw] at hok
  | some m =>
    obtain ⟨h4, hl⟩ := hit.usable hlen m hraw
    obtain ⟨o, t, he⟩ := element_of_next hraw h4 hl hok
    rw [shortNestedAhead_iff hraw he, openCodeAhead_iff hraw he]
    have htype := he.iterType_eq
    simp only [bsonIterNext]
    generalize (bsonIterNextInternal it).iter = e at *
    have hstr := string_slice he hl
    have hnest := nested_slice he
    constructor
    · rintro ⟨-, -, -, hcws, -, -, -, hdoc, harr⟩
      refine ⟨?_, ?_⟩
      · rintro ⟨rfl | rfl, hs⟩
        · have h5 := (hnest (Or.inl rfl)).mp (hdoc _ (by simp [bsonIterDocument, htype]))
          omega
        · have h5 := (hnest (Or.inr rfl)).mp (harr _ (by simp [bsonIterArray, htype]))
          omega
      · rintro ⟨rfl, hs⟩
        exact hs ((codewscope_slices he).mp hcws)
    · rintro ⟨hshort, hopen⟩
      exact {
        utf8 := by
          intro s hs
          simp only [bsonIterUtf8, htype, Option.some_inj] at hs
          split at hs
          · next ht => cases hs; exact hstr (Or.inl ht)
          · cases hs
        code := by
          intro s hs
          simp only [bsonIterCode, htype, Option.some_inj] at hs
          split at hs
          · next ht => cases hs; exact hstr (Or.inr (Or.inl ht))
          · cases hs
        symbol := by
          intro s hs
          simp only [bsonIterSymbol, htype, Option.some_inj] at hs
          split at hs
          · next ht => cases hs; exact hstr (Or.inr (Or.inr ht))
          · cases hs
        codewscope := by
          by_cases ht : t = .codewscope
          · subst ht
            exact (codewscope_slices he).mpr (by
              by_contra hne
              exact hopen ⟨rfl, hne⟩)
          · simp [bsonIterCodewscope, htype, ht]
        regex := by
          by_cases ht : t = .regex
          · subst ht
            simpa [bsonIterRegex, htype] using regex_slices he
          · simp [bsonIterRegex, htype, ht]
        dbpointer := by
          by_cases ht : t = .dbpointer
          · subst ht
            exact dbpointer_slices he
          · simp [bsonIterDbpointer, htype, ht]
        binary := by
          by_cases ht : t = .binary
          · subst ht
            exact binary_slice he hl
          · simp [bsonIterBinary, htype, ht]
        document := by
          intro s hs
          simp only [bsonIterDocument, htype, Option.some_inj] at hs
          split at hs
          · next ht =>
            cases hs
            exact (hnest (Or.inl ht)).mpr (by
              by_contra hlt
              exact hshort ⟨Or.inl ht, by omega⟩)
          · cases hs
        array := by
          intro s hs
          simp only [bsonIterArray, htype, Option.some_inj] at hs
          split at hs
          · next ht =>
            cases hs
            exact (hnest (Or.inr ht)).mpr (by
              by_contra hlt
              exact hshort ⟨Or.inr ht, by omega⟩)
          · cases hs }

/-- `{"": <document of 4 octets>}` -/
def shortNested : Bytes := [11, 0, 0, 0, 3, 0, 4, 0, 0, 0, 0]

/-- `{"": Code ("x", {})}` with the code's NUL left out. -/
def openCode : Bytes := [21, 0, 0, 0, 15, 0, 14, 0, 0, 0, 1, 0, 0, 0, 120, 5, 0, 0, 0, 0, 0]

theorem shortNested_init :
    bsonInitStatic (Mem.ofBytes shortNested) 11 =
      some { data := Mem.ofBytes shortNested, len := 11 } := rfl

theorem accessors_sound_iff_shortNested :
    AccessorsSound (bsonIterNext (BsonIter.start (some (Mem.ofBytes shortNested)) 11)).2 ↔
      ¬ ShortNestedAhead (BsonIter.start (some (Mem.ofBytes shortNested)) 11) ∧
        ¬ OpenCodeAhead (BsonIter.start (some (Mem.ofBytes shortNested)) 11) :=
  accessors_sound_iff (Mem.ofBytes shortNested) 11 _ shortNested_init _ (Reached.init _ rfl)
    (by decide)

/-- Both buffers are accepted and both elements are yielded: one is handed out as
a document of 4 octets, the other as a C string of length 0 at the octet `x`. -/
theorem unsound_slices :
    ((bsonInitStatic (Mem.ofBytes shortNested) 11).isSome = true ∧
      (bsonIterNext (BsonIter.start (some (Mem.ofBytes shortNested)) 11)).1 = true ∧
      ¬ AccessorsSound (bsonIterNext (BsonIter.start (some (Mem.ofBytes shortNested)) 11)).2) ∧
    (bsonInitStatic (Mem.ofBytes openCode) 21).isSome = true ∧
      (bsonIterNext (BsonIter.start (some (Mem.ofBytes openCode)) 21)).1 = true ∧
      ¬ AccessorsSound (bsonIterNext (BsonIter.start (some (Mem.ofBytes openCode)) 21)).2 := by
  refine ⟨⟨by decide, by decide, fun h => ?_⟩, by decide, by decide, fun h => ?_⟩
  · have hdoc := h.document { off := 6, len := 4 } (by decide)
    exact absurd hdoc.2 (by decide)
  · have hcode := (h.codewscope ({ off := 14, len := 0 }, { off := 15, len := 5 }) (by decide)).1
    exact absurd hcode.2 (by decide)

end LibBson.Guarantees
