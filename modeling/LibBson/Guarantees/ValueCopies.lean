import LibBson.Guarantees.AccessorSlices
import LibBson.Source.ValuePath

/-!
# Copied values against the iterator they come from

The two paths agree on every element but three: an empty payload, whose copy is a NULL
pointer that an assertion refuses; an empty length word of a nested document, likewise;
and a code with scope whose text has no NUL where its length says, since
`bson_append_iter` measures the text and `bson_value_copy` trusts the length.
Source: bson-value.c:24-139, bson-iter.c:2332-2429, bson.c:1270-1424, 1807-1931.
-/

set_option autoImplicit false

namespace LibBson.Guarantees
open LibBson.Library LibBson.Source

/-- On every open document and under every key both paths end alike, and no assertion
fails. Without a key `bson_append_iter` takes that of the element. -/
structure PathsAgree (e : BsonIter) : Prop where
  same : ∀ (fresh : Nat → Mem) (block : Mem) (c : Chain) (key : Bytes) (keyLength : Int), c.Open →
    appendValueCopy fresh block c key keyLength e =
      bsonAppendCall fresh c (.iter (some key) keyLength e)
  ownKey : ∀ (fresh : Nat → Mem) (block : Mem) (c : Chain) (keyLength : Int), c.Open →
    appendValueCopy fresh block c (e.pointer e.key) (-1) e =
      bsonAppendCall fresh c (.iter none keyLength e)
  asserts : ∀ (fresh : Nat → Mem) (block : Mem) (c : Chain) (key : Bytes) (keyLength : Int), c.Open →
    appendValueCopy fresh block c key keyLength e ≠ .aborted ∧
      bsonAppendCall fresh c (.iter (some key) keyLength e) ≠ .aborted

/-- The payload is not empty, and a code with a sound scope has a NUL where it ends
or before. -/
structure Copyable (e : BsonIter) : Prop where
  binary : ∀ s ∈ bsonIterBinary e, s.2.len ≠ 0
  document : ∀ s ∈ bsonIterDocument e, s.len ≠ 0
  array : ∀ s ∈ bsonIterArray e, s.len ≠ 0
  codewscope : ∀ s ∈ bsonIterCodewscope e,
    bsonInitStatic (e.mem.shift s.2.off) s.2.len ≠ none → ∃ k ≤ s.1.len, e.mem (s.1.off + k) = 0

/-! ## Values that hand over the same octets -/

theorem copied_copyText (s : Bytes) (n : Nat) : copied (copyText s n) n = copied s n := by
  have hlen := copied_length s n
  have h := List.takeD_left (copied s n) [0] (0 : UInt8)
  rw [hlen] at h
  exact h

/-- A NUL within the octets copied ends the copy where it ends the original. -/
theorem cText_copyText {s : Bytes} {n : Nat} (h : strlen s ≤ n) :
    cText (copyText s n) = cText s := by
  induction s generalizing n with
  | nil =>
    cases n with
    | zero => rfl
    | succ n => rfl
  | cons b s ih =>
    by_cases hb : b = 0
    · subst hb
      cases n with
      | zero => rfl
      | succ n => rfl
    · have hc : cText (b :: s) = b :: cText s := by simp [cText, hb]
      have hl : strlen (b :: s) = strlen s + 1 := by simp [strlen, hc]
      cases n with
      | zero => omega
      | succ n =>
        have hcopy : copyText (b :: s) (n + 1) = b :: copyText s n := rfl
        rw [hcopy, hc, ← ih (n := n) (by omega)]
        simp [cText, hb]

theorem cText_strdup (s : Bytes) : cText (bsonStrdup s) = cText s := by
  have h := cText_copyText (Nat.le_refl (strlen s))
  rw [copyText, copied_strlen] at h
  rw [bsonStrdup, copied_strlen_succ, h]

/-- C strings of one text are handed over alike. -/
theorem cString_same {s s' : Bytes} (h : cText s = cText s') (hlt : strlen s' < 2147483648) :
    intStrlen s = intStrlen s' ∧
      copied s (ofInt32 (intStrlen s' + 1)) = copied s' (ofInt32 (intStrlen s' + 1)) := by
  have hlen : strlen s = strlen s' := congrArg List.length h
  obtain ⟨hn', hcopy'⟩ := cText_spec s' hlt
  have hcopy := copied_strlen_succ s
  rw [hlen, h] at hcopy
  refine ⟨by rw [intStrlen, intStrlen, hlen], ?_⟩
  rw [hn', hcopy']
  exact hcopy

theorem code_same {s s' : Bytes} (h : cText s = cText s') (hlt : strlen s' < 2147483648) :
    Field.Same (.code s) (.code s') := by
  intro key keyLength
  obtain ⟨hlen, hcopy⟩ := cString_same h hlt
  apply keyedAppend_same
  · rw [hlen]
  · simp only [List.map_cons, List.map_nil, hcopy, hlen]

theorem dbpointer_same {s s' oid oid' : Bytes} (h : cText s = cText s')
    (hlt : strlen s' < 2147483648) (hoid : copied oid 12 = copied oid' 12) :
    Field.Same (.dbpointer s oid) (.dbpointer s' oid') := by
  intro key keyLength
  obtain ⟨hlen, hcopy⟩ := cString_same h hlt
  apply keyedAppend_same
  · rw [hlen]
  · simp only [List.map_cons, List.map_nil, hcopy, hlen, hoid]

theorem codeWithScope_same {s s' : Bytes} {b b' : BsonRef} (h : cText s = cText s')
    (hlt : strlen s' < 2147483648) (hb : b.pair = b'.pair) :
    Field.Same (.codeWithScope s (some b)) (.codeWithScope s' (some b')) := by
  intro key keyLength
  obtain ⟨hlen, hcopy⟩ := cString_same h hlt
  have hblen : b.len = b'.len := congrArg Prod.fst hb
  apply keyedAppend_same
  · rw [hlen, hblen]
  · simp only [List.map_cons, List.map_nil, hcopy, hlen, hblen, hb]

theorem regex_same {r r' o o' : Bytes} (hr : cText r = cText r') (ho : cText o = cText o')
    (hlt : strlen r' < 2147483648) :
    Field.Same (.regex (some r) (some o)) (.regex (some r') (some o')) := by
  intro key keyLength
  obtain ⟨hlen, hcopy⟩ := cString_same hr hlt
  have hsorted : bsonAppendRegexOptionsSorted o = bsonAppendRegexOptionsSorted o' := by
    unfold bsonAppendRegexOptionsSorted
    rw [ho]
  apply keyedAppend_same
  · simp only [Option.getD_some, hlen, hsorted]
  · simp only [Option.getD_some, List.map_cons, List.map_nil, hcopy, hlen, hsorted]

theorem text_same (type : BsonType) {s s' : Bytes} {n : Nat} (hn : n < 2147483648)
    (h : copied s n = copied s' n) (key : Bytes) (keyLength : Int) :
    SameRequest (appendText type key keyLength (some s) (i32 n))
      (appendText type key keyLength (some s') (i32 n)) := by
  have hi := i32_of_lt hn
  have hpos : ¬ (n : Int) < 0 := by omega
  have hnat : ofInt32 (n : Int) = n := by rw [ofInt32_natCast, u32_of_lt (by omega)]
  simp only [appendText, hi, if_neg hpos]
  apply keyedAppend_same
  · rfl
  · simp only [List.map_cons, List.map_nil, hnat, h]

theorem binary_same {s s' : Bytes} {n : Nat} (subtype : UInt8) (h : copied s n = copied s' n) :
    Field.Same (.binary subtype s n) (.binary subtype s' n) := by
  intro key keyLength
  simp only [Field.append, bsonAppendBinary]
  split
  · apply keyedAppend_same
    · rfl
    · simp only [List.map_cons, List.map_nil, h]
  · apply keyedAppend_same
    · rfl
    · simp only [List.map_cons, List.map_nil, h]

theorem oid_same {s s' : Bytes} (h : copied s 12 = copied s' 12) : Field.Same (.oid s) (.oid s') := by
  intro key keyLength
  apply keyedAppend_same
  · rfl
  · simp only [List.map_cons, List.map_nil, h]

/-- `bson_init_static` reads the octets of the document only. -/
theorem init_static_copy (block data : Mem) (len : Nat) :
    Option.Rel (fun b b' : BsonRef => b.pair = b'.pair)
      (bsonInitStatic (data.copyPrefix block len) len) (bsonInitStatic data len) := by
  by_cases hlen : len < 5 ∨ len > 2147483647
  · simp only [bsonInitStatic, if_pos hlen]
    exact .none
  · have hword : (data.copyPrefix block len).le 0 4 = data.le 0 4 :=
      Mem.le_congr fun i hi => Mem.copyPrefix_of_lt data block len _ (by omega)
    have hlast := Mem.copyPrefix_of_lt data block len (len - 1) (by omega)
    simp only [bsonInitStatic, if_neg hlen, hword, hlast]
    split
    · exact .none
    · split
      · exact .none
      · refine .some ?_
        simp only [BsonRef.pair, Mem.slice, Prod.mk.injEq, true_and]
        apply List.map_congr_left
        intro i hi
        exact Mem.copyPrefix_of_lt data block len _ (by simpa using hi)

/-! ## C strings in the buffer -/

theorem strlen_slice_le {m : Mem} {o n k : Nat} (hk : k < n) (h0 : m (o + k) = 0) :
    strlen (m.slice o n) ≤ k := by
  induction k generalizing o n with
  | zero =>
    obtain ⟨n, rfl⟩ := Nat.exists_eq_add_of_lt hk
    rw [Nat.zero_add, Mem.slice_succ]
    simp only [Nat.add_zero] at h0
    simp [strlen, cText, h0]
  | succ k ih =>
    obtain ⟨n, rfl⟩ : ∃ n', n = n' + 1 := ⟨n - 1, by omega⟩
    rw [Mem.slice_succ]
    by_cases hb : m o = 0
    · simp [strlen, cText, hb]
    · have hrest := ih (o := o + 1) (n := n) (by omega) (by rw [← h0]; congr 1; omega)
      simpa [strlen, cText, hb] using hrest

theorem lt_strlen_slice {m : Mem} {o n k : Nat} (hk : k < n) (h : ∀ i ≤ k, m (o + i) ≠ 0) :
    k < strlen (m.slice o n) := by
  induction k generalizing o n with
  | zero =>
    obtain ⟨n, rfl⟩ : ∃ n', n = n' + 1 := ⟨n - 1, by omega⟩
    have hb := h 0 (Nat.le_refl 0)
    rw [Nat.add_zero] at hb
    rw [Mem.slice_succ]
    simp [strlen, cText, hb]
  | succ k ih =>
    obtain ⟨n, rfl⟩ : ∃ n', n = n' + 1 := ⟨n - 1, by omega⟩
    have hb := h 0 (Nat.zero_le _)
    rw [Nat.add_zero] at hb
    have hrest := ih (o := o + 1) (n := n) (by omega) fun i hi => by
      rw [Nat.add_assoc, Nat.add_comm 1 i]
      exact h (i + 1) (by omega)
    rw [Mem.slice_succ]
    simpa [strlen, cText, hb] using hrest

section Element

variable {m : Mem} {it e : BsonIter} {o : Nat} {t : BsonType}

theorem pointer_small (he : Element m it e o t) (hl : it.len ≤ maxLen) {p : Nat} (hp : 0 < p) :
    strlen (e.pointer p) < 2147483648 := by
  have hlen := he.len
  have hle : strlen (e.pointer p) ≤ (e.pointer p).length := (List.takeWhile_prefix _).length_le
  unfold maxLen at hl
  rw [BsonIter.pointer, Mem.slice_length] at hle
  rw [BsonIter.pointer]
  omega

/-- The text of a string that ends in a NUL is within its length. -/
theorem pointer_ends (he : Element m it e o t) {p n : Nat} (hstop : p + n < it.len)
    (h0 : m (p + n) = 0) : strlen (e.pointer p) ≤ n := by
  rw [BsonIter.pointer, he.mem_eq, he.len]
  exact strlen_slice_le (by omega) h0

theorem utf8_len_lt (e : BsonIter) : bsonIterUtf8LenUnsafe e < 2147483648 := by
  unfold bsonIterUtf8LenUnsafe i32
  split <;> omega

/-- The two paths hand over the same octets, or neither appends. -/
def SamePaths (block : Mem) (e : BsonIter) : Prop :=
  ∃ v, (bsonIterValue e).bind (bsonValueCopy block) = some v ∧ v.dataNull = false ∧
    Option.Rel Field.Same v.value.field (iterField e)

/-- The copy of a value that owns no memory is the value. -/
theorem samePaths_plain {v : BsonValue} {block : Mem} (hv : bsonIterValue e = some ⟨v, 0⟩)
    (hf : v.field = iterField e) (hcopy : bsonValueCopy block ⟨v, 0⟩ = some ⟨v, false⟩) :
    SamePaths block e := by
  refine ⟨⟨v, false⟩, by rw [hv]; exact hcopy, rfl, ?_⟩
  rw [hf]
  cases iterField e with
  | none => exact .none
  | some f => exact .some (Field.Same.refl f)

theorem samePaths_of {v : IterValue} {g : Field} {block : Mem} (hv : bsonIterValue e = some v)
    (hg : iterField e = some g)
    (hcopy : ∃ c f, bsonValueCopy block v = some c ∧ c.dataNull = false ∧
      c.value.field = some f ∧ f.Same g) : SamePaths block e := by
  obtain ⟨c, f, hc, hnull, hf, hsame⟩ := hcopy
  refine ⟨c, by rw [hv]; exact hc, hnull, ?_⟩
  rw [hf, hg]
  exact .some hsame

/-- A nested document is copied as a whole, whether `bson_init_static` takes it or not. -/
theorem samePaths_nested {v : IterValue} {block data : Mem} {len : Nat} {f g : BsonRef → Field}
    {w : ValueCopy} (hv : bsonIterValue e = some v) (hcopy : bsonValueCopy block v = some w)
    (hnull : w.dataNull = false)
    (hw : w.value.field = (bsonInitStatic (data.copyPrefix block len) len).map f)
    (hg : iterField e = (bsonInitStatic data len).map g)
    (hsame : bsonInitStatic data len ≠ none →
      ∀ b b' : BsonRef, b.pair = b'.pair → (f b).Same (g b')) : SamePaths block e := by
  refine ⟨w, by rw [hv]; exact hcopy, hnull, ?_⟩
  rw [hw, hg]
  have hinit := init_static_copy block data len
  generalize bsonInitStatic (data.copyPrefix block len) len = x at hinit ⊢
  generalize bsonInitStatic data len = y at hinit hsame ⊢
  cases hinit with
  | none => exact .none
  | some hb => exact .some (hsame (Option.some_ne_none _) _ _ hb)

theorem document_same (b b' : BsonRef) (h : b.pair = b'.pair) :
    Field.Same (.document b) (.document b') := by
  intro key keyLength
  have hlen : b.len = b'.len := congrArg Prod.fst h
  apply keyedAppend_same
  · rw [hlen]
  · rw [h]

theorem array_same (b b' : BsonRef) (h : b.pair = b'.pair) :
    Field.Same (.array b) (.array b') := by
  intro key keyLength
  have hlen : b.len = b'.len := congrArg Prod.fst h
  apply keyedAppend_same
  · rw [hlen]
  · rw [h]

/-- What the value path hands to `_bson_append` is what the iterator path does. -/
theorem samePaths_of_copyable (he : Element m it e o t) (hl : it.len ≤ maxLen) (hc : Copyable e)
    (block : Mem) : SamePaths block e := by
  have htype := he.iterType_eq
  have hkey := he.keyEnd
  have hlen := he.len
  have hstop := he.stop
  have hlay := he.layout
  have hf := he.fields
  have hsmall := utf8_len_lt e
  cases t
  case utf8 =>
    have hv : bsonIterValue e =
        some ⟨.utf8 (some (e.pointer e.d2)) (bsonIterUtf8LenUnsafe e), 0⟩ := by
      simp [bsonIterValue, htype, bsonIterUtf8]
    have hg : iterField e =
        some (.utf8 (some (e.pointer e.d2)) (i32 (bsonIterUtf8LenUnsafe e))) := by
      simp [iterField, htype, bsonIterUtf8]
    exact samePaths_of hv hg
      ⟨_, _, rfl, rfl, rfl, text_same .utf8 hsmall (copied_copyText _ _)⟩
  case symbol =>
    have hv : bsonIterValue e =
        some ⟨.symbol (some (e.pointer e.d2)) (bsonIterUtf8LenUnsafe e), 0⟩ := by
      simp [bsonIterValue, htype, bsonIterSymbol]
    have hg : iterField e =
        some (.symbol (some (e.pointer e.d2)) (i32 (bsonIterUtf8LenUnsafe e))) := by
      simp [iterField, htype, bsonIterSymbol]
    exact samePaths_of hv hg
      ⟨_, _, rfl, rfl, rfl, text_same .symbol hsmall (copied_copyText _ _)⟩
  case code =>
    obtain ⟨h1, h2, h3⟩ := hlay
    obtain ⟨f1, f2⟩ := hf
    have hends : strlen (e.pointer e.d2) ≤ bsonIterUtf8LenUnsafe e := by
      rw [f2, utf8_len he f1 hl h1 (by omega)]
      apply pointer_ends he
      · omega
      · rw [← h3]
        congr 1
        omega
    have hv : bsonIterValue e = some ⟨.code (e.pointer e.d2), bsonIterUtf8LenUnsafe e⟩ := by
      simp [bsonIterValue, htype, bsonIterCode]
    have hg : iterField e = some (.code (e.pointer e.d2)) := by
      simp [iterField, htype, bsonIterCode]
    exact samePaths_of hv hg
      ⟨_, _, rfl, rfl, rfl, code_same (cText_copyText hends) (pointer_small he hl (by omega))⟩
  case dbpointer =>
    obtain ⟨h1, h2, h3⟩ := hlay
    obtain ⟨f1, f2, f3⟩ := hf
    have hpos : 0 < e.mem.le e.d1 4 := by
      rw [he.mem_eq, f1]
      exact h1
    have hends : strlen (e.pointer e.d2) ≤ e.mem.le e.d1 4 - 1 := by
      rw [he.mem_eq, f1, f2]
      apply pointer_ends he
      · omega
      · rw [← h3]
        congr 1
        omega
    have hv : bsonIterValue e =
        some ⟨.dbpointer (e.pointer e.d2) (copied (e.pointer e.d3) 12), e.mem.le e.d1 4 - 1⟩ := by
      simp [bsonIterValue, htype, bsonIterDbpointer, hpos]
    have hg : iterField e = some (.dbpointer (e.pointer e.d2) (e.pointer e.d3)) := by
      simp [iterField, htype, bsonIterDbpointer]
    have hoid : copied (copied (copied (e.pointer e.d3) 12) 12) 12 = copied (e.pointer e.d3) 12 := by
      rw [copied_of_length (copied_length _ 12), copied_of_length (copied_length _ 12)]
    exact samePaths_of hv hg ⟨_, _, rfl, rfl, rfl,
      dbpointer_same (cText_copyText hends) (pointer_small he hl (by omega)) hoid⟩
  case regex =>
    have hd : e.d1 = o := hf.1
    have hv : bsonIterValue e =
        some ⟨.regex (some (e.pointer e.d1)) (some (e.pointer e.d2)), 0⟩ := by
      simp [bsonIterValue, htype, bsonIterRegex]
    have hg : iterField e = some (.regex (some (e.pointer e.d1)) (some (e.pointer e.d2))) := by
      simp [iterField, htype, bsonIterRegex]
    exact samePaths_of hv hg ⟨_, _, rfl, rfl, rfl,
      regex_same (cText_strdup _) (cText_strdup _) (pointer_small he hl (by omega))⟩
  case oid =>
    have hv : bsonIterValue e = some ⟨.oid (copied (e.pointer e.d1) 12), 0⟩ := by
      simp [bsonIterValue, htype, bsonIterOid]
    have hg : iterField e = some (.oid (e.pointer e.d1)) := by
      simp [iterField, htype, bsonIterOid]
    refine samePaths_of hv hg ⟨_, _, rfl, rfl, rfl, oid_same ?_⟩
    rw [copied_of_length (copied_length _ 12), copied_of_length (copied_length _ 12)]
  case binary =>
    obtain ⟨subtype, s, hs⟩ : ∃ subtype s, bsonIterBinary e = some (subtype, s) := by
      simp only [bsonIterBinary, htype, if_true]
      split
      · exact ⟨_, _, rfl⟩
      · exact ⟨_, _, rfl⟩
    have hne : s.len ≠ 0 := hc.binary _ hs
    have hv : bsonIterValue e = some ⟨.binary (e.pointer s.off) s.len subtype, 0⟩ := by
      simp [bsonIterValue, htype, hs]
    have hg : iterField e = some (.binary subtype (e.pointer s.off) s.len) := by
      simp [iterField, htype, hs]
    refine samePaths_of hv hg ⟨_, _, rfl, beq_false_of_ne hne, rfl, binary_same subtype ?_⟩
    exact copied_of_length (copied_length _ _)
  case document =>
    have hs : bsonIterDocument e = some ⟨e.d1, e.mem.le e.d1 4⟩ := by
      simp [bsonIterDocument, htype]
    have hv : bsonIterValue e =
        some ⟨.document (e.mem.shift e.d1) (e.mem.le e.d1 4), 0⟩ := by
      simp [bsonIterValue, htype, hs]
    have hg : iterField e =
        (bsonInitStatic (e.mem.shift e.d1) (e.mem.le e.d1 4)).map Field.document := by
      simp [iterField, htype, hs]
    exact samePaths_nested hv rfl (beq_false_of_ne (hc.document _ hs)) rfl hg
      fun _ => document_same
  case array =>
    have hs : bsonIterArray e = some ⟨e.d1, e.mem.le e.d1 4⟩ := by
      simp [bsonIterArray, htype]
    have hv : bsonIterValue e =
        some ⟨.array (e.mem.shift e.d1) (e.mem.le e.d1 4), 0⟩ := by
      simp [bsonIterValue, htype, hs]
    have hg : iterField e =
        (bsonInitStatic (e.mem.shift e.d1) (e.mem.le e.d1 4)).map Field.array := by
      simp [iterField, htype, hs]
    exact samePaths_nested hv rfl (beq_false_of_ne (hc.array _ hs)) rfl hg
      fun _ => array_same
  case codewscope =>
    obtain ⟨h1, h2, h3, h4, h5⟩ := hlay
    obtain ⟨f1, f2, f3, f4⟩ := hf
    have hs : bsonIterCodewscope e =
        some (⟨e.d3, e.mem.le e.d2 4 - 1⟩, ⟨e.d4, e.mem.le e.d4 4⟩) := by
      simp [bsonIterCodewscope, htype]
    have hlong : e.mem.le e.d4 4 ≠ 0 := by
      rw [he.mem_eq, f4]
      omega
    have hv : bsonIterValue e = some ⟨.codewscope (e.pointer e.d3) (e.mem.shift e.d4)
        (e.mem.le e.d4 4), e.mem.le e.d2 4 - 1⟩ := by
      simp [bsonIterValue, htype, hs]
    have hg : iterField e = (bsonInitStatic (e.mem.shift e.d4) (e.mem.le e.d4 4)).map
        fun b => Field.codeWithScope (e.pointer e.d3) (some b) := by
      simp [iterField, htype, hs]
    refine samePaths_nested hv rfl (beq_false_of_ne hlong) rfl hg fun hsound b b' hb => ?_
    obtain ⟨k, hk, h0⟩ := hc.codewscope _ hs hsound
    have hends : strlen (e.pointer e.d3) ≤ e.mem.le e.d2 4 - 1 := by
      simp only [he.mem_eq, f2, f3] at hk h0 ⊢
      have hle : strlen (e.pointer (o + 8)) ≤ k := pointer_ends he (by omega) h0
      omega
    exact codeWithScope_same (cText_copyText hends) (pointer_small he hl (by omega)) hb
  case decimal128 =>
    have hs : bsonIterDecimal128 e = some (e.mem.le e.d1 8, e.mem.le (e.d1 + 8) 8) := by
      simp [bsonIterDecimal128, htype]
    have hv : bsonIterValue e =
        some ⟨.decimal128 (e.mem.le e.d1 8) (e.mem.le (e.d1 + 8) 8), 0⟩ := by
      simp [bsonIterValue, htype, hs]
    exact samePaths_plain hv (by simp [iterField, htype, hs, BsonValue.field]) rfl
  case timestamp =>
    have hv : bsonIterValue e =
        some ⟨.timestamp (bsonIterTimestamp e).1 (bsonIterTimestamp e).2, 0⟩ := by
      simp only [bsonIterValue, htype]
    exact samePaths_plain hv (by simp only [iterField, htype, BsonValue.field]) rfl
  case double =>
    have hv : bsonIterValue e = some ⟨.double (bsonIterDouble e), 0⟩ := by
      simp only [bsonIterValue, htype]
    exact samePaths_plain hv (by simp only [iterField, htype, BsonValue.field]) rfl
  case bool =>
    have hv : bsonIterValue e = some ⟨.bool (bsonIterBool e), 0⟩ := by
      simp only [bsonIterValue, htype]
    exact samePaths_plain hv (by simp only [iterField, htype, BsonValue.field]) rfl
  case dateTime =>
    have hv : bsonIterValue e = some ⟨.dateTime (bsonIterDateTime e), 0⟩ := by
      simp only [bsonIterValue, htype]
    exact samePaths_plain hv (by simp only [iterField, htype, BsonValue.field]) rfl
  case int32 =>
    have hv : bsonIterValue e = some ⟨.int32 (bsonIterInt32 e), 0⟩ := by
      simp only [bsonIterValue, htype]
    exact samePaths_plain hv (by simp only [iterField, htype, BsonValue.field]) rfl
  case int64 =>
    have hv : bsonIterValue e = some ⟨.int64 (bsonIterInt64 e), 0⟩ := by
      simp only [bsonIterValue, htype]
    exact samePaths_plain hv (by simp only [iterField, htype, BsonValue.field]) rfl
  case null | undefined | maxkey | minkey =>
    refine ⟨⟨_, false⟩, by simp only [bsonIterValue, htype]; rfl, rfl, ?_⟩
    simp only [iterField, htype, BsonValue.field]
    exact .some (Field.Same.refl _)
  case eod => exact hlay.elim

end Element

theorem paths_agree {e : BsonIter} (h : ∀ block, SamePaths block e) : PathsAgree e := by
  have hsame : ∀ (fresh : Nat → Mem) (block : Mem) (c : Chain) (key : Bytes) (keyLength : Int),
      appendValueCopy fresh block c key keyLength e =
        bsonAppendCall fresh c (.iter (some key) keyLength e) := by
    intro fresh block c key keyLength
    obtain ⟨v, hv, hnull, hrel⟩ := h block
    simp only [appendValueCopy, hv, hnull]
    exact call_same hrel
  refine ⟨fun fresh block c key keyLength _ => hsame fresh block c key keyLength, ?_, ?_⟩
  · intro fresh block c keyLength _
    rw [hsame fresh block c (e.pointer e.key) (-1)]
    rfl
  · intro fresh block c key keyLength _
    rw [hsame fresh block c key keyLength]
    exact ⟨bsonAppendCall_ne_aborted _ _ _, bsonAppendCall_ne_aborted _ _ _⟩

/-! ## What separates the paths -/

/-- An empty document in a caller's buffer of 4 GiB. -/
def emptyInBuffer : Chain :=
  .alloc (Mem.ofBytes [5, 0, 0, 0, 0]) 4294967296 false { len := 5, depth := 0, offset := 0 } []

theorem emptyInBuffer_open : emptyInBuffer.Open where
  fits := ⟨by decide, by decide, by decide⟩
  least := fun _ h => (nomatch h)
  lengths := by decide

/-- A copy whose data is NULL fails an assertion. -/
theorem copy_not_null {e : BsonIter} {v : IterValue} {w : ValueCopy} (h : PathsAgree e)
    (hv : bsonIterValue e = some v) (hw : bsonValueCopy (fun _ => 0) v = some w) :
    w.dataNull = false := by
  have hok := (h.asserts (fun _ _ => 0) (fun _ => 0) emptyInBuffer [] 0 emptyInBuffer_open).1
  simp only [appendValueCopy, hv, Option.bind_some, hw] at hok
  cases hnull : w.dataNull with
  | false => rfl
  | true => simp [hnull] at hok

/-- Requests that end alike where the first is accepted append as many octets. -/
theorem sizes_of_same {fresh : Nat → Mem} {c : Chain} {a b : AppendArgs} (hc : c.Open)
    (ha : a.nBytes < 4294967296) (hb : b.nBytes < 4294967296) (hroom : ¬ c.Refuses a.nBytes)
    (h : bsonAppendInternal fresh c a = bsonAppendInternal fresh c b) :
    u32 (c.bson.len + a.size) = u32 (c.bson.len + b.size) := by
  obtain ⟨c1, h1, hbson1, -, -⟩ := bsonAppendInternal_accepted fresh hc.fits hc.len ha hroom
  by_cases hfull : c.Refuses b.nBytes
  · rw [h1, bsonAppendInternal_refused fresh hc.fits hc.len hb hfull] at h
    cases h
  · obtain ⟨c2, h2, hbson2, -, -⟩ := bsonAppendInternal_accepted fresh hc.fits hc.len hb hfull
    rw [h1, h2] at h
    cases h
    rw [hbson1] at hbson2
    exact congrArg Impl.len hbson2

theorem strlen_copyText_le (s : Bytes) (n : Nat) : strlen (copyText s n) ≤ n := by
  have hend : ∀ as : Bytes, strlen (as ++ [0]) ≤ as.length := by
    intro as
    induction as with
    | nil => exact Nat.le_refl 0
    | cons a as ih =>
      by_cases ha : a = 0
      · simp [strlen, cText, ha]
      · simpa [strlen, cText, ha] using ih
  have h := hend (copied s n)
  rw [copied_length] at h
  exact h

theorem init_static_len {data : Mem} {len : Nat} {b : BsonRef} (h : bsonInitStatic data len = some b) :
    b.len = len := by
  unfold bsonInitStatic at h
  split_ifs at h
  cases h
  rfl

/-- A text that goes on behind the length of the code is longer on the iterator's path. -/
theorem scope_has_nul {m : Mem} {it e : BsonIter} {o : Nat} (he : Element m it e o .codewscope)
    (h4 : 4 ≤ it.nextOff) (hl : it.len ≤ 2147483647) (h : PathsAgree e) :
    ∀ s ∈ bsonIterCodewscope e, bsonInitStatic (e.mem.shift s.2.off) s.2.len ≠ none →
      ∃ k ≤ s.1.len, e.mem (s.1.off + k) = 0 := by
  have htype := he.iterType_eq
  have hkey := he.keyEnd
  have hlen := he.len
  have hstop := he.stop
  obtain ⟨h1, h2, h3, h5, h6⟩ := he.layout
  obtain ⟨f1, f2, f3, f4⟩ := he.fields
  have hmem := he.mem_eq
  intro s hs hsound
  by_contra hnul
  simp only [not_exists, not_and] at hnul
  have hseq : s = (⟨o + 8, m.le (o + 4) 4 - 1⟩, ⟨e.d4, m.le e.d4 4⟩) := by
    simpa [bsonIterCodewscope, htype, f2, f3, hmem] using hs.symm
  subst hseq
  rw [hmem] at hsound hnul
  simp only at hsound hnul
  obtain ⟨b, hb⟩ := Option.ne_none_iff_exists'.mp hsound
  have hcopy := init_static_copy (fun _ => 0) (m.shift e.d4) (m.le e.d4 4)
  rw [hb] at hcopy
  obtain ⟨b', hb', hpair⟩ : ∃ b', bsonInitStatic ((m.shift e.d4).copyPrefix (fun _ => 0)
      (m.le e.d4 4)) (m.le e.d4 4) = some b' ∧ b'.pair = b.pair := by
    generalize bsonInitStatic ((m.shift e.d4).copyPrefix (fun _ => 0) (m.le e.d4 4))
      (m.le e.d4 4) = x at hcopy
    cases hcopy with
    | some hp => exact ⟨_, rfl, hp⟩
  have hblen : b'.len = b.len := congrArg Prod.fst hpair
  have hscope : b.len = m.le e.d4 4 := init_static_len hb
  rw [f4] at hscope
  -- the two requests at an empty key
  have hsame := h.same (fun _ _ => 0) (fun _ => 0) emptyInBuffer [] 0 emptyInBuffer_open
  have hlong : (m.le e.d4 4 == 0) = false := beq_false_of_ne (by rw [f4]; omega)
  simp only [appendValueCopy, bsonIterValue, htype, bsonIterCodewscope, if_true, Option.map_some,
    Option.bind_some, bsonValueCopy, hmem, f2, f3, hlong, bsonAppendCall, AppendCall.request,
    AppendCall.keyed, BsonValue.field, hb', iterField, hb, Bool.false_eq_true, if_false] at hsame
  have hval := strlen_copyText_le (e.pointer (o + 8)) (m.le (o + 4) 4 - 1)
  have hiter : m.le (o + 4) 4 - 1 < strlen (e.pointer (o + 8)) := by
    rw [BsonIter.pointer, hmem, hlen]
    exact lt_strlen_slice (by omega) hnul
  have hsmall := pointer_small he (by unfold maxLen; omega) (p := o + 8) (by omega)
  have hnb := append_nBytes [] 0 (.codeWithScope (copyText (e.pointer (o + 8))
    (m.le (o + 4) 4 - 1)) (some b')) rfl
  have hnb' := append_nBytes [] 0 (.codeWithScope (e.pointer (o + 8)) (some b)) rfl
  have hsz := append_size [] 0 (.codeWithScope (copyText (e.pointer (o + 8))
    (m.le (o + 4) 4 - 1)) (some b'))
  have hsz' := append_size [] 0 (.codeWithScope (e.pointer (o + 8)) (some b))
  have hkeySize : keySize [] 0 = 0 := rfl
  simp only [elementSize, valueSize, cStringSize, hkeySize, u32] at hnb hnb' hsz hsz'
  have hroom : ¬ emptyInBuffer.Refuses ((Field.codeWithScope (copyText (e.pointer (o + 8))
      (m.le (o + 4) 4 - 1)) (some b')).append [] 0).nBytes := by
    simp only [Chain.Refuses, Chain.Full, emptyInBuffer, Chain.capacity, Chain.bson, bsonMaxSize]
    omega
  have hsizes := sizes_of_same emptyInBuffer_open (by omega) (by omega) hroom hsame
  simp only [u32, emptyInBuffer, Chain.bson] at hsizes
  omega

theorem copyable_of_agree {m : Mem} {it e : BsonIter} {o : Nat} {t : BsonType}
    (he : Element m it e o t) (h4 : 4 ≤ it.nextOff) (hl : it.len ≤ 2147483647)
    (h : PathsAgree e) : Copyable e where
  binary := by
    intro s hs hzero
    have ht : iterType e = some .binary := by
      by_contra ht
      simp [bsonIterBinary, ht] at hs
    have hv : bsonIterValue e = some ⟨.binary (e.pointer s.2.off) s.2.len s.1, 0⟩ := by
      simp only [bsonIterValue, ht, Option.mem_def.mp hs, Option.map_some]
    have hnull : (s.2.len == 0) = false := copy_not_null h hv rfl
    exact ne_of_beq_false hnull hzero
  document := by
    intro s hs hzero
    have ht : iterType e = some .document := by
      by_contra ht
      simp [bsonIterDocument, ht] at hs
    have hv : bsonIterValue e = some ⟨.document (e.mem.shift s.off) s.len, 0⟩ := by
      simp only [bsonIterValue, ht, Option.mem_def.mp hs, Option.map_some]
    have hnull : (s.len == 0) = false := copy_not_null h hv rfl
    exact ne_of_beq_false hnull hzero
  array := by
    intro s hs hzero
    have ht : iterType e = some .array := by
      by_contra ht
      simp [bsonIterArray, ht] at hs
    have hv : bsonIterValue e = some ⟨.array (e.mem.shift s.off) s.len, 0⟩ := by
      simp only [bsonIterValue, ht, Option.mem_def.mp hs, Option.map_some]
    have hnull : (s.len == 0) = false := copy_not_null h hv rfl
    exact ne_of_beq_false hnull hzero
  codewscope := by
    intro s hs
    have ht : iterType e = some .codewscope := by
      by_contra ht
      simp [bsonIterCodewscope, ht] at hs
    have hty : t = .codewscope := Option.some.inj (he.iterType_eq.symm.trans ht)
    subst hty
    exact scope_has_nul he h4 hl h s hs

/-- No iterator covers more than the buffer. -/
theorem reached_len_le {b : BsonRef} (hb : b.len ≤ maxLen) {it : BsonIter} (h : Reached b it) :
    ∀ m, it.raw = some m → it.len ≤ b.len := by
  induction h with
  | init it h =>
    unfold bsonIterInit at h
    split at h
    · cases h
    · cases h
      exact fun _ _ => Nat.le_refl _
  | next it hit ih =>
    intro m hm
    cases hok : (bsonIterNextInternal it).ok with
    | false =>
      rw [bsonIterNext, raw_of_next_fail it hok] at hm
      cases hm
    | true =>
      cases hraw : it.raw with
      | none => simp [bsonIterNextInternal, hraw] at hok
      | some m' =>
        obtain ⟨h4, hl⟩ := hit.usable hb m' hraw
        obtain ⟨o, t, he⟩ := element_of_next hraw h4 hl hok
        rw [bsonIterNext, he.len]
        exact ih m' hraw
  | recurse it child hit hok hchild ih =>
    intro _ _
    cases hraw : it.raw with
    | none => simp [bsonIterNext, bsonIterNextInternal, hraw] at hok
    | some m =>
      obtain ⟨h4, hl⟩ := hit.usable hb m hraw
      obtain ⟨o, t, he⟩ := element_of_next hraw h4 hl hok
      obtain ⟨ht, rfl⟩ := recurse_child he hchild
      have hn := he.nested_len ht
      have hstop := he.stop
      have hle := ih m hraw
      simp only [BsonIter.start]
      omega

/-- The value path and the iterator path agree on an element of a buffer exactly when
its payload is not empty and its code, if its scope is sound, has a NUL. -/
theorem value_copies_agree_iff (data : Mem) (length : Nat) (b : BsonRef)
    (hb : bsonInitStatic data length = some b) (it : BsonIter) (hit : Reached b it)
    (hok : (bsonIterNext it).1 = true) :
    PathsAgree (bsonIterNext it).2 ↔ Copyable (bsonIterNext it).2 := by
  have hblen : b.len ≤ 2147483647 := by
    unfold bsonInitStatic at hb
    split_ifs at hb with hrange
    cases hb
    simp only
    omega
  have hmax : b.len ≤ maxLen := Nat.le_trans hblen (by decide)
  cases hraw : it.raw with
  | none => simp [bsonIterNext, bsonIterNextInternal, hraw] at hok
  | some m =>
    obtain ⟨h4, hl⟩ := hit.usable hmax m hraw
    have hle := reached_len_le hmax hit m hraw
    obtain ⟨o, t, he⟩ := element_of_next hraw h4 hl hok
    constructor
    · exact copyable_of_agree he h4 (Nat.le_trans hle hblen)
    · intro hc
      exact paths_agree fun block => samePaths_of_copyable he hl hc block

/-- `{"": Binary (0, "")}` -/
def emptyBinary : Bytes := [12, 0, 0, 0, 5, 0, 0, 0, 0, 0, 0, 0]

theorem emptyBinary_init :
    bsonInitStatic (Mem.ofBytes emptyBinary) 12 =
      some { data := Mem.ofBytes emptyBinary, len := 12 } := rfl

/-- `{"": Binary (0, "x")}` -/
def oneBinary : Bytes := [13, 0, 0, 0, 5, 0, 1, 0, 0, 0, 0, 120, 0]

theorem value_copies_agree_oneBinary :
    ∃ it, Reached { data := Mem.ofBytes oneBinary, len := 13 } it ∧
      PathsAgree (bsonIterNext it).2 := by
  have hcopy : Copyable (bsonIterNext (BsonIter.start (some (Mem.ofBytes oneBinary)) 13)).2 :=
    ⟨by decide +kernel, by decide +kernel, by decide +kernel, by decide +kernel⟩
  exact ⟨_, .init _ rfl, (value_copies_agree_iff (Mem.ofBytes oneBinary) 13 _ rfl _ (.init _ rfl)
    (by decide +kernel)).mpr hcopy⟩

/-- The copy of an empty payload is NULL, which `bson_append_binary` asserts against. -/
theorem value_copies_not_agree :
    ¬ ∀ (data : Mem) (length : Nat) (b : BsonRef), bsonInitStatic data length = some b →
      ∀ it, Reached b it → (bsonIterNext it).1 = true → PathsAgree (bsonIterNext it).2 := by
  intro h
  have hagree := h _ _ _ emptyBinary_init _ (.init _ rfl) (by decide +kernel)
  have hok := (hagree.asserts (fun _ _ => 0) (fun _ => 0) emptyInBuffer [] 0 emptyInBuffer_open).1
  exact hok rfl

end LibBson.Guarantees
