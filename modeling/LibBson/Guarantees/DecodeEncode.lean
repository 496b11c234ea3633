import LibBson.Guarantees.BuildExact
import LibBson.Source.DecodeLaws

/-!
# A document that was built is read back

A walk with `bson_iter_init`, `bson_iter_next` and `bson_iter_recurse` over what
a well-bracketed run of appends leaves. Source: bson.c:310-565, 752-1958;
bson-iter.c:42-67, 146-177, 477-794 and the typed accessors.
-/

set_option autoImplicit false

namespace LibBson.Guarantees
open LibBson.Library LibBson.Source LibBson.Spec

/-- Walking the encoding of `d` yields `d`. -/
theorem yields_of_encodes {b : BsonRef} {d : Doc} (h : Encodes b d)
    (hsize : d.encode.length ≤ 2147483648) :
    ∃ it, bsonIterInit b = (true, it) ∧ Yields d it := by
  have hlen := h.len_body
  rw [Doc.encode_length] at hsize
  refine ⟨BsonIter.start (some b.data) b.len, ?_, ?_⟩
  · rw [bsonIterInit, if_neg (by omega)]
  · exact yields_of_holds d rfl (Nat.le_refl 4) h.elements
      (by simp only [BsonIter.start]; omega) (by simp only [BsonIter.start, maxLen]; omega) rfl

/-- When the described document fits a BSON length, the walk yields its fields
in order, at every depth, and ends without corruption. -/
theorem decode_encode (fresh : Nat → Mem) (c c' : Chain) (before d : Doc) (steps : List Step)
    (hstart : Start c before) (hb : Builds steps d) (hrun : bsonSteps fresh c steps = .ok c')
    (hsize : (before.append d).encode.length ≤ 2147483648) :
    ∃ it, bsonIterInit c'.ref = (true, it) ∧ Yields (before.append d) it := by
  have hbound := hsize
  rw [Doc.encode_length, Doc.body_append, List.length_append] at hbound
  obtain ⟨hold, -⟩ := run_holding hb c c' _ hrun hstart.holding hbound
  rw [← Doc.body_append] at hold
  exact yields_of_encodes (encodes_of_holding hold) hsize

/-- `{"d": {"": /b/ix}, "a": [true], "n": null}` -/
def nestedRun : List Step :=
  [.documentBegin [100] (-1), .append (.field [] (-1) (.regex (some [98]) (some [120, 105]))),
    .end, .arrayBegin [97] (-1), .append (.field [48] (-1) (.bool true)), .end,
    .append (.field [110] (-1) .null)]

def nestedRunDoc : Doc :=
  .cons (cStr [100])
      (.document (.cons emptyKey (.regex (cStr [98]) (cStr [105, 120])) .nil)) <|
    .cons (cStr [97]) (.array (.cons (cStr [48]) (.bool true) .nil)) <|
      .cons (cStr [110]) .null .nil

theorem builds_nestedRun : Builds nestedRun nestedRunDoc := by
  have hregex : CallMeans (.field [] (-1) (.regex (some [98]) (some [120, 105])))
      (.cons emptyKey (.regex (cStr [98]) (cStr [105, 120])) .nil) :=
    .keyed _ [] (-1) _ emptyKey _ rfl rfl (.regex _ _ _ _ rfl rfl)
  have htrue : CallMeans (.field [48] (-1) (.bool true))
      (.cons (cStr [48]) (.bool true) .nil) :=
    .keyed _ [48] (-1) _ (cStr [48]) _ rfl rfl (.bool true)
  have hnull : CallMeans (.field [110] (-1) .null) (.cons (cStr [110]) .null .nil) :=
    .keyed _ [110] (-1) _ (cStr [110]) _ rfl rfl .null
  exact .document [100] (-1) _ [_] _ _ _ rfl (.append _ _ [] _ hregex .nil) <|
    .array [97] (-1) _ [_] _ _ _ rfl (.append _ _ [] _ htrue .nil) <|
      .append _ _ [] _ hnull .nil

theorem decode_encode_nested :
    ∃ c', bsonSteps (fun _ _ => 0) (bsonInit fun _ => 0) nestedRun = .ok c' ∧
      ∃ it, bsonIterInit c'.ref = (true, it) ∧ Yields (Doc.nil.append nestedRunDoc) it :=
  ⟨_, rfl, decode_encode (fun _ _ => 0) (bsonInit fun _ => 0) _ .nil nestedRunDoc nestedRun
    (start_bsonInit _).toStart builds_nestedRun rfl (by decide)⟩

/-! ## Element sizes that do not fit 32 bits -/

/-- The document that `bson_writer_begin` starts in a buffer of 8 GiB. -/
def hugeBuffer : Chain :=
  .alloc (Mem.ofBytes [5, 0, 0, 0, 0]) 8589934592 true { len := 5, depth := 0, offset := 0 } []

theorem start_hugeBuffer : Start hugeBuffer .nil where
  root := rfl
  depth := rfl
  fits := ⟨(by decide : 5 ≤ 5), (by decide : 0 + 5 + 0 ≤ 8589934592 + 1),
    (by decide : 8589934592 < 4611686018427387904)⟩
  content := ⟨by simp [hugeBuffer, Chain.ref, Doc.encode_length], by
    rw [Chain.ref, holds_shift]
    exact holds_ofBytes _⟩

/-- An append of `length` octets of binary data under the empty key. -/
def hugeBinary (length : Nat) : List Step := [.append (.field [] 0 (.binary 0 [] length))]

def hugeBinaryDoc (length : Nat) : Doc :=
  .cons emptyKey (.binary 0 (copied [] length)) .nil

theorem builds_hugeBinary (length : Nat) : Builds (hugeBinary length) (hugeBinaryDoc length) :=
  .append _ (hugeBinaryDoc length) _ _
    (.keyed _ [] 0 _ emptyKey _ rfl rfl (.binary 0 [] length)) .nil

/-- 4294967289 octets of data make an element of `2 ^ 32` octets, whose declared
total is 0: the append returns true and the length word stays 5. -/
theorem hugeBinary_run (fresh : Nat → Mem) :
    ∃ c', bsonSteps fresh hugeBuffer (hugeBinary 4294967289) = .ok c' ∧ c'.bson.len = 5 := by
  refine ⟨appendVa hugeBuffer (bsonAppendBinary [] 0 0 [] 4294967289), ?_, ?_⟩
  · rw [hugeBinary, bsonSteps_cons_ok]
    refine ⟨_, ?_, rfl⟩
    have hn : (bsonAppendBinary [] 0 0 [] 4294967289).nBytes = 0 := by decide
    have hgrow : bsonGrow fresh 0 hugeBuffer = some hugeBuffer := by
      simp only [bsonGrow, bsonImplAllocGrow, hugeBuffer]
      exact if_pos (by decide)
    simp only [bsonStep, bsonAppendCall, AppendCall.request, AppendCall.keyed, Field.append,
      bsonAppendInternal, hn, hgrow]
    rw [if_neg (Nat.not_lt_zero _)]
  · have hsize : (bsonAppendBinary [] 0 0 [] 4294967289).size = 4294967296 :=
      append_size [] 0 (.binary 0 [] 4294967289)
    simp only [appendVa, hugeBuffer, Chain.update, appendedLen, hsize]
    decide

/-- The walk over it ends at once: the appended field is not read back. -/
theorem hugeBinary_not_read :
    ∃ c', Start hugeBuffer .nil ∧ Builds (hugeBinary 4294967289) (hugeBinaryDoc 4294967289) ∧
      bsonSteps (fun _ _ => 0) hugeBuffer (hugeBinary 4294967289) = .ok c' ∧
      ¬ ∃ it, bsonIterInit c'.ref = (true, it) ∧ Yields (hugeBinaryDoc 4294967289) it := by
  obtain ⟨c', hrun, hlen⟩ := hugeBinary_run fun _ _ => 0
  refine ⟨c', start_hugeBuffer, builds_hugeBinary _, hrun, ?_⟩
  rintro ⟨it, hinit, hy⟩
  have hfive : c'.ref.len = 5 := hlen
  rw [bsonIterInit, if_neg (by omega), hfive] at hinit
  cases hinit
  rw [hugeBinaryDoc, Yields] at hy
  have hend : (bsonIterNextInternal (BsonIter.start (some c'.ref.data) 5)).ok = false :=
    (next_end rfl rfl (Nat.le_refl 5)).1
  rw [hy.1] at hend
  cases hend

end LibBson.Guarantees
