import LibBson.Source.JsonCallbacks

/-!
# The JSON reader's callbacks in two heaps

Two readers that differ in what their blocks contain behind the texts kept there take an event
alike: they make the same calls and go on alike, or set the same error. The one text that may
stand behind the end of what was written is that of `key_buf` while `key` points to a constant;
the wrappers `$code`, `$scope` and `$dbPointer` copy it.
Source: bson-json.c:383-450, 544-1780.
-/

set_option autoImplicit false

namespace LibBson.Source
open LibBson.Library

/-! ## Buffers -/

namespace JsonBuf

/-- Two buffers of one size that hold the same text. -/
structure Alike (b b' : JsonBuf) : Prop where
  nBytes : b'.nBytes = b.nBytes
  len : b'.len = b.len
  text : b'.text = b.text

theorem Alike.pointer {b b' : JsonBuf} (h : Alike b b') : b'.pointer = b.pointer := by
  rw [JsonBuf.pointer, JsonBuf.pointer, h.nBytes, h.text]

theorem Alike.truncated {b b' : JsonBuf} (h : Alike b b') :
    Alike { b with len := 0 } { b' with len := 0 } := ⟨h.nBytes, rfl, rfl⟩

variable (fresh fresh' : Nat → Mem) {b b' : JsonBuf}

theorem ensure_sizes (h : b'.nBytes = b.nBytes) (len : Nat) :
    (b'.ensure fresh' len).nBytes = (b.ensure fresh len).nBytes := by
  unfold ensure
  rw [h]
  split
  · rfl
  · exact h

/-- Octets that are written at the beginning of two buffers. -/
theorem write_text (m m' : Mem) (bs rest : Bytes) :
    (m'.write 0 (bs ++ rest)).slice 0 bs.length = (m.write 0 (bs ++ rest)).slice 0 bs.length := by
  apply List.map_congr_left
  intro i hi
  have hlt := List.mem_range.mp hi
  rw [Mem.write_at _ _ _ _ (by rw [List.length_append]; omega),
    Mem.write_at _ _ _ _ (by rw [List.length_append]; omega)]

theorem set_alike (h : b'.nBytes = b.nBytes) (src : Bytes) :
    Alike (b.set fresh src) (b'.set fresh' src) :=
  ⟨ensure_sizes fresh fresh' h _, rfl, write_text _ _ src [0]⟩

end JsonBuf

/-- The buffers that the callbacks write. -/
structure JsonBuffers where
  keyBuf : JsonBuf
  bsonTypeBuf0 : JsonBuf
  bsonTypeBuf1 : JsonBuf
  bsonTypeBuf2 : JsonBuf
  codeKeyBuf : JsonBuf
  codeBuf : JsonBuf
  dbpointerKey : JsonBuf

/-- Buffers that hold the same texts; what `key_buf` holds while `key` is a constant was not
written for it. -/
structure BuffersAlike (key : Option JsonKey) (a b : JsonBuffers) : Prop where
  keySize : b.keyBuf.nBytes = a.keyBuf.nBytes
  keyLen : b.keyBuf.len = a.keyBuf.len
  keyText : (∀ text, key ≠ some (.constant text)) → b.keyBuf.text = a.keyBuf.text
  bsonTypeBuf0 : JsonBuf.Alike a.bsonTypeBuf0 b.bsonTypeBuf0
  bsonTypeBuf1 : JsonBuf.Alike a.bsonTypeBuf1 b.bsonTypeBuf1
  bsonTypeBuf2 : JsonBuf.Alike a.bsonTypeBuf2 b.bsonTypeBuf2
  codeKeyBuf : JsonBuf.Alike a.codeKeyBuf b.codeKeyBuf
  codeBuf : JsonBuf.Alike a.codeBuf b.codeBuf
  dbpointerKey : JsonBuf.Alike a.dbpointerKey b.dbpointerKey

/-- The key is written anew. -/
theorem BuffersAlike.keyed {key key' : Option JsonKey} {a b : JsonBuffers}
    (h : BuffersAlike key a b) {k k' : JsonBuf} (hk : JsonBuf.Alike k k') :
    BuffersAlike key' { a with keyBuf := k } { b with keyBuf := k' } :=
  { h with keySize := hk.nBytes, keyLen := hk.len, keyText := fun _ => hk.text }

/-! ## Readers and reactions -/

namespace JsonReaderBson

def buffers (s : JsonReaderBson) : JsonBuffers :=
  { keyBuf := s.keyBuf
    bsonTypeBuf0 := s.bsonTypeBuf0
    bsonTypeBuf1 := s.bsonTypeBuf1
    bsonTypeBuf2 := s.bsonTypeBuf2
    codeKeyBuf := s.codeData.keyBuf
    codeBuf := s.codeData.codeBuf
    dbpointerKey := s.dbpointerKey }

def withBuffers (s : JsonReaderBson) (b : JsonBuffers) : JsonReaderBson :=
  { s with
    keyBuf := b.keyBuf
    bsonTypeBuf0 := b.bsonTypeBuf0
    bsonTypeBuf1 := b.bsonTypeBuf1
    bsonTypeBuf2 := b.bsonTypeBuf2
    codeData := { s.codeData with keyBuf := b.codeKeyBuf, codeBuf := b.codeBuf }
    dbpointerKey := b.dbpointerKey }

/-- The same reader in another heap. -/
inductive Alike (s : JsonReaderBson) : JsonReaderBson → Prop
  | mk (b : JsonBuffers) (h : BuffersAlike s.key s.buffers b) : Alike s (s.withBuffers b)

/-- Two callbacks end alike: an error is the same, and without one the readers are. -/
inductive ReactionsAlike : JsonReaction → JsonReaction → Prop
  | assertFailed : ReactionsAlike .assertFailed .assertFailed
  | wild : ReactionsAlike .wild .wild
  | done (s s' : JsonReaderBson) (ops : List JsonDocOp) (herror : s'.error = s.error)
      (h : s.error = none → Alike s s') : ReactionsAlike (.done s ops) (.done s' ops)

section Fields

variable (s : JsonReaderBson) (b : JsonBuffers)

@[simp] theorem withBuffers_depth : (s.withBuffers b).depth = s.depth := rfl
@[simp] theorem withBuffers_key : (s.withBuffers b).key = s.key := rfl
@[simp] theorem withBuffers_top : (s.withBuffers b).top = s.top := rfl
@[simp] theorem withBuffers_readState : (s.withBuffers b).readState = s.readState := rfl
@[simp] theorem withBuffers_bsonState : (s.withBuffers b).bsonState = s.bsonState := rfl
@[simp] theorem withBuffers_bsonType : (s.withBuffers b).bsonType = s.bsonType := rfl
@[simp] theorem withBuffers_bsonTypeData : (s.withBuffers b).bsonTypeData = s.bsonTypeData := rfl

end Fields

variable {s s' : JsonReaderBson}

/-- The same update of a reader, of fields other than the key and the buffers. -/
theorem Alike.of (b : JsonBuffers) (h : BuffersAlike s.key s.buffers b)
    (heq : s' = s.withBuffers b) : Alike s s' := by
  rw [heq]
  exact .mk b h

theorem Alike.error (h : Alike s s') : s'.error = s.error := by
  cases h
  rfl

theorem Alike.readState (h : Alike s s') : s'.readState = s.readState := by
  cases h
  rfl

theorem Alike.keyPointer (h : Alike s s') : s'.keyPointer = s.keyPointer := by
  obtain ⟨b, hb⟩ := h
  have htext := hb.keyText
  rw [JsonReaderBson.keyPointer, JsonReaderBson.keyPointer, withBuffers_key]
  cases hkey : s.key with
  | none => rfl
  | some key =>
    cases key with
    | constant text => rfl
    | keyBuf =>
      rw [hkey] at htext
      exact congrArg some (htext fun text h => by cases h)

theorem Alike.keyLength (h : Alike s s') : s'.keyLength = s.keyLength := by
  obtain ⟨b, hb⟩ := h
  exact congrArg i32 hb.keyLen

/-- A callback that returns with these calls. -/
theorem ReactionsAlike.same {ops : List JsonDocOp} (h : Alike s s') :
    ReactionsAlike (.done s ops) (.done s' ops) := .done s s' ops h.error fun _ => h

/-- A callback that sets an error and returns. -/
theorem ReactionsAlike.failed (herror : s'.error = s.error) (hsome : s.error ≠ none) :
    ReactionsAlike s.quiet s'.quiet := .done s s' [] herror fun h => absurd h hsome

theorem ReactionsAlike.ite {c : Prop} [Decidable c] {p p' q q' : JsonReaction}
    (hp : c → ReactionsAlike p p') (hq : ¬ c → ReactionsAlike q q') :
    ReactionsAlike (if c then p else q) (if c then p' else q') := by
  split
  · next h => exact hp h
  · next h => exact hq h

theorem ReactionsAlike.after {r r' : JsonReaction} (h : ReactionsAlike r r') (ops : List JsonDocOp) :
    ReactionsAlike (r.after ops) (r'.after ops) := by
  cases h with
  | assertFailed => exact .assertFailed
  | wild => exact .wild
  | done s s' more herror h => exact .done s s' (ops ++ more) herror h

theorem setError_alike (h : Alike s s') (message : List Bytes) :
    ReactionsAlike (s.setError message).quiet (s'.setError message).quiet := by
  obtain ⟨b, hb⟩ := h
  exact .same (.of b hb rfl)

theorem corrupt_alike (h : Alike s s') (message : List Bytes) :
    ReactionsAlike (s.corrupt message).quiet (s'.corrupt message).quiet := by
  obtain ⟨b, hb⟩ := h
  exact .same (.of b hb rfl)

theorem append_alike (h : Alike s s') (f : Field) : ReactionsAlike (s.append f) (s'.append f) := by
  have hpointer := h.keyPointer
  have hlength := h.keyLength
  unfold append
  rw [hpointer, hlength]
  obtain ⟨b, hb⟩ := h
  exact .ite (fun _ => .wild) fun _ => .same (.of b hb rfl)

theorem appendOr_alike (h : Alike s s') (f : Field) (failure : List Bytes) :
    ReactionsAlike (s.appendOr f failure) (s'.appendOr f failure) := by
  have hpointer := h.keyPointer
  have hlength := h.keyLength
  unfold appendOr
  rw [hpointer, hlength]
  obtain ⟨b, hb⟩ := h
  exact .ite (fun _ => .wild) fun _ => .same (.of b hb rfl)

/-! ## The stack -/

section Stack

variable {next next' : JsonReaderBson → List JsonDocOp → JsonReaction}

theorem stackPush_alike (h : Alike s s') (frame : JsonStackFrame → JsonStackFrame)
    {statement statement' : JsonDocOp} (hstatement : statement' = statement)
    (hnext : ∀ t t' ops, Alike t t' → t.readState = s.readState →
      ReactionsAlike (next t ops) (next' t' ops)) :
    ReactionsAlike (s.stackPush frame statement next) (s'.stackPush frame statement' next') := by
  obtain ⟨b, hb⟩ := h
  rw [hstatement]
  unfold stackPush
  exact .ite (fun _ => .same (.of b hb rfl)) fun _ => hnext _ _ _ (.of b hb rfl) rfl

theorem pushArray_alike (h : Alike s s')
    (hnext : ∀ t t' ops, Alike t t' → t.readState = s.readState →
      ReactionsAlike (next t ops) (next' t' ops)) :
    ReactionsAlike (s.pushArray next) (s'.pushArray next') := by
  apply stackPush_alike h
  · rw [h.keyPointer, h.keyLength]
    cases h
    rfl
  · exact hnext

theorem pushDoc_alike (h : Alike s s')
    (hnext : ∀ t t' ops, Alike t t' → t.readState = s.readState →
      ReactionsAlike (next t ops) (next' t' ops)) :
    ReactionsAlike (s.pushDoc next) (s'.pushDoc next') := by
  apply stackPush_alike h
  · rw [h.keyPointer, h.keyLength]
    cases h
    rfl
  · exact hnext

theorem pushScope_alike (h : Alike s s')
    (hnext : ∀ t t' ops, Alike t t' → t.readState = s.readState →
      ReactionsAlike (next t ops) (next' t' ops)) :
    ReactionsAlike (s.pushScope next) (s'.pushScope next') := by
  apply stackPush_alike h
  · cases h
    rfl
  · intro t t' ops ht hstate
    obtain ⟨b, hb⟩ := ht
    exact hnext _ _ _ (.of b hb rfl) hstate

theorem pushDbpointer_alike (h : Alike s s')
    (hnext : ∀ t t' ops, Alike t t' → t.readState = s.readState →
      ReactionsAlike (next t ops) (next' t' ops)) :
    ReactionsAlike (s.pushDbpointer next) (s'.pushDbpointer next') := by
  apply stackPush_alike h
  · cases h
    rfl
  · exact hnext

theorem stackPop_alike (h : Alike s s') (allowed : JsonFrameType → Bool)
    {statement statement' : JsonDocOp} (hstatement : statement' = statement)
    (hnext : ∀ t t' ops, Alike t t' → ReactionsAlike (next t ops) (next' t' ops)) :
    ReactionsAlike (s.stackPop allowed statement next) (s'.stackPop allowed statement' next') := by
  obtain ⟨b, hb⟩ := h
  rw [hstatement]
  unfold stackPop
  exact .ite (fun _ => .same (.of b hb rfl)) fun _ => hnext _ _ _ (.of b hb rfl)

theorem popScope_alike (h : Alike s s')
    (hnext : ∀ t t' ops, Alike t t' → ReactionsAlike (next t ops) (next' t' ops)) :
    ReactionsAlike (s.popScope next) (s'.popScope next') := by
  apply stackPop_alike h
  · cases h
    rfl
  · intro t t' ops ht
    obtain ⟨b, hb⟩ := ht
    exact hnext _ _ _ (.of b hb rfl)

theorem finishIfEmpty_alike (h : Alike s s') (ops : List JsonDocOp) :
    ReactionsAlike (.done s.finishIfEmpty ops) (.done s'.finishIfEmpty ops) := by
  obtain ⟨b, hb⟩ := h
  by_cases hdepth : s.depth = 0
  · have hdepth' : (s.withBuffers b).depth = 0 := hdepth
    rw [finishIfEmpty, finishIfEmpty, if_pos hdepth, if_pos hdepth']
    exact .same (.of b hb rfl)
  · have hdepth' : ¬ (s.withBuffers b).depth = 0 := hdepth
    rw [finishIfEmpty, finishIfEmpty, if_neg hdepth, if_neg hdepth']
    exact .same (.of b hb rfl)

end Stack

/-! ## Keys -/

section Callbacks

variable (fresh fresh' : JsonBlock → Nat → Mem)

theorem Alike.ite {c : Prop} [Decidable c] {t t' : JsonReaderBson} (hs : c → Alike s s')
    (ht : ¬ c → Alike t t') : Alike (if c then s else t) (if c then s' else t') := by
  split
  · next h => exact hs h
  · next h => exact ht h

theorem saveMapKey_alike (h : Alike s s') (val : Bytes) :
    Alike (s.saveMapKey fresh val) (s'.saveMapKey fresh' val) := by
  obtain ⟨b, hb⟩ := h
  exact .of { b with keyBuf := b.keyBuf.set (fresh' .keyBuf) val }
    (hb.keyed (JsonBuf.set_alike _ _ hb.keySize val)) rfl

theorem readFixupKey_alike (h : Alike s s') :
    Alike (s.readFixupKey fresh) (s'.readFixupKey fresh') := by
  obtain ⟨b, hb⟩ := h
  have hsize := JsonBuf.ensure_sizes (fresh .keyBuf) (fresh' .keyBuf) hb.keySize 12
  unfold readFixupKey
  simp only
  apply Alike.ite
  · intro _
    apply Alike.ite
    · intro _
      -- a number below 1000 is a constant, whatever stands in the buffer
      exact .of { b with keyBuf := { b.keyBuf.ensure (fresh' .keyBuf) 12 with
          len := if u32 s.top.i < 10 then 1 else if u32 s.top.i < 100 then 2 else 3 } }
        { hb with
          keySize := hsize
          keyLen := rfl
          keyText := fun hne => absurd rfl (hne _) } rfl
    · intro _
      exact .of { b with keyBuf := { b.keyBuf.ensure (fresh' .keyBuf) 12 with
          buf := (b.keyBuf.ensure (fresh' .keyBuf) 12).buf.write 0 (decimal (u32 s.top.i) ++ [0])
          len := (decimal (u32 s.top.i)).length } }
        (hb.keyed ⟨hsize, rfl, JsonBuf.write_text _ _ _ [0]⟩) rfl
  · intro _
    exact .of b hb rfl

/-! ## Scalars -/

theorem bailIfNotNormal_alike (h : Alike s s') (type : Bytes) {next next' : JsonReaction}
    (hnext : ReactionsAlike next next') :
    ReactionsAlike (s.bailIfNotNormal type next) (s'.bailIfNotNormal type next') := by
  obtain ⟨b, hb⟩ := h
  unfold bailIfNotNormal
  refine .ite (fun _ => .same (.of b hb rfl)) fun _ => ?_
  exact .ite (fun _ => .same (.of b hb rfl)) fun _ => hnext

/-- A value that is stored where the reader is. -/
theorem scalar_alike (h : Alike s s') (type : Bytes) (f : Field) :
    ReactionsAlike (s.bailIfNotNormal type (s.append f)) (s'.bailIfNotNormal type (s'.append f)) :=
  bailIfNotNormal_alike h type (append_alike h f)

theorem readNull_alike (h : Alike s s') :
    ReactionsAlike (readNull fresh s) (readNull fresh' s') :=
  scalar_alike (readFixupKey_alike fresh fresh' h) (ascii "null") .null

theorem readDouble_alike (h : Alike s s') (val : Nat) :
    ReactionsAlike (readDouble fresh s val) (readDouble fresh' s' val) :=
  scalar_alike (readFixupKey_alike fresh fresh' h) (ascii "double") (.double val)

theorem readBoolean_alike (h : Alike s s') (val : Bool) :
    ReactionsAlike (readBoolean fresh s val) (readBoolean fresh' s' val) := by
  have hfix := readFixupKey_alike fresh fresh' h
  have hscalar := scalar_alike hfix (ascii "boolean") (.bool val)
  unfold readBoolean
  generalize readFixupKey fresh s = t at hfix hscalar ⊢
  generalize readFixupKey fresh' s' = t' at hfix hscalar ⊢
  obtain ⟨b, hb⟩ := hfix
  exact .ite (fun _ => .same (.of b hb rfl)) fun _ => hscalar

theorem readMinMaxKey_alike (h : Alike s s') (val : Nat) (sign : Int) (offset : Nat) :
    ReactionsAlike (s.readMinMaxKey val sign offset) (s'.readMinMaxKey val sign offset) := by
  obtain ⟨b, hb⟩ := h
  unfold readMinMaxKey
  refine .ite (fun _ => .same (.of b hb rfl)) fun _ => ?_
  by_cases hval : val ≠ 1
  · simp only [if_pos hval]
    exact .same (.of b hb rfl)
  · simp only [if_neg hval]
    exact .same (.of b hb rfl)

theorem readTimestampPart_alike (h : Alike s s') (val : Nat) (sign : Int) (has part : Nat) :
    ReactionsAlike (s.readTimestampPart val sign has part)
      (s'.readTimestampPart val sign has part) := by
  obtain ⟨b, hb⟩ := h
  unfold readTimestampPart
  exact .ite (fun _ => .same (.of b hb rfl)) fun _ => .same (.of b hb rfl)

theorem readIntegerInType_alike (h : Alike s s') (val : Nat) (sign : Int) :
    ReactionsAlike (s.readIntegerInType val sign) (s'.readIntegerInType val sign) := by
  have hmin := readMinMaxKey_alike h val sign
  have htime := readTimestampPart_alike h val sign
  obtain ⟨b, hb⟩ := h
  unfold readIntegerInType
  simp only [withBuffers_bsonState]
  split
  · exact .same (.of b hb rfl)
  · exact htime _ _
  · exact htime _ _
  · exact hmin _
  · exact hmin _
  · exact .same (.of b hb rfl)
  · exact .same (.of b hb rfl)
  · exact .same (.of b hb rfl)

theorem readInteger_alike (h : Alike s s') (val : Nat) (sign : Int) :
    ReactionsAlike (readInteger fresh s val sign) (readInteger fresh' s' val sign) := by
  have hfix := readFixupKey_alike fresh fresh' h
  unfold readInteger
  generalize readFixupKey fresh s = t at hfix ⊢
  generalize readFixupKey fresh' s' = t' at hfix ⊢
  have happend := append_alike hfix
  have hinType := readIntegerInType_alike hfix val sign
  have hbail : ∀ {next next' : JsonReaction}, ReactionsAlike next next' →
      ReactionsAlike (t.bailIfNotNormal (ascii "integer") next)
        (t'.bailIfNotNormal (ascii "integer") next') :=
    fun hnext => bailIfNotNormal_alike hfix (ascii "integer") hnext
  obtain ⟨b, hb⟩ := hfix
  refine .ite (fun _ => .same (.of b hb rfl)) fun _ => ?_
  refine .ite (fun _ => .same (.of b hb rfl)) fun _ => ?_
  refine .ite (fun _ => ?_) fun _ => ?_
  · apply hbail
    refine .ite (fun _ => happend _) fun _ => ?_
    exact .ite (fun _ => happend _) fun _ => happend _
  · exact .ite (fun _ => hinType) fun _ => .same (.of b hb rfl)

/-! ## Strings -/

variable (dec : JsonDecoders)

theorem badParse_alike (h : Alike s s') (val : Bytes) (bs : BsonState) :
    ReactionsAlike (s.badParse val bs) (s'.badParse val bs) := setError_alike h _

theorem parseBinaryElem_alike (h : Alike s s') (val : Bytes) :
    ReactionsAlike (parseBinaryElem fresh dec s val) (parseBinaryElem fresh' dec s' val) := by
  have hfix := readFixupKey_alike fresh fresh' h
  unfold parseBinaryElem
  generalize readFixupKey fresh s = t at hfix ⊢
  generalize readFixupKey fresh' s' = t' at hfix ⊢
  obtain ⟨b, hb⟩ := hfix
  simp only [withBuffers_bsonState, withBuffers_bsonTypeData]
  split
  · cases b64Pton dec.b64rmapBefore val with
    | none => exact .failed rfl fun herror => by cases herror
    | some binary =>
      have hsize := JsonBuf.ensure_sizes (fresh .bsonTypeBuf0) (fresh' .bsonTypeBuf0)
        hb.bsonTypeBuf0.nBytes (binary.length + 1)
      have htext := JsonBuf.write_text (t.bsonTypeBuf0.ensure (fresh .bsonTypeBuf0)
        (binary.length + 1)).buf (b.bsonTypeBuf0.ensure (fresh' .bsonTypeBuf0)
        (binary.length + 1)).buf binary []
      rw [List.append_nil] at htext
      exact .same (.of { b with bsonTypeBuf0 :=
        { b.bsonTypeBuf0.ensure (fresh' .bsonTypeBuf0) (binary.length + 1) with
          buf := (b.bsonTypeBuf0.ensure (fresh' .bsonTypeBuf0) (binary.length + 1)).buf.write 0 binary
          len := binary.length } } { hb with bsonTypeBuf0 := ⟨hsize, rfl, htext⟩ } rfl)
  · cases dec.sscanfHex (cText val) with
    | some n => exact .same (.of b hb rfl)
    | none =>
      refine .ite (fun _ => .same (.of b hb rfl)) fun _ => ?_
      apply pushDoc_alike
      · exact .of b hb rfl
      · intro u u' ops hu _
        exact .same hu
  · exact .same (.of b hb rfl)

theorem readStringInType_alike (h : Alike s s') (val : Bytes) :
    ReactionsAlike (readStringInType fresh dec s val) (readStringInType fresh' dec s' val) := by
  have happend := append_alike h
  have hbad := badParse_alike h val
  have hlegacy : Alike
      { s with bsonTypeData := s.bsonTypeData.setFlag BsonJsonBsonData.binaryIsLegacy }
      { s' with bsonTypeData := s'.bsonTypeData.setFlag BsonJsonBsonData.binaryIsLegacy } := by
    obtain ⟨b, hb⟩ := h
    exact .of b hb rfl
  have hbinary := parseBinaryElem_alike fresh fresh' dec hlegacy val
  have herror := setError_alike h
  obtain ⟨b, hb⟩ := h
  have hpattern : BuffersAlike s.key
      { s.buffers with bsonTypeBuf0 := s.bsonTypeBuf0.set (fresh .bsonTypeBuf0) val }
      { b with bsonTypeBuf0 := b.bsonTypeBuf0.set (fresh' .bsonTypeBuf0) val } :=
    { hb with bsonTypeBuf0 := JsonBuf.set_alike _ _ hb.bsonTypeBuf0.nBytes val }
  have hoptions : BuffersAlike s.key
      { s.buffers with bsonTypeBuf1 := s.bsonTypeBuf1.set (fresh .bsonTypeBuf1) val }
      { b with bsonTypeBuf1 := b.bsonTypeBuf1.set (fresh' .bsonTypeBuf1) val } :=
    { hb with bsonTypeBuf1 := JsonBuf.set_alike _ _ hb.bsonTypeBuf1.nBytes val }
  have hcode : BuffersAlike s.key
      { s.buffers with codeBuf := s.codeData.codeBuf.set (fresh .codeBuf) val }
      { b with codeBuf := b.codeBuf.set (fresh' .codeBuf) val } :=
    { hb with codeBuf := JsonBuf.set_alike _ _ hb.codeBuf.nBytes val }
  unfold readStringInType
  simp only [withBuffers_bsonState, withBuffers_readState]
  split
  · exact .same (.of _ hpattern rfl)
  · exact .same (.of _ hpattern rfl)
  · exact .same (.of _ hoptions rfl)
  · exact .same (.of _ hoptions rfl)
  · exact .ite (fun _ => hbad _) fun _ => .same (.of b hb rfl)
  · exact hbinary
  · exact hbinary
  · cases readInt64 dec val with
    | error message => exact herror message
    | ok v64 =>
      refine .ite (fun _ => hbad _) fun _ => ?_
      exact .ite (fun _ => .same (.of b hb rfl)) fun _ => hbad _
  · cases readInt64 dec val with
    | error message => exact herror message
    | ok v64 =>
      refine .ite (fun _ => .same (.of b hb rfl)) fun _ => ?_
      exact .ite (fun _ => .same (.of b hb rfl)) fun _ => hbad _
  · cases (parseDouble dec val).2 with
    | none => exact .same (.of b hb rfl)
    | some message => exact .same (.of b hb rfl)
  · cases dec.iso8601DateParse val with
    | error e => exact .same (.of b hb rfl)
    | ok v64 => exact .same (.of b hb rfl)
  · exact .ite (fun _ => .same (.of b hb rfl)) fun _ => hbad _
  · exact .same (.of _ hcode rfl)
  · exact happend _
  · -- the "$ref" of a DBRef is appended in the state it finds
    have hread := happend (.utf8 (some val) (i32 val.length))
    generalize s.append (.utf8 (some val) (i32 val.length)) = r at hread ⊢
    generalize (s.withBuffers b).append (.utf8 (some val) (i32 val.length)) = r' at hread ⊢
    cases hread with
    | assertFailed => exact .assertFailed
    | wild => exact .wild
    | done t t' ops herror h =>
      refine .done _ _ _ herror fun hnone => ?_
      obtain ⟨b, hb⟩ := h hnone
      exact .of b hb rfl
  · exact hbad _

theorem readString_alike (h : Alike s s') (val : Bytes) :
    ReactionsAlike (readString fresh dec s val) (readString fresh' dec s' val) := by
  have hfix := readFixupKey_alike fresh fresh' h
  have hscalar := scalar_alike hfix (ascii "string") (.utf8 (some val) (i32 val.length))
  unfold readString
  generalize readFixupKey fresh s = t at hfix hscalar ⊢
  generalize readFixupKey fresh' s' = t' at hfix hscalar ⊢
  have hset : Alike { t with bsonTypeBuf2 := t.bsonTypeBuf2.set (fresh .bsonTypeBuf2) val }
      { t' with bsonTypeBuf2 := t'.bsonTypeBuf2.set (fresh' .bsonTypeBuf2) val } := by
    obtain ⟨b, hb⟩ := hfix
    exact .of { b with bsonTypeBuf2 := b.bsonTypeBuf2.set (fresh' .bsonTypeBuf2) val }
      { hb with bsonTypeBuf2 := JsonBuf.set_alike _ _ hb.bsonTypeBuf2.nBytes val } rfl
  have hbinary := parseBinaryElem_alike fresh fresh' dec hset val
  have hwrapped := readStringInType_alike fresh fresh' dec hset val
  have herror := setError_alike hfix
  have hcorrupt := corrupt_alike hfix
  obtain ⟨b, hb⟩ := hfix
  refine .ite (fun _ => hcorrupt _) fun _ => ?_
  simp only [withBuffers_readState]
  split
  · exact hscalar
  · exact herror _
  · exact herror _
  · exact hbinary
  · exact hwrapped
  · exact hwrapped
  · exact hwrapped
  · exact hwrapped
  · exact herror _

/-! ## Keys and the beginning of a map -/

theorem readStartMap_alike (h : Alike s s') :
    ReactionsAlike (readStartMap fresh s) (readStartMap fresh' s') := by
  have hfix := readFixupKey_alike fresh fresh' h
  unfold readStartMap
  generalize readFixupKey fresh s = t at hfix ⊢
  generalize readFixupKey fresh' s' = t' at hfix ⊢
  obtain ⟨b, hb⟩ := hfix
  simp only [withBuffers_readState, withBuffers_bsonState]
  split
  · split
    · exact .same (.of b hb rfl)
    · exact .same (.of b hb rfl)
    · apply pushDoc_alike
      · exact .of b hb rfl
      · intro u u' ops hu _
        exact .same (saveMapKey_alike fresh fresh' hu _)
    · exact .same (.of b hb rfl)
  · exact .same (.of b hb rfl)
  · exact .same (.of b hb rfl)
  · exact .same (.of b hb rfl)
  · exact .same (.of b hb rfl)
  · exact .same (.of b hb rfl)

/-- `key` does not point to a constant, so that `key_buf` holds what it says. -/
def KeyWritten (s : JsonReaderBson) : Prop := ∀ text, s.key ≠ some (.constant text)

theorem readCodeOrScopeKey_alike (h : Alike s s') (isScope : Bool) (val : Bytes)
    (hkey : s.codeData.inScope = false → s.codeData.keyBuf.len = 0 → s.KeyWritten) :
    ReactionsAlike (readCodeOrScopeKey fresh s isScope val)
      (readCodeOrScopeKey fresh' s' isScope val) := by
  obtain ⟨b, hb⟩ := h
  have hlen : (s.withBuffers b).codeData.keyBuf.len = s.codeData.keyBuf.len := hb.codeKeyBuf.len
  unfold readCodeOrScopeKey
  refine .ite (fun _ => ?_) fun hscope => ?_
  · apply pushDoc_alike
    · exact .of b hb rfl
    · intro u u' ops hu _
      exact .same (saveMapKey_alike fresh fresh' hu val)
  · by_cases hnew : s.codeData.keyBuf.len = 0
    · have htext : b.keyBuf.text = s.keyBuf.text :=
        hb.keyText (hkey (by rwa [Bool.not_eq_true] at hscope) hnew)
      have hsaved : BuffersAlike s.key
          { s.buffers with
            codeKeyBuf := s.codeData.keyBuf.set (fresh .codeKeyBuf) s.keyBuf.text }
          { b with codeKeyBuf := b.codeKeyBuf.set (fresh' .codeKeyBuf) s.keyBuf.text } :=
        { hb with codeKeyBuf := JsonBuf.set_alike _ _ hb.codeKeyBuf.nBytes _ }
      rw [← hlen] at hnew
      simp only [hlen] at hnew ⊢
      simp only [if_pos hnew, show (s.withBuffers b).keyBuf.text = s.keyBuf.text from htext]
      exact .ite (fun _ => .same (.of _ hsaved rfl)) fun _ => .same (.of _ hsaved rfl)
    · simp only [hlen, if_neg hnew]
      exact .ite (fun _ => .same (.of b hb rfl)) fun _ => .same (.of b hb rfl)

theorem badKeyInType_alike (h : Alike s s') (val : Bytes) :
    ReactionsAlike (s.badKeyInType val) (s'.badKeyInType val) := by
  obtain ⟨b, hb⟩ := h
  exact .same (.of b hb rfl)

theorem handleOption_alike (h : Alike s s') (val : Bytes)
    (options : List (Bytes × BsonType × BsonState)) {otherwise otherwise' : JsonReaction}
    (hother : ReactionsAlike otherwise otherwise') :
    ReactionsAlike (s.handleOption val options otherwise)
      (s'.handleOption val options otherwise') := by
  obtain ⟨b, hb⟩ := h
  unfold handleOption
  split
  · exact .ite (fun _ => .same (.of b hb rfl)) fun _ => .same (.of b hb rfl)
  · exact hother

/-- The wrapper that begins with `val` saves the key of its member. -/
def savesKey (s : JsonReaderBson) (val : Bytes) : Prop :=
  cText val = ascii "$dbPointer" ∨
    (cText val = ascii "$code" ∨ cText val = ascii "$scope") ∧
      s.codeData.inScope = false ∧ s.codeData.keyBuf.len = 0

theorem readKeyInType_alike (h : Alike s s') {val : Bytes} (hkey : s.savesKey val → s.KeyWritten) :
    ReactionsAlike (readKeyInType fresh s val) (readKeyInType fresh' s' val) := by
  have hcode : cText val = ascii "$code" ∨ cText val = ascii "$scope" →
      ∀ isScope, ReactionsAlike (readCodeOrScopeKey fresh s isScope val)
        (readCodeOrScopeKey fresh' s' isScope val) := fun hval isScope =>
    readCodeOrScopeKey_alike fresh fresh' h isScope val fun hscope hlen =>
      hkey (Or.inr ⟨hval, hscope, hlen⟩)
  have hbad := badKeyInType_alike h val
  apply handleOption_alike h
  obtain ⟨b, hb⟩ := h
  refine .ite (fun _ => .same (.of b hb rfl)) fun _ => ?_
  refine .ite (fun _ => .same (.of b hb rfl)) fun _ => ?_
  refine .ite (fun hval => ?_) fun _ => ?_
  · have htext : (s.withBuffers b).keyBuf.text = s.keyBuf.text := hb.keyText (hkey (Or.inl hval))
    rw [htext]
    exact .same (.of
      { b with dbpointerKey := b.dbpointerKey.set (fresh' .dbpointerKey) s.keyBuf.text }
      { hb with dbpointerKey := JsonBuf.set_alike _ _ hb.dbpointerKey.nBytes _ } rfl)
  · refine .ite (fun hval => hcode (Or.inl hval) false) fun _ => ?_
    exact .ite (fun hval => hcode (Or.inr hval) true) fun _ => hbad

theorem readPlainKey_alike (h : Alike s s') (val : Bytes) :
    Alike (readPlainKey fresh s val) (readPlainKey fresh' s' val) := by
  have hsave := saveMapKey_alike fresh fresh' h val
  unfold readPlainKey
  generalize saveMapKey fresh s val = t at hsave ⊢
  generalize saveMapKey fresh' s' val = t' at hsave ⊢
  obtain ⟨b, hb⟩ := hsave
  simp only
  refine .ite (fun _ => ?_) fun _ => .of b hb rfl
  refine .ite (fun _ => .of b hb rfl) fun _ => ?_
  refine .ite (fun _ => .of b hb rfl) fun _ => ?_
  exact .ite (fun _ => .of b hb rfl) fun _ => .of b hb rfl

theorem readKeyInState_alike (h : Alike s s') {val : Bytes}
    (hkey : s.readState = .inBsonType → s.savesKey val → s.KeyWritten) :
    ReactionsAlike (readKeyInState fresh s val) (readKeyInState fresh' s' val) := by
  have hbad := badKeyInType_alike h val
  unfold readKeyInState
  rw [h.readState]
  split
  · next hstate => exact readKeyInType_alike fresh fresh' h (hkey hstate)
  · exact handleOption_alike h val _ hbad
  · exact handleOption_alike h val _ hbad
  · exact handleOption_alike h val _ hbad
  · exact handleOption_alike h val _ hbad
  · exact .same (readPlainKey_alike fresh fresh' h val)

/-- The callback of the event copies `key_buf` for the member that a wrapper stands for. -/
def copiesKey (s : JsonReaderBson) : JsonEvent → Prop
  | .key val => (s.readState = .inBsonType ∨
      s.readState = .inStartMap ∧ isKnownKey val = true ∧ 0 < s.depth) ∧ s.savesKey val
  | _ => False

theorem readMapKey_alike (h : Alike s s') {val : Bytes}
    (hkey : s.copiesKey (.key val) → s.KeyWritten) :
    ReactionsAlike (readMapKey fresh s val) (readMapKey fresh' s' val) := by
  have hplain : ∀ {t t' : JsonReaderBson}, Alike t t' → t.readState = .regular →
      ReactionsAlike (readKeyInState fresh t val) (readKeyInState fresh' t' val) := by
    intro t t' ht hstate
    apply readKeyInState_alike fresh fresh' ht
    intro hin
    rw [hstate] at hin
    cases hin
  have hstays : s.readState ≠ .inStartMap →
      ReactionsAlike (readKeyInState fresh s val) (readKeyInState fresh' s' val) := by
    intro _
    apply readKeyInState_alike fresh fresh' h
    intro hin hsaves
    exact hkey ⟨Or.inl hin, hsaves⟩
  unfold readMapKey
  refine .ite (fun _ => corrupt_alike h _) fun _ => ?_
  obtain ⟨b, hb⟩ := h
  simp only [withBuffers_readState]
  split
  · next hstate =>
    refine .ite (fun hknown => ?_) fun _ => ?_
    · apply readKeyInState_alike
      · exact .of b hb rfl
      · intro _ hsaves
        exact hkey ⟨Or.inr ⟨hstate, hknown⟩, hsaves⟩
    · apply pushDoc_alike
      · exact .of b hb rfl
      · intro t t' ops ht hregular
        exact (hplain ht hregular).after ops
  · apply pushScope_alike
    · exact .of b hb rfl
    · intro t t' ops ht hregular
      exact (hplain (saveMapKey_alike fresh fresh' ht val) hregular).after ops
  · apply pushDbpointer_alike
    · exact .of b hb rfl
    · intro t t' ops ht hregular
      exact (hplain (saveMapKey_alike fresh fresh' ht val) hregular).after ops
  · next hstart _ _ => exact hstays hstart

/-! ## The end of a map -/

theorem readAppendBinary_alike (h : Alike s s') :
    ReactionsAlike s.readAppendBinary s'.readAppendBinary := by
  have happend := appendOr_alike h
  obtain ⟨b, hb⟩ := h
  have htext : (s.withBuffers b).bsonTypeBuf0.text = s.bsonTypeBuf0.text := hb.bsonTypeBuf0.text
  have hlen : (s.withBuffers b).bsonTypeBuf0.len = s.bsonTypeBuf0.len := hb.bsonTypeBuf0.len
  unfold readAppendBinary
  rw [htext, hlen]
  refine .ite (fun _ => .same (.of b hb rfl)) fun _ => ?_
  exact .ite (fun _ => .same (.of b hb rfl)) fun _ => happend _ _

theorem readAppendRegex_alike (h : Alike s s') :
    ReactionsAlike s.readAppendRegex s'.readAppendRegex := by
  have happend := appendOr_alike h
  obtain ⟨b, hb⟩ := h
  have hpattern : (s.withBuffers b).bsonTypeBuf0.pointer = s.bsonTypeBuf0.pointer :=
    hb.bsonTypeBuf0.pointer
  have hoptions : (s.withBuffers b).bsonTypeBuf1.pointer = s.bsonTypeBuf1.pointer :=
    hb.bsonTypeBuf1.pointer
  unfold readAppendRegex
  rw [hpattern, hoptions]
  refine .ite (fun _ => .same (.of b hb rfl)) fun _ => ?_
  exact .ite (fun _ => .same (.of b hb rfl)) fun _ => happend _ _

theorem readAppendCode_alike (h : Alike s s') :
    ReactionsAlike s.readAppendCode s'.readAppendCode := by
  obtain ⟨b, hb⟩ := h
  have hkey : (s.withBuffers b).codeData.keyBuf.pointer = s.codeData.keyBuf.pointer :=
    hb.codeKeyBuf.pointer
  have hlen : (s.withBuffers b).codeData.keyBuf.len = s.codeData.keyBuf.len := hb.codeKeyBuf.len
  have hcode : (s.withBuffers b).codeData.codeBuf.pointer = s.codeData.codeBuf.pointer :=
    hb.codeBuf.pointer
  unfold readAppendCode
  simp only [hkey, hlen, hcode]
  refine .ite (fun _ => .assertFailed) fun _ => ?_
  refine .ite (fun _ => .same (.of b hb rfl)) fun _ => ?_
  refine .ite (fun _ => .wild) fun _ => ?_
  exact .same (.of { b with codeKeyBuf := { b.codeKeyBuf with len := 0 } }
    { hb with codeKeyBuf := hb.codeKeyBuf.truncated } rfl)

theorem readAppendDbpointer_alike (h : Alike s s') :
    ReactionsAlike s.readAppendDbpointer s'.readAppendDbpointer := by
  obtain ⟨b, hb⟩ := h
  have hsize : (s.withBuffers b).dbpointerKey.nBytes = s.dbpointerKey.nBytes :=
    hb.dbpointerKey.nBytes
  have hlen : (s.withBuffers b).dbpointerKey.len = s.dbpointerKey.len := hb.dbpointerKey.len
  have hpointer : (s.withBuffers b).dbpointerKey.pointer = s.dbpointerKey.pointer :=
    hb.dbpointerKey.pointer
  unfold readAppendDbpointer
  rw [hsize, hlen, hpointer]
  refine .ite (fun _ => .assertFailed) fun _ => ?_
  exact .ite (fun _ => .wild) fun _ => .same (.of b hb rfl)

theorem readAppendOid_alike (h : Alike s s') :
    ReactionsAlike s.readAppendOid s'.readAppendOid := by
  have happend := appendOr_alike h
  obtain ⟨b, hb⟩ := h
  exact happend _ _

theorem readAppendDateTime_alike (h : Alike s s') :
    ReactionsAlike s.readAppendDateTime s'.readAppendDateTime := by
  have happend := appendOr_alike h
  obtain ⟨b, hb⟩ := h
  exact happend _ _

theorem readAppendTimestamp_alike (h : Alike s s') :
    ReactionsAlike s.readAppendTimestamp s'.readAppendTimestamp := by
  have happend := append_alike h
  obtain ⟨b, hb⟩ := h
  unfold readAppendTimestamp
  refine .ite (fun _ => .same (.of b hb rfl)) fun _ => ?_
  exact .ite (fun _ => .same (.of b hb rfl)) fun _ => happend _

theorem appendWrapped_alike (h : Alike s s') :
    ReactionsAlike s.appendWrapped s'.appendWrapped := by
  have happend := append_alike h
  have herror := setError_alike h
  have hregex := readAppendRegex_alike h
  have hcode := readAppendCode_alike h
  have hoid := readAppendOid_alike h
  have hbinary := readAppendBinary_alike h
  have hdate := readAppendDateTime_alike h
  obtain ⟨b, hb⟩ := h
  unfold appendWrapped
  simp only [withBuffers_bsonType, withBuffers_bsonTypeData]
  split
  · exact hregex
  · exact hcode
  · exact hcode
  · exact hoid
  · exact hbinary
  · exact hdate
  · exact happend _
  · exact happend _
  · exact happend _
  · exact happend _
  · exact happend _
  · exact happend _
  · exact happend _
  · exact herror _
  · exact .same (.of b hb rfl)
  · exact herror _

theorem endRegularMap_alike (h : Alike s s') :
    ReactionsAlike s.endRegularMap s'.endRegularMap := by
  have hfinish : ∀ t t' ops, Alike t t' →
      ReactionsAlike (.done t.finishIfEmpty ops) (.done t'.finishIfEmpty ops) :=
    fun t t' ops ht => finishIfEmpty_alike ht ops
  obtain ⟨b, hb⟩ := h
  unfold endRegularMap
  simp only [withBuffers_top]
  split
  · apply popScope_alike
    · exact .of b hb rfl
    · exact hfinish
  · apply stackPop_alike
    · exact .of b hb rfl
    · rfl
    · exact hfinish
  · apply stackPop_alike
    · exact .ite (fun _ => .of b hb rfl) fun _ => .of b hb rfl
    · rfl
    · exact hfinish

theorem badExtendedJson_alike (h : Alike s s') :
    ReactionsAlike s.badExtendedJson s'.badExtendedJson := corrupt_alike h _

theorem endInnerMap_alike (h : Alike s s') (state : ReadState)
    {append : JsonReaderBson → JsonReaction}
    (happend : ∀ {t t'}, Alike t t' → ReactionsAlike (append t) (append t')) :
    ReactionsAlike (s.endInnerMap state append) (s'.endInnerMap state append) := by
  have hbad := badExtendedJson_alike h
  obtain ⟨b, hb⟩ := h
  exact .ite (fun _ => hbad) fun _ => happend (.of b hb rfl)

theorem endMapInState_alike (h : Alike s s') :
    ReactionsAlike s.endMapInState s'.endMapInState := by
  have hbad := badExtendedJson_alike h
  have hregular := endRegularMap_alike h
  have herror := setError_alike h
  have htime := endInnerMap_alike h .inBsonTypeTimestampEndmap readAppendTimestamp_alike
  have hregex := endInnerMap_alike h .inBsonTypeRegexEndmap readAppendRegex_alike
  have hbinary := endInnerMap_alike h .inBsonTypeBinaryEndmap readAppendBinary_alike
  have hdate := endInnerMap_alike h .inBsonTypeDateEndmap readAppendDateTime_alike
  have hscope : ReactionsAlike
      (s.pushScope fun t ops => t.popScope fun t more =>
        .done { t with readState := .inBsonType, bsonType := .code } (ops ++ more))
      (s'.pushScope fun t ops => t.popScope fun t more =>
        .done { t with readState := .inBsonType, bsonType := .code } (ops ++ more)) := by
    apply pushScope_alike h
    intro t t' ops ht _
    apply popScope_alike ht
    intro u u' more hu
    obtain ⟨b, hb⟩ := hu
    exact .same (.of b hb rfl)
  obtain ⟨b, hb⟩ := h
  unfold endMapInState
  simp only [withBuffers_readState]
  split
  · exact .ite (fun _ => hbad) fun _ => appendWrapped_alike (.of b hb rfl)
  · exact htime
  · exact hregex
  · exact hbinary
  · exact hdate
  · exact .same (.of b hb rfl)
  · exact .same (.of b hb rfl)
  · exact .same (.of b hb rfl)
  · exact .same (.of b hb rfl)
  · exact hregular
  · exact .ite (fun _ => .assertFailed) fun _ => hscope
  · exact herror _
  · exact herror _

theorem readEndMap_alike (h : Alike s s') : ReactionsAlike s.readEndMap s'.readEndMap := by
  have hstays := endMapInState_alike h
  have hpointer := readAppendDbpointer_alike h
  have hopened : ∀ t t' ops, Alike t t' → t.readState = .regular →
      ReactionsAlike (t.endMapInState.after ops) (t'.endMapInState.after ops) :=
    fun t t' ops ht _ => (endMapInState_alike ht).after ops
  obtain ⟨b, hb⟩ := h
  unfold readEndMap
  simp only [withBuffers_readState]
  split
  · exact pushDoc_alike (.of b hb rfl) hopened
  · exact pushScope_alike (.of b hb rfl) hopened
  · generalize s.readAppendDbpointer = r at hpointer ⊢
    generalize (s.withBuffers b).readAppendDbpointer = r' at hpointer ⊢
    cases hpointer with
    | assertFailed => exact .assertFailed
    | wild => exact .wild
    | done t t' ops herror h =>
      refine .done _ _ _ herror fun hnone => ?_
      obtain ⟨b, hb⟩ := h hnone
      exact .of b hb rfl
  · exact hstays

/-! ## Arrays, and every event -/

theorem readStartArray_alike (h : Alike s s') :
    ReactionsAlike (readStartArray fresh s) (readStartArray fresh' s') := by
  have hfix := readFixupKey_alike fresh fresh' h
  have hpush : ReactionsAlike ((s.readFixupKey fresh).pushArray .done)
      ((s'.readFixupKey fresh').pushArray .done) :=
    pushArray_alike hfix fun t t' ops ht _ => .same ht
  obtain ⟨b, hb⟩ := h
  exact .ite (fun _ => .same (.of b hb rfl)) fun _ => hpush

theorem readEndArray_alike (h : Alike s s') : ReactionsAlike s.readEndArray s'.readEndArray := by
  have hpop : ReactionsAlike
      (s.stackPop (· = .array) .appendEnd fun t ops => .done t.finishIfEmpty ops)
      (s'.stackPop (· = .array) .appendEnd fun t ops => .done t.finishIfEmpty ops) :=
    stackPop_alike h _ rfl fun t t' ops ht => finishIfEmpty_alike ht ops
  obtain ⟨b, hb⟩ := h
  exact .ite (fun _ => .same (.of b hb rfl)) fun _ => hpop

theorem readSpecial_alike (h : Alike s s') (numNoInt numeric signed boolean null : Bool)
    (nelem : Nat) (text : Bytes) :
    ReactionsAlike (readSpecial fresh dec s numNoInt numeric signed boolean null nelem text)
      (readSpecial fresh' dec s' numNoInt numeric signed boolean null nelem text) := by
  have herror := setError_alike h
  unfold readSpecial
  refine .ite (fun _ => ?_) fun _ => ?_
  · split
    · exact herror _
    · exact readDouble_alike fresh fresh' h _
  · refine .ite (fun _ => readInteger_alike fresh fresh' h nelem _) fun _ => ?_
    refine .ite (fun _ => readBoolean_alike fresh fresh' h _) fun _ => ?_
    exact .ite (fun _ => readNull_alike fresh fresh' h) fun _ => .same h

/-- Two readers take an event alike, unless it copies a key that was not written. -/
theorem react_alike (h : Alike s s') {e : JsonEvent} (hkey : s.copiesKey e → s.KeyWritten) :
    ReactionsAlike (react fresh dec s e) (react fresh' dec s' e) := by
  cases e with
  | startMap => exact readStartMap_alike fresh fresh' h
  | endMap => exact readEndMap_alike h
  | startArray => exact readStartArray_alike fresh fresh' h
  | endArray => exact readEndArray_alike h
  | key val => exact readMapKey_alike fresh fresh' h hkey
  | string val => exact readString_alike fresh fresh' dec h val
  | special numNoInt numeric signed boolean null nelem text =>
    exact readSpecial_alike fresh fresh' dec h numNoInt numeric signed boolean null nelem text

end Callbacks

end JsonReaderBson

end LibBson.Source
