import LibBson.Source.JsonReturns

/-!
# The callbacks return

One lemma for each callback: on a steady state with its documents in place it
returns, and what it leaves is steady again. What a callback relies on beyond that
is a hypothesis of its lemma. Source: bson-json.c:544-1780.
-/

set_option autoImplicit false

namespace LibBson.Source
open LibBson.Library

namespace JsonReaderBson

variable {fresh : JsonHeap} {dec : JsonDecoders} {u : Prop} {s : JsonReaderBson} {d : JsonDocs}

/-! ## Values -/

theorem bailIfNotNormal_returns (h : s.Steady) {type : Bytes} {next : JsonReaction}
    (hnext : s.readState = .regular → 0 < s.depth → s.key.isSome → Returns fresh.document u d next) :
    Returns fresh.document u d (s.bailIfNotNormal type next) := by
  unfold bailIfNotNormal
  split
  · exact returns_error rfl
  · next hstate =>
    have hregular : s.readState = .regular := Decidable.not_not.mp hstate
    split
    · exact returns_error rfl
    · next hnone =>
      have hkey : s.key.isSome = true := by
        cases hkey : s.key with
        | none =>
          rw [hkey] at hnone
          exact absurd rfl hnone
        | some key => rfl
      exact hnext hregular (h.inside hkey hregular) hkey

/-- A scalar in a document. -/
theorem scalar_returns (h : s.Steady) (hp : d.Placed s.children) (type : Bytes) (f : Field) :
    Returns fresh.document u d (s.bailIfNotNormal type (s.append f)) :=
  bailIfNotNormal_returns h fun _ hdepth hkey => append_returns h hp hdepth hkey f

theorem readNull_returns (h : s.Steady) (hp : d.Placed s.children) :
    Returns fresh.document u d (readNull fresh.buffer s) := by
  have hfix := h.readFixupKey fresh.buffer
  rw [← hfix.children] at hp
  exact scalar_returns hfix.steady hp (ascii "null") .null

/-- A value kept in the union, in a wrapper. -/
theorem data_returns (h : s.Steady) (hp : d.Placed s.children) (hstate : s.readState ≠ .regular)
    (data : BsonJsonBsonData) : Returns fresh.document u d (quiet { s with bsonTypeData := data }) :=
  returns_same h hp ⟨rfl, fun _ => rfl, rfl, rfl, rfl, ⟨rfl, rfl, rfl⟩, rfl⟩
    (unstarted_of_state hstate)

theorem readBoolean_returns (h : s.Steady) (hp : d.Placed s.children) (val : Bool) :
    Returns fresh.document u d (readBoolean fresh.buffer s val) := by
  have hfix := h.readFixupKey fresh.buffer
  rw [← hfix.children] at hp
  unfold readBoolean
  simp only
  split
  · next hstate =>
    apply data_returns hfix.steady hp
    rw [hstate.1]
    exact fun h => (nomatch h)
  · exact scalar_returns hfix.steady hp (ascii "boolean") (.bool val)

theorem readDouble_returns (h : s.Steady) (hp : d.Placed s.children) (val : Nat) :
    Returns fresh.document u d (readDouble fresh.buffer s val) := by
  have hfix := h.readFixupKey fresh.buffer
  rw [← hfix.children] at hp
  exact scalar_returns hfix.steady hp (ascii "double") (.double val)

theorem readTimestampPart_returns (h : s.Steady) (hp : d.Placed s.children)
    (hstate : s.readState ≠ .regular) (val : Nat) (sign : Int) (has part : Nat) :
    Returns fresh.document u d (s.readTimestampPart val sign has part) := by
  unfold readTimestampPart
  split
  · exact returns_error rfl
  · exact data_returns h hp hstate _

theorem readMinMaxKey_returns (h : s.Steady) (hp : d.Placed s.children)
    (hstate : s.readState ≠ .regular) (val : Nat) (sign : Int) (offset : Nat) :
    Returns fresh.document u d (s.readMinMaxKey val sign offset) := by
  unfold readMinMaxKey
  split
  · exact returns_error rfl
  · by_cases hone : val ≠ 1
    · simp only [if_pos hone]
      exact returns_error rfl
    · simp only [if_neg hone]
      exact data_returns h hp hstate _

theorem readIntegerInType_returns (h : s.Steady) (hp : d.Placed s.children)
    (hstate : s.readState ≠ .regular) (val : Nat) (sign : Int) :
    Returns fresh.document u d (s.readIntegerInType val sign) := by
  unfold readIntegerInType
  split
  · exact data_returns h hp hstate _
  · exact readTimestampPart_returns h hp hstate val sign _ _
  · exact readTimestampPart_returns h hp hstate val sign _ _
  · exact readMinMaxKey_returns h hp hstate val sign _
  · exact readMinMaxKey_returns h hp hstate val sign _
  · exact returns_error rfl
  · exact returns_error rfl
  · exact returns_error rfl

theorem readInteger_returns (h : s.Steady) (hp : d.Placed s.children) (val : Nat) (sign : Int) :
    Returns fresh.document u d (readInteger fresh.buffer s val sign) := by
  have hfix := h.readFixupKey fresh.buffer
  rw [← hfix.children] at hp
  unfold readInteger
  simp only
  split
  · exact returns_error rfl
  · split
    · exact returns_error rfl
    · split
      · apply bailIfNotNormal_returns hfix.steady
        intro _ hdepth hkey
        split
        · exact append_returns hfix.steady hp hdepth hkey _
        · split
          · exact append_returns hfix.steady hp hdepth hkey _
          · exact append_returns hfix.steady hp hdepth hkey _
      · next hstate =>
        split
        · exact readIntegerInType_returns hfix.steady hp hstate val sign
        · exact returns_error rfl

theorem readSpecial_returns (h : s.Steady) (hp : d.Placed s.children) (hu : s.Unstarted → u)
    (numNoInt numeric signed boolean null : Bool) (nelem : Nat) (text : Bytes) :
    Returns fresh.document u d
      (readSpecial fresh.buffer dec s numNoInt numeric signed boolean null nelem text) := by
  unfold readSpecial
  split
  · split
    · exact returns_error rfl
    · exact readDouble_returns h hp _
  · split
    · exact readInteger_returns h hp nelem _
    · split
      · exact readBoolean_returns h hp _
      · split
        · exact readNull_returns h hp
        · exact returns_quiet h hp hu

/-! ## Strings -/

/-- A `$type` that is a query operator opens a child. -/
def queriesType (dec : JsonDecoders) (s : JsonReaderBson) (val : Bytes) : Prop :=
  s.bsonState = .type ∧ dec.sscanfHex (cText val) = none

theorem parseBinaryElem_returns (h : s.Steady) (hp : d.Placed s.children)
    (hstate : inWrapper s.readState = true) {val : Bytes}
    (hroom : s.queriesType dec val → s.depth < stackMax → RoomForChild d s) :
    Returns fresh.document u d (parseBinaryElem fresh.buffer dec s val) := by
  have hregular : s.readState ≠ .regular := by
    intro hregular
    rw [hregular] at hstate
    cases hstate
  obtain ⟨hdepth, hkey⟩ := h.wrapper hstate
  unfold parseBinaryElem
  rw [readFixupKey_eq fresh.buffer hregular]
  simp only
  split
  · split
    · exact returns_error rfl
    · exact returns_same h hp ⟨rfl, fun _ => rfl, rfl, rfl, rfl, ⟨rfl, rfl, rfl⟩, rfl⟩
        (unstarted_of_state hregular)
  · next hbson =>
    split
    · exact data_returns h hp hregular _
    · next hscan =>
      split
      · exact returns_error rfl
      · have hsame : SameFrames s { s with
            bsonTypeData := s.bsonTypeData.setFlag BsonJsonBsonData.binaryHasSubtype } :=
          ⟨rfl, fun _ => rfl, rfl, rfl, rfl, ⟨rfl, rfl, rfl⟩, rfl⟩
        apply pushDoc_returns ((hsame.framed h.toFramed).free .regular rfl) hp (fun _ => hkey)
          (fun _ hmax => hroom ⟨hbson, hscan⟩ hmax)
        intro s' ops d' hs' hops hplaced
        have hdepth' := hs'.depth_pos
        have hsteady := hs'.framed.steady hdepth' (by rw [hs'.key]; exact hkey)
        have hcall : Returns fresh.document u d' (.done s'
            [.append (some (ascii "$type")) 5 (.utf8 (some val) (i32 val.length)) none]) :=
          returns_call hsteady hplaced hdepth' fun n ns hn =>
            JsonDocs.append_returns hn.counted _ (ascii "$type") 5 _ none
        exact returns_after hops hcall
  · exact returns_quiet h hp (unstarted_of_state hregular)

theorem regular_of_wrapper (hstate : inWrapper s.readState = true) : s.readState ≠ .regular := by
  intro hregular
  rw [hregular] at hstate
  cases hstate

theorem readStringInType_returns (h : s.Steady) (hp : d.Placed s.children)
    (hstate : inWrapper s.readState = true) {val : Bytes}
    (hroom : s.queriesType dec val → s.depth < stackMax → RoomForChild d s) :
    Returns fresh.document u d (readStringInType fresh.buffer dec s val) := by
  have hregular := regular_of_wrapper hstate
  obtain ⟨hdepth, hkey⟩ := h.wrapper hstate
  have kept : ∀ s' : JsonReaderBson, SameFrames s s' → Returns fresh.document u d s'.quiet :=
    fun s' hsame => returns_same h hp hsame (unstarted_of_state hregular)
  unfold readStringInType
  split
  · exact kept _ ⟨rfl, fun _ => rfl, rfl, rfl, rfl, ⟨rfl, rfl, rfl⟩, rfl⟩
  · exact kept _ ⟨rfl, fun _ => rfl, rfl, rfl, rfl, ⟨rfl, rfl, rfl⟩, rfl⟩
  · exact kept _ ⟨rfl, fun _ => rfl, rfl, rfl, rfl, ⟨rfl, rfl, rfl⟩, rfl⟩
  · exact kept _ ⟨rfl, fun _ => rfl, rfl, rfl, rfl, ⟨rfl, rfl, rfl⟩, rfl⟩
  · split
    · exact returns_error rfl
    · exact data_returns h hp hregular _
  · have hsame : SameFrames s { s with
        bsonTypeData := s.bsonTypeData.setFlag BsonJsonBsonData.binaryIsLegacy } :=
      ⟨rfl, fun _ => rfl, rfl, rfl, rfl, ⟨rfl, rfl, rfl⟩, rfl⟩
    exact parseBinaryElem_returns (hsame.steady h) hp hstate hroom
  · have hsame : SameFrames s { s with
        bsonTypeData := s.bsonTypeData.setFlag BsonJsonBsonData.binaryIsLegacy } :=
      ⟨rfl, fun _ => rfl, rfl, rfl, rfl, ⟨rfl, rfl, rfl⟩, rfl⟩
    exact parseBinaryElem_returns (hsame.steady h) hp hstate hroom
  · split
    · exact returns_error rfl
    · split
      · exact returns_error rfl
      · split
        · exact data_returns h hp hregular _
        · exact returns_error rfl
  · split
    · exact returns_error rfl
    · split
      · exact data_returns h hp hregular _
      · split
        · exact data_returns h hp hregular _
        · exact returns_error rfl
  · simp only
    split
    · exact returns_error rfl
    · exact data_returns h hp hregular _
  · split
    · exact returns_error rfl
    · exact data_returns h hp hregular _
  · simp only
    split
    · exact data_returns h hp hregular _
    · exact returns_error rfl
  · exact kept _ ⟨rfl, fun _ => rfl, rfl, rfl, rfl, ⟨rfl, rfl, rfl⟩, rfl⟩
  · exact append_returns h hp hdepth hkey _
  · -- the state is set behind the append
    have hregular : Steady { s with readState := .regular } :=
      (h.toFramed.free .regular rfl).steady hdepth hkey
    unfold append
    rw [if_neg (Nat.ne_of_gt hdepth)]
    exact returns_appended hregular hp hdepth hkey (.utf8 (some val) (i32 val.length)) none
  · exact returns_error rfl

/-- The states of a wrapper that take a string. -/
def takesString : ReadState → Bool
  | .inBsonType | .inBsonTypeTimestampValues | .inBsonTypeRegexValues | .inBsonTypeBinaryValues
  | .inBsonTypeDateNumberlong => true
  | _ => false

theorem readString_returns (h : s.Steady) (hp : d.Placed s.children) {val : Bytes}
    (hroom : takesString s.readState = true → s.queriesType dec val → s.depth < stackMax →
      RoomForChild d s) :
    Returns fresh.document u d (readString fresh.buffer dec s val) := by
  have hfix := h.readFixupKey fresh.buffer
  have hsame : SameFrames s
      { s with bsonTypeBuf2 := s.bsonTypeBuf2.set (fresh.buffer .bsonTypeBuf2) val } :=
    ⟨rfl, fun _ => rfl, rfl, rfl, rfl, ⟨rfl, rfl, rfl⟩, rfl⟩
  have wrapped : ∀ rs, (readFixupKey fresh.buffer s).readState = rs → inWrapper rs = true →
      takesString rs = true → inWrapper s.readState = true ∧ takesString s.readState = true ∧
        readFixupKey fresh.buffer s = s := by
    intro rs hrs hwrapper htakes
    rw [← hrs, hfix.readState] at hwrapper htakes
    exact ⟨hwrapper, htakes, readFixupKey_eq fresh.buffer (regular_of_wrapper hwrapper)⟩
  unfold readString
  simp only
  split
  · exact returns_error rfl
  · split
    · rw [← hfix.children] at hp
      exact scalar_returns hfix.steady hp (ascii "string") _
    · exact returns_error rfl
    · exact returns_error rfl
    · next hstate =>
      obtain ⟨hwrapper, htakes, heq⟩ := wrapped _ hstate rfl rfl
      rw [heq]
      exact parseBinaryElem_returns (hsame.steady h) hp hwrapper (hroom htakes)
    · next hstate =>
      obtain ⟨hwrapper, htakes, heq⟩ := wrapped _ hstate rfl rfl
      rw [heq]
      exact readStringInType_returns (hsame.steady h) hp hwrapper (hroom htakes)
    · next hstate =>
      obtain ⟨hwrapper, htakes, heq⟩ := wrapped _ hstate rfl rfl
      rw [heq]
      exact readStringInType_returns (hsame.steady h) hp hwrapper (hroom htakes)
    · next hstate =>
      obtain ⟨hwrapper, htakes, heq⟩ := wrapped _ hstate rfl rfl
      rw [heq]
      exact readStringInType_returns (hsame.steady h) hp hwrapper (hroom htakes)
    · next hstate =>
      obtain ⟨hwrapper, htakes, heq⟩ := wrapped _ hstate rfl rfl
      rw [heq]
      exact readStringInType_returns (hsame.steady h) hp hwrapper (hroom htakes)
    · exact returns_error rfl

/-! ## The beginning of a map or an array -/

theorem readStartMap_returns (h : s.Steady) (hp : d.Placed s.children)
    (hroom : s.readState = .inBsonType → s.bsonState = .type → s.depth < stackMax →
      RoomForChild d s) :
    Returns fresh.document u d (readStartMap fresh.buffer s) := by
  have hfix := h.readFixupKey fresh.buffer
  have hframed := hfix.steady.toFramed
  rw [← hfix.children] at hp
  have wrapped : ∀ rs, (readFixupKey fresh.buffer s).readState = rs → inWrapper rs = true →
      0 < (readFixupKey fresh.buffer s).depth ∧ (readFixupKey fresh.buffer s).key.isSome = true := by
    intro rs hrs hwrapper
    rw [← hrs] at hwrapper
    exact hfix.steady.wrapper hwrapper
  have free : ∀ rs rs', (readFixupKey fresh.buffer s).readState = rs → inWrapper rs = true →
      isFree rs' = true → inWrapper rs' = true →
      Returns fresh.document u d (quiet { readFixupKey fresh.buffer s with readState := rs' }) := by
    intro rs rs' hrs hwrapper hfree hwrapper'
    obtain ⟨hdepth, hkey⟩ := wrapped rs hrs hwrapper
    exact returns_quiet ((hframed.free rs' hfree).steady hdepth hkey) hp
      (unstarted_of_state (regular_of_wrapper hwrapper'))
  unfold readStartMap
  simp only
  split
  · next hstate =>
    obtain ⟨hdepth, hkey⟩ := wrapped _ hstate rfl
    split
    · exact free _ _ hstate rfl rfl rfl
    · exact free _ _ hstate rfl rfl rfl
    · next hbson =>
      rw [hfix.readState] at hstate
      rw [readFixupKey_eq fresh.buffer (by rw [hstate]; exact fun h => (nomatch h))] at *
      apply pushDoc_returns (hframed.free .inStartMap rfl) hp (fun _ => hkey)
        (fun _ hmax => hroom hstate hbson hmax)
      intro s' ops d' hs' hops hplaced
      have hdepth' : 0 < (s'.saveMapKey fresh.buffer (ascii "$type")).depth := hs'.depth_pos
      have hshort : (ascii "$type").length < 9223372036854775808 := by decide
      refine ⟨_, ops, d', none, rfl, hops, fun _ _ => ⟨?_, hplaced, unstarted_of_depth hdepth'⟩⟩
      exact (hs'.framed.saveMapKey fresh.buffer hshort).steady hdepth' rfl
    · exact returns_quiet hfix.steady hp
        (unstarted_of_state (by rw [hstate]; exact fun h => (nomatch h)))
  · next hstate => exact free _ _ hstate rfl rfl rfl
  · next hstate =>
    obtain ⟨hdepth, hkey⟩ := wrapped _ hstate rfl
    have hscope := hframed.scopeSeen (Or.inl hstate)
    have hnext := (hframed.withState .inScope
      (fun h => h.elim (fun h => (nomatch h)) fun h => (nomatch h)) fun _ => hscope).steady hdepth hkey
    exact returns_quiet hnext hp (unstarted_of_state fun h => (nomatch h))
  · next hstate =>
    obtain ⟨hdepth, hkey⟩ := wrapped _ hstate rfl
    have hpointer := hframed.pointer (Or.inl hstate)
    have hnext := (hframed.withState .inDbpointer (fun _ => hpointer)
      fun h => h.elim (fun h => (nomatch h)) fun h => (nomatch h)).steady hdepth hkey
    exact returns_quiet hnext hp (unstarted_of_state fun h => (nomatch h))
  · next hstate => exact free _ _ hstate rfl rfl rfl
  · -- any other state is left for that of a map
    refine returns_quiet ⟨hframed.free .inStartMap rfl, fun _ => Or.inl rfl, fun hdepth => Or.inl ?_⟩ hp
      (unstarted_of_state fun h => (nomatch h))
    rw [hfix.depth] at hdepth
    exact hfix.key hdepth

theorem readStartArray_returns (h : s.Steady) (hp : d.Placed s.children)
    (hroom : s.readState = .regular → 0 < s.depth → s.depth < stackMax →
      RoomForChild d (readFixupKey fresh.buffer s)) :
    Returns fresh.document u d (readStartArray fresh.buffer s) := by
  have hfix := h.readFixupKey fresh.buffer
  unfold readStartArray
  split
  · exact returns_error rfl
  · next hstate =>
    have hregular : s.readState = .regular := Decidable.not_not.mp hstate
    rw [← hfix.children] at hp
    rw [← hfix.depth] at hroom
    apply pushArray_returns hfix.steady.toFramed hp (fun hdepth => hfix.key (hfix.depth ▸ hdepth))
      (hroom hregular)
    intro s' ops d' hs' hops hplaced
    have hdepth' := hs'.depth_pos
    refine ⟨s', ops, d', none, rfl, hops, fun _ _ => ⟨?_, hplaced, unstarted_of_depth hdepth'⟩⟩
    refine ⟨hs'.framed, fun hzero => absurd hzero (Nat.ne_of_gt hdepth'), fun _ => ?_⟩
    by_cases hzero : s.depth = 0
    · right
      refine ⟨?_, hs'.top, ?_⟩
      · rw [hs'.depth, hfix.depth, hzero]
      · rw [hs'.readState, hfix.readState, hregular]
    · left
      rw [hs'.key]
      exact hfix.key (Nat.pos_of_ne_zero hzero)

/-! ## Keys -/

theorem Steady.saved (h : s.Steady) {val : Bytes} (hval : val.length < 9223372036854775808)
    (hstarted : ¬ s.Unstarted) : (s.saveMapKey fresh.buffer val).Steady := by
  refine ⟨h.toFramed.saveMapKey fresh.buffer hval, fun hzero => ?_, fun _ => Or.inl rfl⟩
  rcases h.outside hzero with hmap | hdone | ⟨hregular, -⟩
  · exact Or.inl hmap
  · exact Or.inr (Or.inl hdone)
  · exact absurd ⟨hzero, hregular⟩ hstarted

theorem readPlainKey_returns {val : Bytes} (h : (s.saveMapKey fresh.buffer val).Steady)
    (hp : d.Placed s.children) (hstarted : ¬ s.Unstarted) :
    Returns fresh.document u d (readPlainKey fresh.buffer s val).quiet := by
  have hu : (s.saveMapKey fresh.buffer val).Unstarted → u := fun hstart => absurd hstart hstarted
  unfold readPlainKey
  simp only
  split
  · next hdeep =>
    have hdepth : 0 < (s.saveMapKey fresh.buffer val).depth := Nat.lt_of_succ_lt hdeep
    split
    · have hsame : SameFrames (s.saveMapKey fresh.buffer val) ((s.saveMapKey fresh.buffer val).setTop
          { (s.saveMapKey fresh.buffer val).top with hasRef := true }) := sameFrames_setTop rfl
      have hframed := (hsame.framed h.toFramed).free .inBsonType rfl
      have hnext : Framed { (s.saveMapKey fresh.buffer val).setTop
          { (s.saveMapKey fresh.buffer val).top with hasRef := true } with
          readState := .inBsonType, bsonState := .dbref } := hframed.typed _ _ _ _
      apply returns_quiet (hnext.steady hdepth rfl) _ (unstarted_of_depth hdepth)
      exact hsame.children ▸ hp
    · split
      · have hsame : SameFrames (s.saveMapKey fresh.buffer val) ((s.saveMapKey fresh.buffer val).setTop
            { (s.saveMapKey fresh.buffer val).top with hasId := true }) := sameFrames_setTop rfl
        exact returns_same h hp hsame hu
      · split
        · have hframed := h.toFramed.free .inBsonType rfl
          have hnext : Framed { s.saveMapKey fresh.buffer val with
              readState := .inBsonType, bsonState := .dbref } := hframed.typed _ _ _ _
          exact returns_quiet (hnext.steady hdepth rfl) hp (unstarted_of_depth hdepth)
        · exact returns_quiet h hp hu
  · exact returns_quiet h hp hu

theorem handleOption_returns (h : s.Steady) (hp : d.Placed s.children)
    (hstate : s.readState ≠ .regular) (val : Bytes) (options : List (Bytes × BsonType × BsonState))
    {otherwise : JsonReaction} (hotherwise : Returns fresh.document u d otherwise) :
    Returns fresh.document u d (s.handleOption val options otherwise) := by
  unfold handleOption
  split
  · split
    · exact returns_error rfl
    · exact returns_same h hp ⟨rfl, fun _ => rfl, rfl, rfl, rfl, ⟨rfl, rfl, rfl⟩, rfl⟩
        (unstarted_of_state hstate)
  · exact hotherwise

/-- The key of a code is saved with a NUL behind it. -/
theorem parked_nBytes (h : s.Framed) (fresh : Nat → Mem) :
    (if s.codeData.keyBuf.len = 0 then
      { s.codeData with keyBuf := s.codeData.keyBuf.set fresh s.keyBuf.text }
      else s.codeData).keyBuf.nBytes ≠ 0 := by
  split
  · have hset := JsonBuf.set_spec fresh s.codeData.keyBuf s.keyBuf.text
      (by rw [JsonBuf.text_length]; exact h.short)
    exact Nat.ne_of_gt (Nat.zero_lt_of_lt hset.2.2)
  · next hlen => exact h.parked (Or.inr (Or.inr hlen))

theorem readCodeOrScopeKey_returns (h : s.Steady) (hp : d.Placed s.children)
    (hstate : s.readState = .inBsonType) (isScope : Bool) {val : Bytes}
    (hval : val.length < 9223372036854775808)
    (hroom : s.codeData.inScope = true → s.depth < stackMax → RoomForChild d s) :
    Returns fresh.document u d (readCodeOrScopeKey fresh.buffer s isScope val) := by
  obtain ⟨hdepth, hkey⟩ := h.wrapper (by rw [hstate]; rfl)
  have hparked := parked_nBytes h.toFramed (fresh.buffer .codeKeyBuf)
  unfold readCodeOrScopeKey
  split
  · next hin =>
    apply pushDoc_returns (h.toFramed.free .regular rfl) hp (fun _ => hkey) fun _ => hroom hin
    intro s' ops d' hs' hops hplaced
    have hdepth' : 0 < (s'.saveMapKey fresh.buffer val).depth := hs'.depth_pos
    refine ⟨_, ops, d', none, rfl, hops, fun _ _ => ⟨?_, hplaced, unstarted_of_depth hdepth'⟩⟩
    exact (hs'.framed.saveMapKey fresh.buffer hval).steady hdepth' rfl
  · simp only
    generalize (if s.codeData.keyBuf.len = 0 then
      { s.codeData with keyBuf := s.codeData.keyBuf.set (fresh.buffer .codeKeyBuf) s.keyBuf.text }
      else s.codeData) = code at hparked
    split
    · have hframed : Framed { s with
          bsonType := .codewscope
          readState := .inBsonTypeScopeStartmap
          bsonState := .scope
          codeData := { code with hasScope := true } } := by
        refine ⟨h.bottom, fun hpointer => h.pointer ?_, fun _ => rfl, fun _ => hparked, h.short⟩
        rcases hpointer with hstart | hin | hframe
        · cases hstart
        · cases hin
        · exact Or.inr (Or.inr hframe)
      exact returns_quiet (hframed.steady hdepth hkey) hp (unstarted_of_depth hdepth)
    · have hframed : Framed { s with
          bsonType := .code
          bsonState := .code
          codeData := { code with hasCode := true } } := by
        refine ⟨h.bottom, h.pointer, fun hscope => ?_, fun _ => hparked, h.short⟩
        have hnone : ¬ (s.readState = .inBsonTypeScopeStartmap ∨ s.readState = .inScope) := by
          rw [hstate]
          exact fun h => h.elim (fun h => (nomatch h)) fun h => (nomatch h)
        exact absurd hscope hnone
      exact returns_quiet (hframed.steady hdepth hkey) hp (unstarted_of_depth hdepth)

/-- The key opens a child: it is `$code` or `$scope` inside a scope. -/
def opensCode (s : JsonReaderBson) (val : Bytes) : Prop :=
  s.codeData.inScope = true ∧ (cText val = ascii "$code" ∨ cText val = ascii "$scope")

theorem readKeyInType_returns (h : s.Steady) (hp : d.Placed s.children)
    (hstate : s.readState = .inBsonType) {val : Bytes} (hval : val.length < 9223372036854775808)
    (hroom : s.opensCode val → s.depth < stackMax → RoomForChild d s) :
    Returns fresh.document u d (readKeyInType fresh.buffer s val) := by
  have hregular : s.readState ≠ .regular := by
    rw [hstate]
    exact fun h => (nomatch h)
  obtain ⟨hdepth, hkey⟩ := h.wrapper (by rw [hstate]; rfl)
  have free : ∀ (type : BsonType) (rs : ReadState), isFree rs = true →
      Returns fresh.document u d (quiet { s with bsonType := type, readState := rs }) := by
    intro type rs hfree
    have hframed := h.toFramed.free rs hfree
    have hnext : Framed { s with bsonType := type, readState := rs } := hframed.typed _ _ _ _
    exact returns_quiet (hnext.steady hdepth hkey) hp (unstarted_of_depth hdepth)
  unfold readKeyInType
  apply handleOption_returns h hp hregular
  split
  · exact free _ _ rfl
  · split
    · exact free _ _ rfl
    · split
      · have hset := JsonBuf.set_spec (fresh.buffer .dbpointerKey) s.dbpointerKey s.keyBuf.text
          (by rw [JsonBuf.text_length]; exact h.short)
        have hnext : Framed { s with
            dbpointerKey := s.dbpointerKey.set (fresh.buffer .dbpointerKey) s.keyBuf.text
            bsonType := .dbpointer
            readState := .inBsonTypeDbpointerStartmap } :=
          ⟨h.bottom, fun _ => Nat.ne_of_gt (Nat.zero_lt_of_lt hset.2.2),
            fun hscope => hscope.elim (fun h => (nomatch h)) fun h => (nomatch h), h.parked, h.short⟩
        exact returns_quiet (hnext.steady hdepth hkey) hp (unstarted_of_depth hdepth)
      · split
        · next hcode =>
          exact readCodeOrScopeKey_returns h hp hstate false hval
            fun hin => hroom ⟨hin, Or.inl hcode⟩
        · split
          · next hscope =>
            exact readCodeOrScopeKey_returns h hp hstate true hval
              fun hin => hroom ⟨hin, Or.inr hscope⟩
          · exact returns_error rfl

theorem readKeyInState_returns (h : s.Steady) (hp : d.Placed s.children) {val : Bytes}
    (hval : val.length < 9223372036854775808) (hstarted : ¬ s.Unstarted)
    (hroom : s.readState = .inBsonType → s.opensCode val → s.depth < stackMax →
      RoomForChild d s) :
    Returns fresh.document u d (readKeyInState fresh.buffer s val) := by
  have option : ∀ rs, s.readState = rs → inWrapper rs = true →
      ∀ options, Returns fresh.document u d (s.handleOption val options (s.badKeyInType val)) := by
    intro rs hrs hwrapper options
    rw [← hrs] at hwrapper
    exact handleOption_returns h hp (regular_of_wrapper hwrapper) val options (returns_error rfl)
  unfold readKeyInState
  split
  · next hstate => exact readKeyInType_returns h hp hstate hval (hroom hstate)
  · next hstate => exact option _ hstate rfl _
  · next hstate => exact option _ hstate rfl _
  · next hstate => exact option _ hstate rfl _
  · next hstate => exact option _ hstate rfl _
  · exact readPlainKey_returns (h.saved hval hstarted) hp hstarted

/-- A key in a state in which it is stored as one. -/
theorem readKeyInState_regular (hstate : s.readState = .regular) (val : Bytes) :
    readKeyInState fresh.buffer s val = (readPlainKey fresh.buffer s val).quiet := by
  unfold readKeyInState
  rw [hstate]

/-- The first key of a frame that has just been pushed. -/
theorem firstKey_returns (h : s.Framed) (hdepth : 0 < s.depth) (hstate : s.readState = .regular)
    (hp : d.Placed s.children) {val : Bytes} (hval : val.length < 9223372036854775808) :
    Returns fresh.document u d (readKeyInState fresh.buffer s val) := by
  rw [readKeyInState_regular hstate]
  exact readPlainKey_returns ((h.saveMapKey fresh.buffer hval).steady hdepth rfl) hp
    fun hstart => Nat.ne_of_gt hdepth hstart.1

theorem readMapKey_returns (h : s.Steady) (hp : d.Placed s.children) {val : Bytes}
    (hval : val.length < 9223372036854775808) (hstarted : ¬ s.Unstarted)
    (hroom : s.readState = .inStartMap ∧ isKnownKey val = false ∨
        (s.readState = .inBsonType ∨ s.readState = .inStartMap) ∧ s.opensCode val →
      0 < s.depth → s.depth < stackMax → RoomForChild d s) :
    Returns fresh.document u d (readMapKey fresh.buffer s val) := by
  unfold readMapKey
  split
  · exact returns_error rfl
  · split
    · next hstate =>
      have hkeyed : 0 < s.depth → s.key.isSome := by
        intro hdepth
        rcases h.keyed hdepth with hkey | ⟨-, -, hregular⟩
        · exact hkey
        · rw [hstate] at hregular
          cases hregular
      split
      · next hknown =>
        have hframed := h.toFramed.free .inBsonType rfl
        have hnext : Framed { s with
            readState := .inBsonType, bsonType := .eod, bsonTypeData := fun _ => 0 } :=
          hframed.typed _ _ _ _
        have hdepth : 0 < s.depth := hknown.2
        exact readKeyInState_returns (hnext.steady hdepth (hkeyed hdepth)) hp hval
          (fun hstart => (nomatch hstart.2))
          fun _ hcode => hroom (Or.inr ⟨Or.inr hstate, hcode⟩) hdepth
      · next hknown =>
        apply pushDoc_returns (h.toFramed.free .regular rfl) hp hkeyed
        · intro hdepth hmax
          have hunknown : isKnownKey val = false := by
            cases hk : isKnownKey val with
            | false => rfl
            | true => exact absurd ⟨hk, hdepth⟩ hknown
          exact hroom (Or.inl ⟨hstate, hunknown⟩) hdepth hmax
        · intro s' ops d' hs' hops hplaced
          exact returns_after hops
            (firstKey_returns hs'.framed hs'.depth_pos hs'.readState hplaced hval)
    · next hstate =>
      obtain ⟨hdepth, hkey⟩ := h.wrapper (by rw [hstate]; rfl)
      apply pushScope_returns (h.toFramed.free .regular rfl) hp hdepth hkey
      intro s' ops d' hs' hops hplaced
      exact returns_after hops (firstKey_returns (hs'.framed.saveMapKey fresh.buffer hval) hs'.depth_pos
        hs'.readState hplaced hval)
    · next hstate =>
      obtain ⟨hdepth, hkey⟩ := h.wrapper (by rw [hstate]; rfl)
      have hpointer := h.pointer (Or.inr (Or.inl hstate))
      apply pushDbpointer_returns (h.toFramed.free .regular rfl) hp hdepth hkey hpointer
      intro s' ops d' hs' hops hplaced
      exact returns_after hops (firstKey_returns (hs'.framed.saveMapKey fresh.buffer hval) hs'.depth_pos
        hs'.readState hplaced hval)
    · exact readKeyInState_returns h hp hval hstarted fun hstate hcode hmax =>
        hroom (Or.inr ⟨Or.inl hstate, hcode⟩) (h.wrapper (by rw [hstate]; rfl)).1 hmax

/-! ## The end of a map -/

/-- The code of a wrapper that ends is complete, and its scope is a document. -/
def CodeComplete (d : JsonDocs) (s : JsonReaderBson) : Prop :=
  s.codeData.inScope = false ∧ (s.codeData.hasCode = true →
    s.codeData.codeBuf.nBytes ≠ 0 ∧
      (s.codeData.hasScope = true → ∃ c, d.left s.depth = .document c))

theorem pointer_some {b : JsonBuf} (h : b.nBytes ≠ 0) : b.pointer = some b.text := if_neg h

theorem readAppendCode_returns (h : s.Steady) (hp : d.Placed s.children) (hdepth : 0 < s.depth)
    (hkey : s.key.isSome) (hstate : s.readState = .regular) (hcode : CodeComplete d s) :
    Returns fresh.document u d s.readAppendCode := by
  obtain ⟨hin, hcomplete⟩ := hcode
  have hframed : Framed { s with
      codeData :=
        { s.codeData with
          keyBuf := { s.codeData.keyBuf with len := 0 }
          hasCode := false
          hasScope := false } } := by
    refine ⟨h.bottom, h.pointer, fun hscope => ?_, fun hparked => ?_, h.short⟩
    · rcases hscope with hscope | hscope <;> rw [hstate] at hscope <;> cases hscope
    · rcases hparked with hcode | hscope | hlen
      · cases hcode
      · cases hscope
      · exact absurd rfl hlen
  unfold readAppendCode
  simp only
  rw [if_neg (by rw [hin]; exact Bool.false_ne_true)]
  split
  · exact returns_error rfl
  · next hhas =>
    rw [Bool.not_eq_false] at hhas
    obtain ⟨hbuf, hscope⟩ := hcomplete hhas
    rw [if_neg (Nat.ne_of_gt hdepth), pointer_some (h.parked (Or.inl hhas)), pointer_some hbuf]
    apply returns_call (hframed.steady hdepth hkey) hp hdepth
    intro n ns hn
    apply JsonDocs.appendCode_returns hn
    intro slot hslot
    split at hslot
    · next hseen =>
      cases hslot
      exact hscope hseen
    · cases hslot

theorem readAppendRegex_returns (h : s.Steady) (hp : d.Placed s.children) (hdepth : 0 < s.depth)
    (hkey : s.key.isSome) : Returns fresh.document u d s.readAppendRegex := by
  unfold readAppendRegex
  simp only
  split
  · exact returns_error rfl
  · split
    · exact returns_error rfl
    · exact appendOr_returns h hp hdepth hkey _ _

theorem readAppendBinary_returns (h : s.Steady) (hp : d.Placed s.children) (hdepth : 0 < s.depth)
    (hkey : s.key.isSome) : Returns fresh.document u d s.readAppendBinary := by
  unfold readAppendBinary
  simp only
  split
  · exact returns_error rfl
  · split
    · exact returns_error rfl
    · exact appendOr_returns h hp hdepth hkey _ _

theorem readAppendTimestamp_returns (h : s.Steady) (hp : d.Placed s.children)
    (hdepth : 0 < s.depth) (hkey : s.key.isSome) : Returns fresh.document u d s.readAppendTimestamp := by
  unfold readAppendTimestamp
  simp only
  split
  · exact returns_error rfl
  · split
    · exact returns_error rfl
    · exact append_returns h hp hdepth hkey _

theorem appendWrapped_returns (h : s.Steady) (hp : d.Placed s.children) (hdepth : 0 < s.depth)
    (hkey : s.key.isSome) (hstate : s.readState = .regular)
    (hcode : s.bsonType = .code ∨ s.bsonType = .codewscope → CodeComplete d s) :
    Returns fresh.document u d s.appendWrapped := by
  unfold appendWrapped
  simp only
  split
  · exact readAppendRegex_returns h hp hdepth hkey
  · next htype => exact readAppendCode_returns h hp hdepth hkey hstate (hcode (Or.inl htype))
  · next htype => exact readAppendCode_returns h hp hdepth hkey hstate (hcode (Or.inr htype))
  · exact appendOr_returns h hp hdepth hkey _ _
  · exact readAppendBinary_returns h hp hdepth hkey
  · exact appendOr_returns h hp hdepth hkey _ _
  · exact append_returns h hp hdepth hkey _
  · exact append_returns h hp hdepth hkey _
  · exact append_returns h hp hdepth hkey _
  · exact append_returns h hp hdepth hkey _
  · exact append_returns h hp hdepth hkey _
  · exact append_returns h hp hdepth hkey _
  · exact append_returns h hp hdepth hkey _
  · exact returns_error rfl
  · exact returns_quiet h hp (unstarted_of_depth hdepth)
  · exact returns_error rfl

/-- A scope that is popped, and its document left in its slot. -/
theorem popScope_returns {d0 : JsonDocs}
    {next : JsonReaderBson → List JsonDocOp → JsonReaction} (h : s.Framed)
    (hp : d.Placed s.children) (hdepth : 0 < s.depth) (htop : s.top.type = .scope)
    (hnext : ∀ s' ops d', s'.depth = s.depth - 1 → s'.readState = s.readState → s'.key = s.key →
      s'.Framed → d.execAll fresh.document ops = .ok (d', none) → d'.Placed s'.children →
      Returns fresh.document u d0 (next s' ops)) :
    Returns fresh.document u d0 (s.popScope next) := by
  apply stackPop_returns hp hdepth (by rw [htop]; rfl)
  · intro n ns
    rw [htop]
    exact leave_statement _ (Or.inl rfl) n ns
  · intro ops d' hops hplaced
    exact hnext _ ops d' rfl rfl rfl (h.popped.scoped false) hops hplaced

theorem endRegularMap_returns (h : s.Framed) (hp : d.Placed s.children) (hdepth : 0 < s.depth)
    (hkey : 1 < s.depth → s.key.isSome) (harray : s.top.type = .array → s.Steady) :
    Returns fresh.document u d s.endRegularMap := by
  unfold endRegularMap
  split
  · next htop =>
    have hdeep := h.above hdepth (Or.inl htop)
    have hframed := h.free .inBsonType rfl
    have hnext : Framed { s with readState := .inBsonType, bsonType := .code } :=
      hframed.typed _ _ _ _
    apply popScope_returns hnext hp hdepth htop
    intro s' ops d' _ _ hkey' hframed' hops hplaced
    apply finish_returns hframed' hops hplaced
    intro _
    rw [hkey']
    exact hkey hdeep
  · next htop =>
    have hdeep := h.above hdepth (Or.inr htop)
    have hpointer := h.pointer (Or.inr (Or.inr ⟨s.depth - 1, by omega, htop⟩))
    have hframed := h.withState .inBsonTypeDbpointerStartmap (fun _ => hpointer)
      fun h => h.elim (fun h => (nomatch h)) fun h => (nomatch h)
    simp only
    refine stackPop_returns (s := { s with readState := .inBsonTypeDbpointerStartmap }) hp hdepth
      ?_ ?_ ?_
    · show decide (s.top.type ≠ .array) = true
      rw [htop]
      rfl
    · intro n ns hn
      refine leave_statement _ (Or.inr rfl) n ns ?_
      rw [← htop]
      exact hn
    · intro ops d' hops hplaced
      exact finish_returns hframed.popped hops hplaced fun _ => hkey hdeep
  · next hscope hdbpointer =>
    simp only
    generalize hs' : (if s.top.hasId ≠ s.top.hasRef then
      s.setError [ascii "DBRef object must have both $ref and $id keys"] else s) = s'
    have hsame : s'.depth = s.depth ∧ s'.stack = s.stack ∧ s'.key = s.key ∧ s'.Framed ∧
        (s' = s ∨ s'.error.isSome = true) := by
      rw [← hs']
      split
      · have hframed := h.free .error rfl
        exact ⟨rfl, rfl, rfl, hframed.typed _ _ _ _, Or.inr rfl⟩
      · exact ⟨rfl, rfl, rfl, h, Or.inl rfl⟩
    obtain ⟨hdepth', hstack, hkey', hframed, hcases⟩ := hsame
    have htop : s'.top.type = s.top.type := by
      unfold top
      rw [hdepth', hstack]
    have hp' : d.Placed s'.children := by
      unfold children
      rw [hdepth', hstack]
      exact hp
    rw [← htop] at hscope hdbpointer
    cases htype : s'.top.type with
    | scope => exact absurd htype hscope
    | dbpointer => exact absurd htype hdbpointer
    | array =>
      have hrefused : decide (s'.top.type ≠ .array) = false ∨ s'.depth = 0 := by
        rw [htype]
        exact Or.inl rfl
      unfold stackPop
      rw [if_pos hrefused]
      rcases hcases with rfl | herror
      · exact returns_quiet (harray htype) hp (unstarted_of_depth hdepth)
      · exact returns_error herror
    | doc =>
      refine stackPop_returns hp' (hdepth'.symm ▸ hdepth) ?_ ?_ ?_
      · rw [htype]
        rfl
      · intro n ns hn
        refine end_statement (Or.inl rfl) n ns ?_
        rw [← htype]
        exact hn
      · intro ops d' hops hplaced
        apply finish_returns hframed.popped hops hplaced
        intro hpos
        have hpos : 0 < s'.depth - 1 := hpos
        show s'.key.isSome = true
        rw [hkey']
        exact hkey (by omega)

theorem endInnerMap_returns (h : s.Steady) (hstate : inWrapper s.readState = true)
    (state : ReadState) {append : JsonReaderBson → JsonReaction}
    (happend : 0 < s.depth → s.key.isSome →
      Returns fresh.document u d (append { s with readState := state })) :
    Returns fresh.document u d (s.endInnerMap state append) := by
  obtain ⟨hdepth, hkey⟩ := h.wrapper hstate
  unfold endInnerMap
  split
  · exact returns_error rfl
  · exact happend hdepth hkey

/-- An empty scope is pushed and popped. -/
theorem emptyScope_returns (h : s.Steady) (hp : d.Placed s.children)
    (hstate : s.readState = .inScope) :
    Returns fresh.document u d (s.pushScope fun s ops => s.popScope fun s more =>
      .done { s with readState := .inBsonType, bsonType := .code } (ops ++ more)) := by
  obtain ⟨hdepth, hkey⟩ := h.wrapper (by rw [hstate]; rfl)
  apply pushScope_returns h.toFramed hp hdepth hkey
  intro s' ops d' hs' hops hplaced
  apply popScope_returns hs'.framed hplaced hs'.depth_pos hs'.top
  intro s1 more d1 hdepth1 _ hkey1 hframed1 hmore hplaced1
  have hdepth2 : 0 < s1.depth := by
    rw [hdepth1, hs'.depth]
    omega
  have hframed := hframed1.free .inBsonType rfl
  have hnext : Framed { s1 with readState := .inBsonType, bsonType := .code } :=
    hframed.typed _ _ _ _
  refine ⟨_, ops ++ more, d1, none, rfl, (execAll_append fresh.document hops more).trans hmore,
    fun _ _ => ⟨hnext.steady hdepth2 ?_, hplaced1, unstarted_of_depth hdepth2⟩⟩
  show s1.key.isSome = true
  rw [hkey1, hs'.key]
  exact hkey

theorem endMapInState_returns (h : s.Steady) (hp : d.Placed s.children) (hstarted : ¬ s.Unstarted)
    (hcode : s.readState = .inBsonType → s.bsonType = .code ∨ s.bsonType = .codewscope →
      CodeComplete d s) :
    Returns fresh.document u d s.endMapInState := by
  have hframed := h.toFramed
  have freed : ∀ rs rs', s.readState = rs → inWrapper rs = true → isFree rs' = true →
      Steady { s with readState := rs' } := by
    intro rs rs' hrs hwrapper hfree
    rw [← hrs] at hwrapper
    obtain ⟨hdepth, hkey⟩ := h.wrapper hwrapper
    exact (hframed.free rs' hfree).steady hdepth hkey
  have closed : ∀ rs, s.readState = rs → inWrapper rs = true →
      Returns fresh.document u d (quiet { s with readState := .regular }) := by
    intro rs hrs hwrapper
    have hsteady := freed rs .regular hrs hwrapper rfl
    rw [← hrs] at hwrapper
    exact returns_quiet hsteady hp (unstarted_of_depth (h.wrapper hwrapper).1)
  unfold endMapInState
  split
  · next hstate =>
    have hregular := freed _ .regular hstate rfl rfl
    obtain ⟨hdepth, hkey⟩ := h.wrapper (by rw [hstate]; rfl)
    split
    · exact returns_error rfl
    · exact appendWrapped_returns hregular hp hdepth hkey rfl (hcode hstate)
  · next hstate =>
    exact endInnerMap_returns h (by rw [hstate]; rfl) _ fun hdepth hkey =>
      readAppendTimestamp_returns (freed _ _ hstate rfl rfl) hp hdepth hkey
  · next hstate =>
    exact endInnerMap_returns h (by rw [hstate]; rfl) _ fun hdepth hkey =>
      readAppendRegex_returns (freed _ _ hstate rfl rfl) hp hdepth hkey
  · next hstate =>
    exact endInnerMap_returns h (by rw [hstate]; rfl) _ fun hdepth hkey =>
      readAppendBinary_returns (freed _ _ hstate rfl rfl) hp hdepth hkey
  · next hstate =>
    exact endInnerMap_returns h (by rw [hstate]; rfl) _ fun hdepth hkey =>
      appendOr_returns (freed _ .inBsonTypeDateEndmap hstate rfl rfl) hp hdepth hkey _ _
  · next hstate => exact closed _ hstate rfl
  · next hstate => exact closed _ hstate rfl
  · next hstate => exact closed _ hstate rfl
  · next hstate => exact closed _ hstate rfl
  · next hstate =>
    have hdepth : 0 < s.depth := Nat.pos_of_ne_zero fun hzero => hstarted ⟨hzero, hstate⟩
    apply endRegularMap_returns hframed hp hdepth _ fun _ => h
    intro hdeep
    rcases h.keyed hdepth with hkey | ⟨hone, -, -⟩
    · exact hkey
    · exact absurd hone (Nat.ne_of_gt hdeep)
  · next hstate =>
    rw [if_neg (by rw [hframed.scopeSeen (Or.inr hstate)]; exact fun h => (nomatch h))]
    exact emptyScope_returns h hp hstate
  · exact returns_error rfl
  · exact returns_error rfl

theorem readEndMap_returns (h : s.Steady) (hp : d.Placed s.children) (hstarted : ¬ s.Unstarted)
    (hcode : s.readState = .inBsonType → s.bsonType = .code ∨ s.bsonType = .codewscope →
      CodeComplete d s)
    (hleft : s.readState = .inBsonTypeDbpointerStartmap → d.left s.depth ≠ .unusable)
    (hroom : s.readState = .inStartMap → 0 < s.depth → s.depth < stackMax → RoomForChild d s) :
    Returns fresh.document u d s.readEndMap := by
  unfold readEndMap
  split
  · next hstate =>
    have hkeyed : 0 < s.depth → s.key.isSome := by
      intro hdepth
      rcases h.keyed hdepth with hkey | ⟨-, -, hregular⟩
      · exact hkey
      · rw [hstate] at hregular
        cases hregular
    apply pushDoc_returns (h.toFramed.free .regular rfl) hp hkeyed (hroom hstate)
    intro s' ops d' hs' hops hplaced
    apply returns_after hops
    have hend : s'.endMapInState = s'.endRegularMap := by
      unfold endMapInState
      rw [hs'.readState]
    rw [hend]
    apply endRegularMap_returns hs'.framed hplaced hs'.depth_pos
    · intro hdeep
      rw [hs'.depth] at hdeep
      rw [hs'.key]
      exact hkeyed (Nat.lt_of_succ_lt_succ hdeep)
    · intro htop
      rw [hs'.top] at htop
      cases htop
  · next hstate =>
    obtain ⟨hdepth, hkey⟩ := h.wrapper (by rw [hstate]; rfl)
    apply pushScope_returns (h.toFramed.free .regular rfl) hp hdepth hkey
    intro s' ops d' hs' hops hplaced
    apply returns_after hops
    have hend : s'.endMapInState = s'.endRegularMap := by
      unfold endMapInState
      rw [hs'.readState]
    rw [hend]
    apply endRegularMap_returns hs'.framed hplaced hs'.depth_pos
    · intro _
      rw [hs'.key]
      exact hkey
    · intro htop
      rw [hs'.top] at htop
      cases htop
  · next hstate =>
    obtain ⟨hdepth, hkey⟩ := h.wrapper (by rw [hstate]; rfl)
    have hpointer := h.pointer (Or.inl hstate)
    have hregular : Steady { s with readState := .regular } :=
      (h.toFramed.free .regular rfl).steady hdepth hkey
    unfold readAppendDbpointer
    rw [if_neg hpointer, if_neg (Nat.ne_of_gt hdepth), pointer_some hpointer]
    exact returns_call hregular hp hdepth fun n ns hn =>
      JsonDocs.appendDbpointer_returns hn _ _ (hleft hstate)
  · exact endMapInState_returns h hp hstarted hcode

theorem readEndArray_returns (h : s.Steady) (hp : d.Placed s.children) (hu : s.Unstarted → u) :
    Returns fresh.document u d s.readEndArray := by
  unfold readEndArray
  split
  · exact returns_error rfl
  · by_cases hpop : s.top.type = .array ∧ 0 < s.depth
    · obtain ⟨htop, hdepth⟩ := hpop
      refine stackPop_returns hp hdepth ?_ ?_ ?_
      · rw [htop]
        rfl
      · intro n ns hn
        refine end_statement (Or.inr rfl) n ns ?_
        rw [← htop]
        exact hn
      · intro ops d' hops hplaced
        apply finish_returns h.toFramed.popped hops hplaced
        intro hpos
        have hpos : 0 < s.depth - 1 := hpos
        rcases h.keyed hdepth with hkey | ⟨hone, -, -⟩
        · exact hkey
        · omega
    · have hrefused : decide (s.top.type = .array) = false ∨ s.depth = 0 := by
        rw [decide_eq_false_iff_not]
        by_cases htop : s.top.type = .array
        · right
          exact Nat.eq_zero_of_not_pos fun hdepth => hpop ⟨htop, hdepth⟩
        · exact Or.inl htop
      unfold stackPop
      rw [if_pos hrefused]
      exact returns_quiet h hp hu

end JsonReaderBson

end LibBson.Source
