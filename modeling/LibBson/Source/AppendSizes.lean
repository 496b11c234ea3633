import LibBson.Source.AppendLaws

/-!
# Element sizes

The size of what each append function appends, over unbounded integers and from
its arguments alone, and how the pairs and the declared total relate to it.
Source: bson.c:433-505, 752-1958.
-/

set_option autoImplicit false

namespace LibBson.Source
open LibBson.Library

/-- The octets of a key argument. -/
def keySize (key : Bytes) (keyLength : Int) : Nat :=
  if keyLength < 0 then u32 (strlen key) else ofInt32 keyLength

/-- A C string with its NUL. -/
def cStringSize (s : Bytes) : Nat := u32 (strlen s + 1)

def textSize (s : Bytes) (length : Int) : Nat := keySize s length

def valueSize : Field → Nat
  | .array a => a.len
  | .binary subtype _ length => (if subtype = subtypeBinaryDeprecated then 9 else 5) + length
  | .bool _ => 1
  | .code j => 4 + cStringSize j
  | .codeWithScope j none => 4 + cStringSize j
  | .codeWithScope j (some scope) => 8 + cStringSize j + scope.len
  | .dbpointer c _ => 4 + cStringSize c + 12
  | .document v => v.len
  | .decimal128 .. => 16
  | .int32 _ => 4
  | .oid _ => 12
  | .double _ | .int64 _ | .timestamp .. | .dateTime _ | .timeval .. | .timeT _ => 8
  | .maxkey | .minkey | .null | .undefined => 0
  | .regex r o =>
    cStringSize (r.getD []) + ((bsonAppendRegexOptionsSorted (o.getD [])).length + 1)
  | .utf8 none _ | .symbol none _ => 0
  | .utf8 (some v) length | .symbol (some v) length => 4 + textSize v length + 1

/-- Type octet, key, NUL and value. -/
def elementSize (key : Bytes) (keyLength : Int) (f : Field) : Nat :=
  2 + keySize key keyLength + valueSize f

def isRegex : Field → Bool
  | .regex .. => true
  | _ => false

theorem keySize_eq (key : Bytes) (keyLength : Int) :
    ofInt32 (defaultKeyLength key keyLength) = keySize key keyLength := by
  unfold defaultKeyLength keySize
  split
  · have h := ofInt32_i32_add (strlen key) 0
    simpa [intStrlen] using h
  · rfl

theorem cStringSize_eq (s : Bytes) : ofInt32 (intStrlen s + 1) = cStringSize s :=
  ofInt32_i32_add (strlen s) 1

theorem textSize_eq (s : Bytes) (length : Int) :
    ofInt32 (if length < 0 then intStrlen s else length) = textSize s length :=
  keySize_eq s length

/-- The pairs of every keyed append add up to the element. -/
theorem append_size (key : Bytes) (keyLength : Int) (f : Field) :
    (f.append key keyLength).size = elementSize key keyLength f := by
  have hkey := keySize_eq key keyLength
  cases f
  case binary subtype binary length =>
    simp only [Field.append, bsonAppendBinary, elementSize, valueSize]
    split <;> rw [keyedAppend_size]
    case isTrue.h | isFalse.h => rfl
    all_goals
      simp only [pairsLength_cons, pairsLength_nil]
      omega
  case codeWithScope javascript scope =>
    cases scope <;>
      simp only [Field.append, bsonAppendCodeWithScope, bsonAppendCode, elementSize, valueSize,
        ← cStringSize_eq] <;>
      rw [keyedAppend_size]
    case none.h | some.h => rfl
    all_goals
      simp only [pairsLength_cons, pairsLength_nil, BsonRef.pair]
      omega
  case utf8 value length | symbol value length =>
    cases value <;>
      simp only [Field.append, bsonAppendUtf8, bsonAppendSymbol, appendText, bsonAppendNull,
        elementSize, valueSize, ← textSize_eq] <;>
      rw [keyedAppend_size]
    case none.h | some.h => rfl
    all_goals
      simp only [pairsLength_cons, pairsLength_nil]
      omega
  all_goals
    simp only [Field.append, bsonAppendArray, bsonAppendBool, bsonAppendCode, bsonAppendDbpointer,
      bsonAppendDocument, bsonAppendDouble, bsonAppendInt32, bsonAppendInt64, bsonAppendDecimal128,
      bsonAppendMaxkey, bsonAppendMinkey, bsonAppendNull, bsonAppendOid, bsonAppendRegex,
      bsonAppendTimestamp, bsonAppendDateTime, bsonAppendTimeval, bsonAppendTimeT,
      bsonAppendUndefined, elementSize, valueSize, ← cStringSize_eq]
    rw [keyedAppend_size]
    case h => rfl
    simp only [pairsLength_cons, pairsLength_nil, BsonRef.pair]
    omega

/-- Every keyed append but one declares the size of its element modulo `2 ^ 32`. -/
theorem append_nBytes (key : Bytes) (keyLength : Int) (f : Field) (hf : isRegex f = false) :
    (f.append key keyLength).nBytes = u32 (elementSize key keyLength f) := by
  rw [← append_size]
  cases f
  case regex => cases hf
  case binary subtype binary length =>
    simp only [Field.append, bsonAppendBinary]
    split
    · exact keyedAppend_nBytes _ _ _ _ _ _ rfl (by simp; omega)
    · exact keyedAppend_nBytes _ _ _ _ _ _ rfl (by simp; omega)
  case codeWithScope javascript scope =>
    cases scope with
    | none => exact keyedAppend_nBytes _ _ _ _ _ _ rfl (by simp)
    | some scope => exact keyedAppend_nBytes _ _ _ _ _ _ rfl (by simp [BsonRef.pair]; omega)
  case utf8 value length | symbol value length =>
    cases value with
    | none => exact keyedAppend_nBytes _ _ _ _ _ _ rfl (by simp)
    | some v => exact keyedAppend_nBytes _ _ _ _ _ _ rfl (by simp [ofInt32]; omega)
  all_goals exact keyedAppend_nBytes _ _ _ _ _ _ rfl (by simp [BsonRef.pair]; try omega)

/-- `bson_append_regex` leaves the NUL of the options out of its total. -/
theorem append_nBytes_regex (key : Bytes) (keyLength : Int) (r o : Option Bytes) :
    ((Field.regex r o).append key keyLength).nBytes =
      u32 (elementSize key keyLength (.regex r o) - 1) := by
  rw [← append_size]
  simp only [Field.append, bsonAppendRegex]
  rw [keyedAppend_size]
  case h => rfl
  simp only [keyedAppend, pairsLength_cons, pairsLength_nil, ofInt32, u32]
  omega

/-! ## API calls -/

/-- The `_bson_append` call an API call makes. -/
def stepArgs : Step → Option AppendArgs
  | .append call =>
    match call.request with
    | .append args => some args
    | .done _ => none
  | .documentBegin key keyLength => some (bsonAppendBsonBegin .document key keyLength)
  | .arrayBegin key keyLength => some (bsonAppendBsonBegin .array key keyLength)
  | .end => none

/-- The true size of what an API call appends. -/
def stepSize : Step → Nat
  | .append (.concat src) => u32sub src.len 5
  | .append call =>
    match call.keyed with
    | some (key, keyLength, f) => elementSize key keyLength f
    | none => 0
  | .documentBegin key keyLength | .arrayBegin key keyLength => 2 + keySize key keyLength + 5
  | .end => 0

/-- The call is `bson_append_regex`, directly or through a value or an iterator. -/
def appendsRegex : Step → Bool
  | .append call =>
    match call.keyed with
    | some (_, _, f) => isRegex f
    | none => false
  | _ => false

/-- The total the call declares: a regex leaves one octet out. -/
def declaredSize (s : Step) : Nat := if appendsRegex s then stepSize s - 1 else stepSize s

theorem begin_nBytes (childType : BsonType) (key : Bytes) (keyLength : Int) :
    (bsonAppendBsonBegin childType key keyLength).nBytes =
      u32 (bsonAppendBsonBegin childType key keyLength).size :=
  keyedAppend_nBytes _ _ _ _ _ _ rfl (by simp)

theorem begin_size (childType : BsonType) (key : Bytes) (keyLength : Int) :
    (bsonAppendBsonBegin childType key keyLength).size = 2 + keySize key keyLength + 5 := by
  rw [bsonAppendBsonBegin, keyedAppend_size, keySize_eq]
  · simp
  · rfl

/-- A keyed call, whichever way it comes to its function. -/
theorem keyed_call {call : AppendCall} {key : Bytes} {keyLength : Int} {f : Field}
    (h : call.keyed = some (key, keyLength, f)) :
    stepArgs (.append call) = some (f.append key keyLength) ∧
      stepSize (.append call) = elementSize key keyLength f ∧
      appendsRegex (.append call) = isRegex f := by
  cases call <;> first | cases h; done | simp [stepArgs, AppendCall.request, stepSize, appendsRegex, h]

/-- Size and declared total of a keyed append. -/
theorem keyed_spec (key : Bytes) (keyLength : Int) (f : Field) :
    (isRegex f = false →
      (f.append key keyLength).nBytes = u32 (elementSize key keyLength f)) ∧
    (isRegex f = true → 1 ≤ elementSize key keyLength f ∧
      (f.append key keyLength).nBytes = u32 (elementSize key keyLength f - 1)) := by
  refine ⟨append_nBytes key keyLength f, fun hf => ⟨by unfold elementSize; omega, ?_⟩⟩
  cases f
  case regex r o => exact append_nBytes_regex key keyLength r o
  all_goals cases hf

theorem concat_spec {src : BsonRef} {args : AppendArgs}
    (h : stepArgs (.append (.concat src)) = some args) :
    args.size = u32sub src.len 5 ∧ args.nBytes = u32sub src.len 5 := by
  cases he : bsonEmpty src with
  | true => simp [stepArgs, AppendCall.request, he] at h
  | false =>
    simp only [stepArgs, AppendCall.request, he, Bool.false_eq_true, if_false,
      Option.some_inj] at h
    rw [← h]
    simp only [bsonConcat, AppendArgs.size, AppendArgs.used, List.take_succ_cons, List.take_zero,
      pairsLength_cons, pairsLength_nil, Nat.add_zero, and_self]

/-- Size and declared total of the append behind any API call. -/
theorem stepArgs_spec {s : Step} {args : AppendArgs} (h : stepArgs s = some args) :
    args.size = stepSize s ∧
      (appendsRegex s = false → args.nBytes = u32 (stepSize s)) ∧
      (appendsRegex s = true → 1 ≤ stepSize s ∧ args.nBytes = u32 (stepSize s - 1)) := by
  cases s with
  | append call =>
    cases hk : call.keyed with
    | some k =>
      obtain ⟨key, keyLength, f⟩ := k
      obtain ⟨hargs, hsize, hregex⟩ := keyed_call hk
      rw [hargs] at h
      cases h
      rw [hsize, hregex]
      exact ⟨append_size key keyLength f, keyed_spec key keyLength f⟩
    | none =>
      cases call with
      | concat src =>
        obtain ⟨h1, h2⟩ := concat_spec h
        simp only [stepSize, appendsRegex, hk, u32_of_lt (u32sub_lt src.len 5)]
        exact ⟨h1, fun _ => h2, fun hr => by cases hr⟩
      | field key keyLength f => cases hk
      | value key keyLength v => simp [stepArgs, AppendCall.request, hk] at h
      | iter key keyLength it => simp [stepArgs, AppendCall.request, hk] at h
  | documentBegin key keyLength =>
    cases h
    simp only [stepSize, appendsRegex, begin_nBytes, begin_size, true_and]
    exact ⟨fun _ => trivial, fun hr => by cases hr⟩
  | arrayBegin key keyLength =>
    cases h
    simp only [stepSize, appendsRegex, begin_nBytes, begin_size, true_and]
    exact ⟨fun _ => trivial, fun hr => by cases hr⟩
  | «end» => cases h

end LibBson.Source
