import LibBson.Source.AppendSizes
import LibBson.Spec.Builds

/-!
# The octets an append hands over are the element it describes

`append_bytes` and `concat_bytes`: at sizes that fit a signed 32-bit length, the
pairs of a call concatenate to the encoding of the fields the call describes.
-/

set_option autoImplicit false

namespace LibBson.Source
open LibBson.Library LibBson.Spec

/-! ## Copied octets -/

theorem copied_self (s : Bytes) : copied s s.length = s := by
  rw [copied, List.takeD_eq_take _ (Nat.le_refl _), List.take_length]

theorem copied_of_length {s : Bytes} {n : Nat} (h : s.length = n) : copied s n = s := by
  subst h
  exact copied_self s

theorem copied_strlen (s : Bytes) : copied s (strlen s) = cText s := by
  have hs : s = cText s ++ s.dropWhile (· ≠ 0) := (List.takeWhile_append_dropWhile).symm
  unfold copied strlen
  conv => lhs; arg 2; rw [hs]
  exact List.takeD_left _ _ _

/-- Copying one octet more than `strlen` takes the NUL along. -/
theorem copied_strlen_succ (s : Bytes) : copied s (strlen s + 1) = cText s ++ [0] := by
  induction s with
  | nil => rfl
  | cons b s ih =>
    by_cases hb : b = 0
    · subst hb
      rfl
    · have hc : cText (b :: s) = b :: cText s := by simp [cText, hb]
      have hl : strlen (b :: s) = strlen s + 1 := by simp [strlen, hc]
      rw [hl, hc, List.cons_append, ← ih]
      rfl

/-! ## Words -/

theorem ofInt32_toInt (n : BitVec 32) : ofInt32 n.toInt = n.toNat := by
  have hlt := n.isLt
  rw [BitVec.toInt_eq_toNat_cond, ofInt32]
  split <;> omega

theorem ofInt64_toInt (n : BitVec 64) : ofInt64 n.toInt = n.toNat := by
  have hlt := n.isLt
  rw [BitVec.toInt_eq_toNat_cond, ofInt64]
  split <;> omega

/-- The millisecond count of a `timeval`, modulo `2 ^ 64`. -/
theorem timeval_word (sec usec : Int) (h0 : 0 ≤ usec) (h : usec < 1000000) :
    u64 (ofInt64 sec * 1000 + ofInt64 usec / 1000) =
      (BitVec.ofInt 64 (sec * 1000 + usec / 1000)).toNat := by
  have hu : ofInt64 usec = usec.toNat := by
    unfold ofInt64
    omega
  have hs : ((ofInt64 sec : Nat) : Int) = sec % 18446744073709551616 :=
    Int.toNat_of_nonneg (Int.emod_nonneg _ (by decide))
  have hz : ((u64 (ofInt64 sec * 1000 + ofInt64 usec / 1000) : Nat) : Int) =
      (sec * 1000 + usec / 1000) % 18446744073709551616 := by
    rw [u64, Int.natCast_mod, Int.natCast_add, Int.natCast_mul, hs, hu, Int.natCast_div,
      Int.toNat_of_nonneg h0]
    simp [Int.add_emod, Int.mul_emod]
  rw [BitVec.toNat_ofInt]
  exact Int.toNat_natCast _ ▸ congrArg Int.toNat hz

theorem ofInt64_i64_toNat (n : BitVec 64) : ofInt64 (i64 n.toNat) = n.toNat := by
  have hlt := n.isLt
  unfold ofInt64 i64
  split <;> omega

/-! ## Text arguments -/

/-- A text argument below 2 GiB hands over its length and its octets. -/
theorem textOf_spec (s : Bytes) (length : Int) (h : (textOf s length).length < 2147483648) :
    ofInt32 (if length < 0 then intStrlen s else length) = (textOf s length).length ∧
      copied s (textOf s length).length = textOf s length := by
  unfold textOf at *
  split
  · next hneg =>
    rw [if_pos hneg] at h
    have hs : strlen s < 2147483648 := h
    refine ⟨?_, copied_strlen s⟩
    rw [intStrlen, i32_of_lt hs, ofInt32_natCast, u32_of_lt (by omega)]
    rfl
  · next hneg =>
    rw [if_neg hneg, copied_length] at h
    rw [copied_length]
    exact ⟨ofInt32_of_nonneg (by omega) (by omega), rfl⟩

/-- A C string below 2 GiB hands over its octets and its NUL. -/
theorem cText_spec (s : Bytes) (h : (cText s).length < 2147483648) :
    ofInt32 (intStrlen s + 1) = (cText s).length + 1 ∧
      copied s ((cText s).length + 1) = cText s ++ [0] := by
  have hs : strlen s < 2147483648 := h
  refine ⟨?_, copied_strlen_succ s⟩
  have hc := ofInt32_i32_add (strlen s) 1
  rw [u32_of_lt (by omega)] at hc
  exact hc

theorem keyedAppend_bytes {type : BsonType} {key : Bytes} {keyLength : Int} {nPairs : Nat}
    {valueBytes : Int} {value : List (Nat × Bytes)} {k : CStr}
    (hkey : k.bytes = textOf key keyLength) (hlt : k.bytes.length < 2147483648)
    (h : nPairs = value.length + 3) :
    (keyedAppend type key keyLength nPairs valueBytes value).bytes =
      header type k ++ value.flatMap fun p => copied p.2 p.1 := by
  rw [hkey] at hlt
  obtain ⟨hlen, hcopy⟩ := textOf_spec key keyLength hlt
  rw [AppendArgs.bytes, keyedAppend_used _ _ _ _ _ _ h]
  simp only [List.flatMap_cons, defaultKeyLength, hlen, hcopy, header, hkey, List.cons_append,
    List.append_assoc]
  rfl

theorem copied_pair {b : BsonRef} {d : Doc} (h : Encodes b d) :
    copied b.pair.2 b.pair.1 = d.encode := by
  rw [BsonRef.pair, copied_of_length (by simp)]
  exact h.slice

/-- The fields of `d` are what stands between its length and its NUL. -/
theorem concat_bytes {src : BsonRef} {d : Doc} (h : Encodes src d) (hlt : src.len < 4294967296) :
    (bsonConcat src).bytes = d.body := by
  have hlen := h.len_body
  have hsub : u32sub src.len 5 = d.body.length := by
    rw [u32sub_of_le hlt (by omega)]
    omega
  have hd := h.elements
  rw [holds_append] at hd
  have hslice : src.data.slice 4 d.body.length = d.body := hd.1
  simp [AppendArgs.bytes, AppendArgs.used, bsonConcat, hsub, hslice, copied_self]

/-- `bson_empty` recognizes the document without fields. -/
theorem bsonEmpty_iff {b : BsonRef} {d : Doc} (h : Encodes b d) :
    bsonEmpty b = true ↔ d = .nil := by
  have hlen := h.len_body
  have hd := h.elements
  cases d with
  | nil => simp [bsonEmpty, hlen]
  | cons k v rest =>
    have hty := BsonType.toByte_ne_zero (Value.type_ne_eod v)
    simp only [Doc.body_cons, header, List.cons_append, holds_cons] at hd
    have hpos : b.len ≠ 5 := by
      rw [hlen, Doc.body_cons]
      simp
    simp [bsonEmpty, hpos, hd.1, hty]

/-- The pairs of a keyed append are the element it describes. -/
theorem append_bytes {key : Bytes} {keyLength : Int} {f : Field} {k : CStr} {v : Value}
    (hkey : k.bytes = textOf key keyLength) (hv : Means f v)
    (hlt : (header v.type k ++ v.encode).length ≤ 2147483648) :
    (f.append key keyLength).bytes = header v.type k ++ v.encode := by
  rw [List.length_append, header_length] at hlt
  have hk : k.bytes.length < 2147483648 := by omega
  cases hv
  case array b d h | document b d h =>
    simp only [Field.append, bsonAppendArray, bsonAppendDocument]
    rw [keyedAppend_bytes hkey hk]
    · simp [copied_pair h, Value.encode, Value.type, Doc.encode]
    · rfl
  case binary subtype data length =>
    simp only [Field.append, bsonAppendBinary]
    simp only [Value.encode] at hlt
    split
    · next hsub =>
      simp only [hsub, if_true, List.length_append, List.length_cons, leBytes_length,
        copied_length] at hlt
      have hu : u32 (length + 4) = length + 4 := u32_of_lt (by omega)
      rw [keyedAppend_bytes hkey hk]
      · simp [Value.encode, Value.type, hsub, hu, copied_of_length]
      · rfl
    · next hsub =>
      rw [keyedAppend_bytes hkey hk]
      · simp [Value.encode, Value.type, hsub, copied_of_length]
      · rfl
  case code s | codeNullScope s =>
    simp only [Value.encode, lengthText_length] at hlt
    obtain ⟨hlen, hcopy⟩ := cText_spec s (by omega)
    simp only [Field.append, bsonAppendCode, bsonAppendCodeWithScope]
    rw [keyedAppend_bytes hkey hk]
    · simp [Value.encode, Value.type, hlen, hcopy, lengthText, copied_of_length]
    · rfl
  case codeWithScope s b d h =>
    simp only [Value.encode, List.length_append, lengthText_length, frame_length] at hlt
    obtain ⟨hlen, hcopy⟩ := cText_spec s (by omega)
    have hblen := h.len_body
    have hu : u32 (4 + 4 + ((cText s).length + 1) + b.len) =
        4 + ((cText s).length + 5) + (d.body.length + 5) := by
      rw [hblen, u32_of_lt (by omega)]
      omega
    simp only [Field.append, bsonAppendCodeWithScope]
    rw [keyedAppend_bytes hkey hk]
    · simp [Value.encode, Value.type, hlen, hcopy, hu, copied_pair h, Doc.encode, lengthText,
        copied_of_length]
    · rfl
  case dbpointer c o oid h =>
    simp only [Value.encode, List.length_append, lengthText_length] at hlt
    obtain ⟨hlen, hcopy⟩ := cText_spec c (by omega)
    simp only [Field.append, bsonAppendDbpointer]
    rw [keyedAppend_bytes hkey hk]
    · simp [Value.encode, Value.type, hlen, hcopy, h, lengthText, copied_of_length]
    · rfl
  case regex r o pattern options hp ho =>
    simp only [Value.encode, List.length_append, List.length_cons, ← hp] at hlt
    obtain ⟨hlen, hcopy⟩ := cText_spec (r.getD []) (by omega)
    have hopt : bsonAppendRegexOptionsSorted (o.getD []) = options.bytes := ho.symm
    simp only [Field.append, bsonAppendRegex]
    rw [keyedAppend_bytes hkey hk]
    · simp [Value.encode, Value.type, hlen, hcopy, hopt, ← hp, copied_of_length]
    · rfl
  case utf8 s length | symbol s length =>
    simp only [Value.encode, lengthText_length] at hlt
    obtain ⟨hlen, hcopy⟩ := textOf_spec s length (by omega)
    have hlen1 : ofInt32 ((if length < 0 then intStrlen s else length) + 1) =
        (textOf s length).length + 1 := by
      unfold ofInt32 at *
      omega
    simp only [Field.append, bsonAppendUtf8, bsonAppendSymbol, appendText]
    rw [keyedAppend_bytes hkey hk]
    · simp [Value.encode, Value.type, hlen, hlen1, hcopy, lengthText, copied_of_length]
    · rfl
  case utf8Null | symbolNull | null | maxkey | minkey | undefined =>
    simp only [Field.append, bsonAppendUtf8, bsonAppendSymbol, appendText, bsonAppendNull,
      bsonAppendMaxkey, bsonAppendMinkey, bsonAppendUndefined]
    rw [keyedAppend_bytes hkey hk]
    · simp [Value.encode, Value.type]
    · rfl
  case timestamp t i =>
    have hor : t.toNat <<< 32 ||| i.toNat = t.toNat * 4294967296 + i.toNat := by
      rw [← Nat.shiftLeft_add_eq_or_of_lt i.isLt, Nat.shiftLeft_eq]
    simp only [Field.append, bsonAppendTimestamp]
    rw [keyedAppend_bytes hkey hk]
    · simp [Value.encode, Value.type, hor, copied_of_length]
    · rfl
  case timeval sec usec ms h0 h hms =>
    subst hms
    simp only [Field.append, bsonAppendTimeval, bsonAppendDateTime]
    rw [keyedAppend_bytes hkey hk, timeval_word sec usec h0 h, ofInt64_i64_toNat]
    · simp [Value.encode, Value.type, copied_of_length]
    · rfl
  case timeT sec ms hms =>
    have hw := timeval_word sec 0 (by omega) (by omega)
    rw [Int.zero_ediv, Int.add_zero, ← hms] at hw
    simp only [Field.append, bsonAppendTimeT, bsonAppendTimeval, bsonAppendDateTime]
    rw [keyedAppend_bytes hkey hk, hw, ofInt64_i64_toNat]
    · simp [Value.encode, Value.type, copied_of_length]
    · rfl
  case bool b =>
    simp only [Field.append, bsonAppendBool]
    rw [keyedAppend_bytes hkey hk]
    · cases b <;> simp [Value.encode, Value.type, copied_of_length]
    · rfl
  case double bits =>
    simp only [Field.append, bsonAppendDouble]
    rw [keyedAppend_bytes hkey hk]
    · simp [Value.encode, Value.type, copied_of_length]
    · rfl
  case int32 n | int64 n | dateTime n =>
    simp only [Field.append, bsonAppendInt32, bsonAppendInt64, bsonAppendDateTime]
    rw [keyedAppend_bytes hkey hk]
    · simp [Value.encode, Value.type, ofInt32_toInt, ofInt64_toInt, copied_of_length]
    · rfl
  case decimal128 low high =>
    simp only [Field.append, bsonAppendDecimal128]
    rw [keyedAppend_bytes hkey hk]
    · simp [Value.encode, Value.type, copied_of_length]
    · rfl
  case oid o oid h =>
    simp only [Field.append, bsonAppendOid]
    rw [keyedAppend_bytes hkey hk]
    · simp [Value.encode, Value.type, h]
    · rfl

end LibBson.Source
