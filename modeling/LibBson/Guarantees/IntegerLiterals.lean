import LibBson.Source.JsonslIntegers
import LibBson.Source.JsonRuns
import LibBson.Source.JsonEvents

/-!
# Integer literals are exact or rejected

What an unquoted integer stores where the reader takes a value, in any document and
for any number of digits. jsonsl accumulates the magnitude in 64 bits and drops what
overflows, so that a literal from 2^64 on is read as another one.
Source: bson-json.c:586-711, 1881-1949; jsonsl.c:287-440.
-/

set_option autoImplicit false

namespace LibBson.Source
open LibBson.Library

/-- `bson_append_*` under the reader's key. -/
def JsonParse.stores (fresh : JsonHeap) (p : JsonParse) (f : Field) : Except JsonHalt JsonParse :=
  let s := p.bson.readFixupKey fresh.buffer
  (p.docs.exec fresh.document (.append s.keyPointer s.keyLength f none)).map fun r =>
    { docs := r.1, bson := s }

/-- The element an integer is to be, of a sign and a magnitude: int32 when it fits, and
int64 otherwise. -/
def integerField (negative : Bool) (magnitude : Nat) : Field :=
  let value : Int := if negative then -magnitude else magnitude
  if -2147483648 ≤ value ∧ value ≤ 2147483647 then .int32 value else .int64 value

/-- The largest magnitude of an int64. -/
def int64Limit (negative : Bool) : Nat :=
  if negative then 9223372036854775808 else 9223372036854775807

/-! ## The callback -/

namespace JsonReaderBson

variable (fresh : JsonBlock → Nat → Mem)

theorem TakesValue.append {s : JsonReaderBson} (h : s.TakesValue) (type : Bytes) (f : Field) :
    (s.readFixupKey fresh).bailIfNotNormal type ((s.readFixupKey fresh).append f) =
      .done (s.readFixupKey fresh)
        [.append (s.readFixupKey fresh).keyPointer (s.readFixupKey fresh).keyLength f none] := by
  obtain ⟨hstate, hdepth, -⟩ := readFixupKey_keeps fresh s
  have hkey := h.fixedKey fresh
  have hinside := h.inside
  unfold bailIfNotNormal JsonReaderBson.append
  rw [if_neg (by rw [hstate, h.regular]; exact fun hne => hne rfl),
    if_neg (by rw [Option.isNone_iff_eq_none]; intro hnone; rw [hnone] at hkey; cases hkey),
    if_neg (by rw [hdepth]; omega)]

theorem i32_ofInt64 {x : Int} (lo : -2147483648 ≤ x) (hi : x ≤ 2147483647) :
    i32 (ofInt64 x) = x := by
  unfold i32 ofInt64
  omega

theorem i64_of_le {n : Nat} (h : n ≤ 9223372036854775807) : i64 n = n := by
  unfold i64
  omega

/-- `_bson_json_read_integer` where a value is stored, without a sign. -/
theorem TakesValue.readUnsigned {s : JsonReaderBson} (h : s.TakesValue) (val : Nat) :
    (val ≤ int64Limit false →
      JsonReaderBson.readInteger fresh s val 1 =
        .done (s.readFixupKey fresh)
          [.append (s.readFixupKey fresh).keyPointer (s.readFixupKey fresh).keyLength
            (integerField false val) none]) ∧
    (int64Limit false < val →
      ∃ message, JsonReaderBson.readInteger fresh s val 1 =
        ((s.readFixupKey fresh).setError message).quiet) := by
  have hregular := (readFixupKey_keeps fresh s).1.trans h.regular
  have happend := fun f => h.append fresh (ascii "integer") f
  unfold JsonReaderBson.readInteger int64Limit
  refine ⟨fun hle => ?_, fun hlt => ⟨_, if_pos ⟨rfl, hlt⟩⟩⟩
  simp only [Bool.false_eq_true, if_false] at hle
  dsimp only
  rw [if_neg (by omega), if_neg (by omega), if_pos hregular]
  by_cases hsmall : val ≤ 2147483647
  · have hfits : -2147483648 ≤ (val : Int) ∧ (val : Int) ≤ 2147483647 := by omega
    have hfield : integerField false val = .int32 (val : Int) := if_pos hfits
    rw [if_pos (Or.inl hsmall), happend, hfield, Int.mul_one,
      i32_ofInt64 (by omega) (by omega)]
  · have hlarge : ¬ (-2147483648 ≤ (val : Int) ∧ (val : Int) ≤ 2147483647) := by omega
    have hfield : integerField false val = .int64 (val : Int) := if_neg hlarge
    rw [if_neg (by omega), if_neg (by omega), happend, hfield, i64_of_le hle]

/-- The same with a minus sign. -/
theorem TakesValue.readSigned {s : JsonReaderBson} (h : s.TakesValue) (val : Nat) :
    (val ≤ int64Limit true →
      JsonReaderBson.readInteger fresh s val (-1) =
        .done (s.readFixupKey fresh)
          [.append (s.readFixupKey fresh).keyPointer (s.readFixupKey fresh).keyLength
            (integerField true val) none]) ∧
    (int64Limit true < val →
      ∃ message, JsonReaderBson.readInteger fresh s val (-1) =
        ((s.readFixupKey fresh).setError message).quiet) := by
  have hregular := (readFixupKey_keeps fresh s).1.trans h.regular
  have happend := fun f => h.append fresh (ascii "integer") f
  unfold JsonReaderBson.readInteger int64Limit
  refine ⟨fun hle => ?_, fun hlt => 
    ⟨_, (if_neg fun hsign => absurd hsign.1 (by decide)).trans (if_pos ⟨rfl, hlt⟩)⟩⟩
  simp only [if_true] at hle
  dsimp only
  rw [if_neg (by omega), if_neg (by omega), if_pos hregular]
  by_cases hsmall : val ≤ 2147483648
  · have hfits : -2147483648 ≤ -(val : Int) ∧ -(val : Int) ≤ 2147483647 := by omega
    have hfield : integerField true val = .int32 (-(val : Int)) := if_pos hfits
    rw [if_pos (Or.inr ⟨rfl, hsmall⟩), happend, hfield, Int.mul_neg, Int.mul_one,
      i32_ofInt64 (by omega) (by omega)]
  · have hlarge : ¬ (-2147483648 ≤ -(val : Int) ∧ -(val : Int) ≤ 2147483647) := by omega
    have hfield : integerField true val = .int64 (-(val : Int)) := if_neg hlarge
    rw [if_neg (by omega), if_pos rfl, happend, hfield, i64_ofInt64 (by omega) (by omega)]

end JsonReaderBson

end LibBson.Source

namespace LibBson.Guarantees
open LibBson.Library LibBson.Source

section Integers

variable (fresh : JsonHeap) (dec : JsonDecoders)

/-- The tokens begin with a literal whose callback stores it exactly, or sets an error if
no int64 is equal to it. -/
def ReadsExactly (p : JsonParse) (l : JsonInteger) (ts : List (JsonToken JsonslSt)) : Prop :=
  ∃ e rest, ts = .event e :: rest ∧
    if l.magnitude ≤ int64Limit l.negative then
      p.step fresh dec e = p.stores fresh (integerField l.negative l.magnitude)
    else ∃ q, p.step fresh dec e = .ok q ∧ q.bson.error.isSome = true

/-- An append of the reader that sets no error. -/
theorem step_stores {p : JsonParse} {e : JsonEvent} {f : Field}
    (h : p.bson.react fresh.buffer dec e =
      .done (p.bson.readFixupKey fresh.buffer)
        [.append (p.bson.readFixupKey fresh.buffer).keyPointer
          (p.bson.readFixupKey fresh.buffer).keyLength f none]) :
    p.step fresh dec e = p.stores fresh f := by
  unfold JsonParse.step JsonParse.stores
  simp only [h, JsonDocs.execAll, JsonDocs.exec, JsonDocs.execCall]
  unfold JsonDocs.append
  cases (p.bson.readFixupKey fresh.buffer).keyPointer with
  | none => rfl
  | some key =>
    simp only [JsonDocs.call]
    cases p.docs.counted.innermost with
    | none => rfl
    | some c =>
      cases hcall : bsonAppendCall (fresh.document p.docs.calls) c
        (.field key (p.bson.readFixupKey fresh.buffer).keyLength f) with
      | ok c => simp only [hcall]; rfl
      | failed c => simp only [hcall]; rfl
      | aborted => simp only [hcall]; rfl

/-- The step at a literal. -/
theorem step_literal {p : JsonParse} (h : p.bson.TakesValue) (l : JsonInteger) :
    (u64 l.magnitude ≤ int64Limit l.negative →
      p.step fresh dec l.event = p.stores fresh (integerField l.negative (u64 l.magnitude))) ∧
    (int64Limit l.negative < u64 l.magnitude →
      ∃ q, p.step fresh dec l.event = .ok q ∧ q.bson.error.isSome = true) := by
  have hread : (u64 l.magnitude ≤ int64Limit l.negative →
      p.bson.react fresh.buffer dec l.event =
        .done (p.bson.readFixupKey fresh.buffer)
          [.append (p.bson.readFixupKey fresh.buffer).keyPointer
            (p.bson.readFixupKey fresh.buffer).keyLength (integerField l.negative (u64 l.magnitude)) none]) ∧
      (int64Limit l.negative < u64 l.magnitude →
        ∃ message, p.bson.react fresh.buffer dec l.event =
          ((p.bson.readFixupKey fresh.buffer).setError message).quiet) := by
    have hreact : p.bson.react fresh.buffer dec l.event =
        JsonReaderBson.readInteger fresh.buffer p.bson (u64 l.magnitude)
          (if l.signed then -1 else 1) := rfl
    rw [hreact]
    obtain ⟨negative, digits, hproper⟩ := l
    cases negative with
    | false => exact h.readUnsigned fresh.buffer _
    | true =>
      by_cases hzero : ofDigits digits = 0
      · -- a zero is read without its sign, which is the same integer
        have hunsigned := h.readUnsigned fresh.buffer 0
        simp only [JsonInteger.signed, JsonInteger.magnitude, hzero]
        refine ⟨fun _ => hunsigned.1 (Nat.zero_le _), fun hlt => absurd hlt (Nat.not_lt_zero _)⟩
      · have hsigned : JsonInteger.signed ⟨true, digits, hproper⟩ = true := bne_iff_ne.mpr hzero
        rw [hsigned]
        exact h.readSigned fresh.buffer _
  refine ⟨fun hle => step_stores fresh dec (hread.1 hle), fun hlt => ?_⟩
  obtain ⟨message, hreact⟩ := hread.2 hlt
  refine ⟨{ docs := p.docs, bson := (p.bson.readFixupKey fresh.buffer).setError message }, ?_, rfl⟩
  unfold JsonParse.step
  simp only [hreact, JsonReaderBson.quiet, JsonDocs.execAll]

theorem stores_error {p q : JsonParse} {f : Field} (h : p.stores fresh f = .ok q) :
    q.bson.error = p.bson.error := by
  unfold JsonParse.stores at h
  cases happend : p.docs.exec fresh.document (.append (p.bson.readFixupKey fresh.buffer).keyPointer
    (p.bson.readFixupKey fresh.buffer).keyLength f none) with
  | error halt =>
    simp only [happend] at h
    cases h
  | ok r =>
    simp only [happend] at h
    cases h
    exact (JsonReaderBson.readFixupKey_keeps fresh.buffer p.bson).2.2

/-- One literal, at a reader without an error. -/
theorem literal_exact_iff {p : JsonParse} {j : JsonslSt} (herror : p.bson.error = none)
    (hlex : j.TakesValue) (hp : p.bson.TakesValue) (l : JsonInteger) {c : UInt8}
    (hc : isSpecialEnd c = true) (before rest : Bytes) :
    ReadsExactly fresh dec p l (textTokens jsonsl j before (l.text ++ c :: rest)) ↔
      l.magnitude < 18446744073709551616 ∨ int64Limit l.negative < u64 l.magnitude := by
  obtain ⟨ts, htokens⟩ := textTokens_literal hlex l hc before rest
  obtain ⟨hstored, hrejected⟩ := step_literal fresh dec hp l
  have hlimit : int64Limit l.negative < 18446744073709551616 := by
    cases l.negative <;> decide
  rw [htokens]
  constructor
  · rintro ⟨e, rest', htoken, hstep⟩
    cases htoken
    by_cases hsmall : l.magnitude < 18446744073709551616
    · exact Or.inl hsmall
    · right
      by_contra hle
      rw [if_neg (by omega)] at hstep
      obtain ⟨q, hq, hfailed⟩ := hstep
      rw [hstored (Nat.le_of_not_lt hle)] at hq
      rw [stores_error fresh hq, herror] at hfailed
      cases hfailed
  · intro hcond
    refine ⟨l.event, ts, rfl, ?_⟩
    split
    · next hle =>
      have hsame : u64 l.magnitude = l.magnitude := Nat.mod_eq_of_lt (by omega)
      rw [hsame] at hstored
      exact hstored hle
    · next hgt =>
      apply hrejected
      rcases hcond with hsmall | hlt
      · have hsame : u64 l.magnitude = l.magnitude := Nat.mod_eq_of_lt hsmall
        rw [hsame]
        omega
      · exact hlt

/-- Where the reader takes a value, in any document, an integer literal of any number of
digits is stored exactly or rejected if and only if its magnitude is below 2^64 or is
still out of range modulo 2^64. -/
theorem integer_literals_exact_iff {p₀ p : JsonParse} {j₀ : JsonslSt} (before : Bytes)
    (l : JsonInteger) {c : UInt8} (hc : isSpecialEnd c = true) (rest : Bytes)
    (hreach : (p₀.start fresh).Reaches fresh dec
      (textTokens jsonsl (jsonsl.reset j₀) [] (before ++ (l.text ++ c :: rest))) p
      (textTokens jsonsl (jsonsl.after (jsonsl.reset j₀) 0 before) before (l.text ++ c :: rest)))
    (hlex : (jsonsl.after (jsonsl.reset j₀) 0 before).TakesValue) (hp : p.bson.TakesValue) :
    ReadsExactly fresh dec p l
        (textTokens jsonsl (jsonsl.after (jsonsl.reset j₀) 0 before) before
          (l.text ++ c :: rest)) ↔
      l.magnitude < 18446744073709551616 ∨ int64Limit l.negative < u64 l.magnitude :=
  literal_exact_iff fresh dec (hreach.error rfl) hlex hp l hc before rest

end Integers

/-! ## Behind a key -/

/-- The reader behind `{"a":`. -/
def atValue : JsonParse :=
  match (JsonParse.new.start (.filled 0)).run (.filled 0) .rejecting
    [.startMap, .key (ascii "a")] with
  | .ok p => p
  | .error _ => .new

def beforeValue : Bytes := ascii "\x7b\"a\":"

theorem atValue_reached (l : JsonInteger) (c : UInt8) (rest : Bytes) :
    (JsonParse.new.start (.filled 0)).Reaches (.filled 0) .rejecting
      (textTokens jsonsl (jsonsl.reset jsonsl.zeroed) [] (beforeValue ++ (l.text ++ c :: rest)))
      atValue
      (textTokens jsonsl (jsonsl.after (jsonsl.reset jsonsl.zeroed) 0 beforeValue) beforeValue
        (l.text ++ c :: rest)) := by
  apply JsonParse.Reaches.event
  · exact rfl
  · exact rfl
  · apply JsonParse.Reaches.event
    · exact rfl
    · exact rfl
    · exact .here _ _

theorem atValue_takes : atValue.bson.TakesValue := ⟨rfl, by decide, Or.inr rfl⟩

theorem beforeValue_takes :
    (jsonsl.after (jsonsl.reset jsonsl.zeroed) 0 beforeValue).TakesValue :=
  ⟨⟨by decide, by decide⟩, by decide, by decide, by decide⟩

/-- `{"a":-2147483649}` -/
theorem integer_literals_exact_int64 :
    ReadsExactly (.filled 0) .rejecting atValue
      { negative := true
        digits := [2, 1, 4, 7, 4, 8, 3, 6, 4, 9]
        proper := Or.inr ⟨2, _, rfl, by decide⟩ }
      (textTokens jsonsl (jsonsl.after (jsonsl.reset jsonsl.zeroed) 0 beforeValue) beforeValue
        (ascii "-2147483649\x7d")) :=
  (integer_literals_exact_iff (.filled 0) .rejecting beforeValue
    { negative := true
      digits := [2, 1, 4, 7, 4, 8, 3, 6, 4, 9]
      proper := Or.inr ⟨2, _, rfl, by decide⟩ }
    (c := 125) (by decide) [] (atValue_reached _ _ _) beforeValue_takes atValue_takes).mpr
    (Or.inl (by decide))

/-- `18446744073709551617`, which is 1 modulo 2^64. -/
def twoTo64Plus1 : JsonInteger :=
  { negative := false
    digits := [1, 8, 4, 4, 6, 7, 4, 4, 0, 7, 3, 7, 0, 9, 5, 5, 1, 6, 1, 7]
    proper := Or.inr ⟨1, _, rfl, by decide⟩ }

/-- `{"a":18446744073709551617}` is read as `{"a":1}`. -/
theorem integer_literal_wraps :
    ¬ ReadsExactly (.filled 0) .rejecting atValue twoTo64Plus1
        (textTokens jsonsl (jsonsl.after (jsonsl.reset jsonsl.zeroed) 0 beforeValue) beforeValue
          (twoTo64Plus1.text ++ ascii "\x7d")) ∧
      JsonReader.bsonNewFromJson (.filled 0) .rejecting jsonsl
          (beforeValue ++ (twoTo64Plus1.text ++ ascii "\x7d")) =
        .ok (some [12, 0, 0, 0, 16, 97, 0, 1, 0, 0, 0, 0]) := by
  refine ⟨fun hreads => ?_, by decide +kernel⟩
  have hcond := (literal_exact_iff (.filled 0) .rejecting rfl beforeValue_takes atValue_takes
    twoTo64Plus1 (c := 125) (by decide) beforeValue []).mp hreads
  revert hcond
  decide

end LibBson.Guarantees
