import LibBson.Guarantees.ChunkedJson
import LibBson.Source.JsonReady

/-!
# The JSON reader returns

Where every callback is harmless, reading a text ends with a document, an error or
the end of the input, at every document. A `$code` whose `$scope` ends in the middle
of a DBRef is not: an assertion fails. Source: bson-json.c:1042-1733, 2003-2240.
-/

set_option autoImplicit false

namespace LibBson.Guarantees
open LibBson.Library LibBson.Source

section Returns

variable (fresh : JsonHeap) (dec : JsonDecoders)

theorem dataChunks_spec (fuel : Nat) (data : Bytes) (h : data.length ≤ fuel) :
    (JsonReader.dataChunks fuel data).flatten = data ∧
      ∀ c ∈ JsonReader.dataChunks fuel data, c ≠ [] := by
  induction fuel generalizing data with
  | zero =>
    have hnil : data = [] := List.length_eq_zero_iff.mp (Nat.le_zero.mp h)
    rw [hnil]
    exact ⟨rfl, fun _ hc => absurd hc List.not_mem_nil⟩
  | succ fuel ih =>
    unfold JsonReader.dataChunks
    split
    · next hnil =>
      rw [hnil]
      exact ⟨rfl, fun _ hc => absurd hc List.not_mem_nil⟩
    · next hne =>
      have hpos : 0 < data.length := List.length_pos_iff.mpr hne
      have hsize : 0 < JsonReader.bsonJsonDefaultBufSize := by decide
      obtain ⟨hflat, hmem⟩ := ih (data.drop JsonReader.bsonJsonDefaultBufSize) (by
        rw [List.length_drop]
        omega)
      refine ⟨by rw [List.flatten_cons, hflat, List.take_append_drop], fun c hc => ?_⟩
      rcases List.mem_cons.mp hc with rfl | hc
      · intro hnil
        have hlen := congrArg List.length hnil
        rw [List.length_take, List.length_nil] at hlen
        omega
      · exact hmem c hc

/-- Behind the last document there is the end of the input. -/
theorem textResults_nil (n : Nat) (p : JsonParse) (j : JsonslSt) :
    ∀ r ∈ p.textResults fresh dec jsonsl n j [], r = .done := by
  intro r hr
  cases n with
  | zero => cases hr
  | succ n => exact List.mem_singleton.mp hr

theorem textResults_return {n : Nat} {p : JsonParse} {j : JsonslSt} {text : Bytes}
    (h : Between p) (hj : jsonsl.Reachable j)
    (hfirst : p.bson.key = none ∨ text.head? = some 123)
    (hlen : text.length < 9223372036854775808)
    (hmeets : JsonParse.TextMeets fresh dec jsonsl (Harmless fresh dec) n p (jsonsl.reset j) text)
    (halt : JsonHalt) :
    .halted halt ∉ p.textResults fresh dec jsonsl n (jsonsl.reset j) text := by
  induction n generalizing p j text with
  | zero => exact List.not_mem_nil
  | succ n ih =>
    obtain ⟨hrun, hnext⟩ := hmeets
    have hfin := h.finishes hlen (textTokens jsonsl (jsonsl.reset j) [] text)
      (hfirst.imp id fun hbrace => jsonsl_brace hj hbrace) (jsonsl_nested hj text)
      (jsonsl_whole hj text) hrun
    have finished : ∀ (q : JsonParse) (next : List JsonReader.Result),
        (q.bson.readState = .done → .halted halt ∉ next) →
        .halted halt ∉ (if q.bson.readState ≠ .done then
          [JsonReader.Result.error (q.bson.corrupt [ascii "Incomplete JSON"]).error]
          else .document q.document :: next) := by
      intro q next hrest hmem
      split at hmem
      · cases List.mem_singleton.mp hmem
      · next hdone =>
        rcases List.mem_cons.mp hmem with heq | hmem
        · cases heq
        · exact hrest (Decidable.not_not.mp hdone) hmem
    rw [JsonParse.textResults]
    simp only
    cases hout : (p.start fresh).runTokens fresh dec (textTokens jsonsl (jsonsl.reset j) [] text) with
    | error halt => rw [hout] at hfin; exact hfin.elim
    | ok ending =>
      rw [hout] at hfin
      cases ending with
      | exhausted q =>
        simp only
        split
        · intro hmem
          cases List.mem_singleton.mp hmem
        · apply finished
          intro _ hmem
          cases textResults_nil fresh dec n q _ _ hmem
      | failed q =>
        intro hmem
        cases List.mem_singleton.mp hmem
      | restarted q json rest =>
        obtain ⟨hbetween, hjson, hbrace, hrest⟩ := hfin
        apply finished
        intro hdone
        exact ih hbetween hjson (Or.inr hbrace) (Nat.lt_of_le_of_lt hrest hlen)
          (hnext q json rest hout hdone)

/-- Where every callback is harmless, a reader of a text gives documents and then an
error or the end, however the text is cut, and so does `bson_new_from_json`. -/
theorem json_reader_returns (chunks : List Bytes) (n : Nat) (hne : ∀ c ∈ chunks, c ≠ [])
    (hsize : chunks.flatten.length < 9223372036854775808)
    (h : JsonParse.TextMeets fresh dec jsonsl (Harmless fresh dec) (n + 1) .new
      (jsonsl.reset jsonsl.zeroed) chunks.flatten) :
    (∀ halt, .halted halt ∉
      (JsonReader.new jsonsl (chunks.map .octets)).results fresh dec jsonsl (n + 1)) ∧
    ∃ b, JsonReader.bsonNewFromJson fresh dec jsonsl chunks.flatten = .ok b := by
  have hbetween : Between .new :=
    ⟨fun hparked => absurd hparked (by decide), by decide⟩
  have hreturn : ∀ m, JsonParse.TextMeets fresh dec jsonsl (Harmless fresh dec) m .new
      (jsonsl.reset jsonsl.zeroed) chunks.flatten → ∀ pieces : List Bytes,
      (∀ c ∈ pieces, c ≠ []) → pieces.flatten = chunks.flatten → ∀ halt, .halted halt ∉
        (JsonReader.new jsonsl (pieces.map .octets)).results fresh dec jsonsl m := by
    intro m hmeets pieces hpieces hflat halt
    rw [results_chunks fresh dec jsonsl_tokensInOrder hpieces (by rw [hflat]; exact hsize), hflat]
    exact textResults_return fresh dec hbetween .zeroed (Or.inl rfl) hsize hmeets halt
  refine ⟨hreturn (n + 1) h chunks hne rfl, ?_⟩
  have hone : JsonParse.TextMeets fresh dec jsonsl (Harmless fresh dec) 1 .new
      (jsonsl.reset jsonsl.zeroed) chunks.flatten := ⟨h.1, fun _ _ _ _ _ => trivial⟩
  obtain ⟨hflat, hpieces⟩ := dataChunks_spec chunks.flatten.length chunks.flatten (Nat.le_refl _)
  have hnone := hreturn 1 hone _ hpieces hflat
  unfold JsonReader.bsonNewFromJson
  rw [JsonReader.results] at hnone
  revert hnone
  generalize (JsonReader.new jsonsl
    ((JsonReader.dataChunks chunks.flatten.length chunks.flatten).map .octets)).read fresh dec
      jsonsl = out
  intro hnone
  cases out with
  | error halt => exact absurd (List.mem_singleton.mpr rfl) (hnone halt)
  | ok r => exact ⟨_, rfl⟩

end Returns

/-- `{"a":{"$code":"x","$scope":{"b":1}},"c":[{}],"d":{"$dbPointer":{"$ref":"y","$id":{"$oid":..}}}}`
in two pieces: a code with a scope, a child in an array and a DBPointer. -/
theorem json_reader_returns_wrappers :
    (∀ halt, .halted halt ∉
      (JsonReader.new jsonsl ([ascii "\x7b\"a\":\x7b\"$code\":\"x\",\"$scope\":\x7b\"b\":1\x7d\x7d,",
          ascii "\"c\":[\x7b\x7d],\"d\":\x7b\"$dbPointer\":\x7b\"$ref\":\"y\",\"$id\":",
          ascii "\x7b\"$oid\":\"0102030405060708090a0b0c\"\x7d\x7d\x7d\x7d"].map .octets)).results
        (.filled 0) .rejecting jsonsl 2) ∧
    ∃ b, JsonReader.bsonNewFromJson (.filled 0) .rejecting jsonsl
      [ascii "\x7b\"a\":\x7b\"$code\":\"x\",\"$scope\":\x7b\"b\":1\x7d\x7d,",
        ascii "\"c\":[\x7b\x7d],\"d\":\x7b\"$dbPointer\":\x7b\"$ref\":\"y\",\"$id\":",
        ascii "\x7b\"$oid\":\"0102030405060708090a0b0c\"\x7d\x7d\x7d\x7d"].flatten = .ok b :=
  json_reader_returns (.filled 0) .rejecting _ 1 (by decide) (by decide) (by decide +kernel)

/-- `{"a":{"$code":"","$scope":{"$ref":{}}}}`: the wrapper ends while its scope is open. -/
theorem json_reader_asserts :
    .halted .assertFailed ∈
      (JsonReader.new jsonsl [.octets
        (ascii "\x7b\"a\":\x7b\"$code\":\"\",\"$scope\":\x7b\"$ref\":\x7b\x7d\x7d\x7d\x7d")]).results
        (.filled 0) .rejecting jsonsl 1 := by
  decide +kernel

end LibBson.Guarantees
