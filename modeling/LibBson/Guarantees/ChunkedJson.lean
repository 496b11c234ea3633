import LibBson.Source.HeapResults
import LibBson.Source.JsonFeed
import LibBson.Source.JsonslLaws

/-!
# The JSON reader and the way its input arrives

However a callback cuts a text, a caller sees the results of the text in one piece: the
buffers of the reader are cut elsewhere and lie in other blocks, and neither shows. A wrapper
in an array that saves its key is the exception, since the key of an element is a constant and
`key_buf` was not written. Source: bson-json.c:1119-1148, 1819-1976, 2003-2097.
-/

set_option autoImplicit false

namespace LibBson.Guarantees
open LibBson.Library LibBson.Source

section Results

variable (fresh : JsonHeap) (dec : JsonDecoders)

/-- A new reader of chunks does what a reader of the whole text does. -/
theorem results_chunks {J : Type} {lex : Jsonsl J} (hlex : lex.TokensInOrder) {chunks : List Bytes}
    (hne : ∀ c ∈ chunks, c ≠ []) (hsize : chunks.flatten.length < 9223372036854775808) (n : Nat) :
    (JsonReader.new lex (chunks.map .octets)).results fresh dec lex n =
      JsonParse.textResults fresh dec lex n
        .new (lex.reset lex.zeroed) chunks.flatten :=
  JsonReader.results_spec fresh dec hlex n (JsonReader.before_new lex hne hsize)

/-- A read callback that returns nothing. -/
theorem results_empty {J : Type} (lex : Jsonsl J) (n : Nat) :
    (JsonReader.new lex [.octets []]).results fresh dec lex n =
      (JsonReader.new lex []).results fresh dec lex n := by
  cases n <;> rfl

/-- In one heap the documents, and then the end or the first error, do not depend on how the
text is cut. -/
theorem results_cut {chunks : List Bytes} (n : Nat) (hne : ∀ c ∈ chunks, c ≠ [])
    (hsize : chunks.flatten.length < 9223372036854775808) :
    (JsonReader.new jsonsl (chunks.map .octets)).results fresh dec jsonsl n =
      (JsonReader.new jsonsl [.octets chunks.flatten]).results fresh dec jsonsl n := by
  rw [results_chunks fresh dec jsonsl_tokensInOrder hne hsize]
  by_cases hnil : chunks.flatten = []
  · have hnone : ([] : List Bytes).flatten.length < 9223372036854775808 := by decide
    rw [hnil, results_empty]
    exact (results_chunks fresh dec jsonsl_tokensInOrder
      (fun _ h => absurd h List.not_mem_nil) hnone n).symm
  · have hwhole : [chunks.flatten].flatten = chunks.flatten := List.append_nil _
    have hpiece : ∀ c ∈ [chunks.flatten], c ≠ [] := fun c hc => by rwa [List.mem_singleton.mp hc]
    have hone := results_chunks fresh dec jsonsl_tokensInOrder hpiece (by rwa [hwhole]) n
    rw [hwhole] at hone
    exact hone.symm

/-- Where no wrapper saves a key that was not written, the documents, and then the end or the
first error, depend neither on how the text is cut nor on what the blocks contain that the
reader is given. The text is an object in memory when it arrives in one chunk, so its length is
a `ptrdiff_t`. -/
theorem json_results_chunked (fresh' : JsonHeap) (chunks : List Bytes) (n : Nat)
    (hne : ∀ c ∈ chunks, c ≠ []) (hsize : chunks.flatten.length < 9223372036854775808)
    (hkeys : JsonParse.TextMeets fresh dec jsonsl KeyCopied n .new (jsonsl.reset jsonsl.zeroed)
      chunks.flatten) :
    (JsonReader.new jsonsl (chunks.map .octets)).results fresh' dec jsonsl n =
      (JsonReader.new jsonsl [.octets chunks.flatten]).results fresh dec jsonsl n := by
  rw [← results_cut fresh dec n hne hsize, results_chunks fresh dec jsonsl_tokensInOrder hne hsize,
    results_chunks fresh' dec jsonsl_tokensInOrder hne hsize]
  exact textResults_alike fresh fresh' dec jsonsl n _ _ new_alike hkeys

end Results

/-- `{"a":[1],"b":{"$code":"x"}}` and `{}`, cut inside a key, a wrapper and between the
documents. -/
theorem json_results_chunked_code :
    (JsonReader.new jsonsl ([ascii "\x7b\"a", ascii "\":[1],\"b\":\x7b\"$co",
        ascii "de\":\"x\"\x7d\x7d", ascii "\x7b\x7d"].map .octets)).results
        (.filled 66) .rejecting jsonsl 3 =
      (JsonReader.new jsonsl [.octets [ascii "\x7b\"a", ascii "\":[1],\"b\":\x7b\"$co",
        ascii "de\":\"x\"\x7d\x7d", ascii "\x7b\x7d"].flatten]).results
        (.filled 65) .rejecting jsonsl 3 := by
  apply json_results_chunked (.filled 65) .rejecting (.filled 66) _ 3 (by decide) (by decide)
  decide +kernel

/-- `{"a":[{"$code":"x"}]}`: the key of the code is an octet that nobody wrote. -/
theorem json_results_array_code :
    (JsonReader.new jsonsl ([ascii "\x7b\"a\":[\x7b\"$co",
        ascii "de\":\"x\"\x7d]\x7d"].map .octets)).results (.filled 66) .rejecting jsonsl 1 ≠
      (JsonReader.new jsonsl [.octets [ascii "\x7b\"a\":[\x7b\"$co",
        ascii "de\":\"x\"\x7d]\x7d"].flatten]).results (.filled 65) .rejecting jsonsl 1 := by
  decide +kernel

end LibBson.Guarantees
