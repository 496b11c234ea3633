import LibBson.Source.DocsHeaps
import LibBson.Source.JsonHeaps
import LibBson.Source.JsonRuns

/-!
# The results of a text in two heaps

A run that never copies an unwritten key goes through the same events in every heap and comes
to the same results: the octets of each document, and the error. Source: bson-json.c:1786-2097.
-/

set_option autoImplicit false

namespace LibBson.Source
open LibBson.Library

/-- The event copies no `key_buf` that was not written for the key it stands for. -/
def KeyCopied (p : JsonParse) (e : JsonEvent) : Prop :=
  p.bson.copiesKey e → p.bson.KeyWritten

instance (s : JsonReaderBson) : Decidable s.KeyWritten :=
  match hkey : s.key with
  | some (.constant text) => isFalse fun h => h text hkey
  | some .keyBuf => isTrue fun text h => by rw [hkey] at h; cases h
  | none => isTrue fun text h => by rw [hkey] at h; cases h

instance (s : JsonReaderBson) (val : Bytes) : Decidable (s.savesKey val) :=
  inferInstanceAs (Decidable (_ ∨ _))

instance (s : JsonReaderBson) (e : JsonEvent) : Decidable (s.copiesKey e) :=
  match e with
  | .key _ => inferInstanceAs (Decidable (_ ∧ _))
  | .startMap | .endMap | .startArray | .endArray | .string _ | .special .. =>
    inferInstanceAs (Decidable False)

instance (p : JsonParse) (e : JsonEvent) : Decidable (KeyCopied p e) :=
  inferInstanceAs (Decidable (_ → _))

/-- Two readers between two events. -/
structure ParsesAlike (p p' : JsonParse) : Prop where
  docs : DocsAlike p.docs p'.docs
  bson : p.bson.Alike p'.bson

/-- Two events end alike: an error is the same, and without one the readers are alike. -/
inductive StepsAlike : Except JsonHalt JsonParse → Except JsonHalt JsonParse → Prop
  | error (halt : JsonHalt) : StepsAlike (.error halt) (.error halt)
  | ok (p p' : JsonParse) (herror : p'.bson.error = p.bson.error)
      (h : p.bson.error = none → ParsesAlike p p') : StepsAlike (.ok p) (.ok p')

/-- How two runs over the tokens of a document end alike. -/
inductive EndingsAlike {J : Type} : Except JsonHalt (JsonEnding J) →
    Except JsonHalt (JsonEnding J) → Prop
  | error (halt : JsonHalt) : EndingsAlike (.error halt) (.error halt)
  | exhausted (p p' : JsonParse) (h : ParsesAlike p p') :
    EndingsAlike (.ok (.exhausted p)) (.ok (.exhausted p'))
  | failed (p p' : JsonParse) (herror : p'.bson.error = p.bson.error) :
    EndingsAlike (.ok (.failed p)) (.ok (.failed p'))
  | restarted (p p' : JsonParse) (json : J) (rest : Bytes) (h : ParsesAlike p p') :
    EndingsAlike (.ok (.restarted p json rest)) (.ok (.restarted p' json rest))

section Runs

variable (fresh fresh' : JsonHeap) (dec : JsonDecoders) {p p' : JsonParse}

theorem step_alike (h : ParsesAlike p p') {e : JsonEvent} (hkey : KeyCopied p e) :
    StepsAlike (p.step fresh dec e) (p'.step fresh' dec e) := by
  have hreact := JsonReaderBson.react_alike fresh.buffer fresh'.buffer dec h.bson hkey
  unfold JsonParse.step
  generalize p.bson.react fresh.buffer dec e = r at hreact ⊢
  generalize p'.bson.react fresh'.buffer dec e = r' at hreact ⊢
  cases hreact with
  | assertFailed => exact .error .assertFailed
  | wild => exact .error .wild
  | done s s' ops herror hs =>
    have hexec := execAll_alike fresh.document fresh'.document h.docs ops
    simp only
    generalize p.docs.execAll fresh.document ops = x at hexec ⊢
    generalize p'.docs.execAll fresh'.document ops = x' at hexec ⊢
    cases hexec with
    | error halt => exact .error halt
    | ok d d' message hdocs =>
      cases message with
      | none => exact .ok _ _ herror fun hnone => ⟨hdocs, hs hnone⟩
      | some message => exact .ok _ _ rfl fun hnone => by cases hnone

theorem runTokens_alike {J : Type} (h : ParsesAlike p p') (ts : List (JsonToken J))
    (hmeets : JsonParse.RunMeets fresh dec KeyCopied p ts) :
    EndingsAlike (p.runTokens fresh dec ts) (p'.runTokens fresh' dec ts) := by
  induction ts generalizing p p' with
  | nil => exact .exhausted p p' h
  | cons t ts ih =>
    cases t with
    | halt halt => exact .error halt
    | error message => exact .failed _ _ rfl
    | restart json rest => exact .restarted p p' json rest h
    | event e =>
      obtain ⟨hkey, hnext⟩ := hmeets
      have hstep := step_alike fresh fresh' dec h hkey
      rw [JsonParse.runTokens, JsonParse.runTokens]
      generalize p.step fresh dec e = r at hstep hnext ⊢
      generalize p'.step fresh' dec e = r' at hstep ⊢
      cases hstep with
      | error halt => exact .error halt
      | ok q q' herror hq =>
        simp only [herror]
        split
        · exact .failed q q' herror
        · next hclean =>
          have hnone : q.bson.error = none := Option.not_isSome_iff_eq_none.mp hclean
          exact ih (hq hnone) (hnext q rfl hnone)

theorem start_alike (h : ParsesAlike p p') : ParsesAlike (p.start fresh) (p'.start fresh') := by
  obtain ⟨docs, s⟩ := p
  obtain ⟨docs', s'⟩ := p'
  obtain ⟨hdocs, hbson⟩ := h
  refine ⟨⟨.cons (.some (bsonInit_alike _ _)) .nil, hdocs.left⟩, ?_⟩
  obtain ⟨b, hb⟩ := hbson
  exact .of b hb rfl

/-- The caller sees the same octets. -/
theorem document_alike (h : ParsesAlike p p') : p'.document = p.document := by
  have hinner := h.docs.innermost
  unfold JsonParse.document
  generalize p.docs.innermost = o at hinner ⊢
  generalize p'.docs.innermost = o' at hinner ⊢
  cases hinner with
  | none => rfl
  | some hc =>
    obtain ⟨hlen, hdata⟩ := hc.ref
    rw [Option.map_some, Option.map_some, hlen]
    congr 1
    apply List.map_congr_left
    intro i hi
    rw [Nat.zero_add]
    exact hdata i (List.mem_range.mp hi)

/-- Behind the last document there is the end of the input. -/
theorem textResults_end {J : Type} (lex : Jsonsl J) (n : Nat) (json : J) :
    p'.textResults fresh' dec lex n json [] = p.textResults fresh dec lex n json [] := by
  cases n with
  | zero => rfl
  | succ n => rfl

theorem textResults_alike {J : Type} (lex : Jsonsl J) (n : Nat) (json : J) (text : Bytes)
    (h : ParsesAlike p p') (hmeets : JsonParse.TextMeets fresh dec lex KeyCopied n p json text) :
    p'.textResults fresh' dec lex n json text = p.textResults fresh dec lex n json text := by
  induction n generalizing p p' json text with
  | zero => rfl
  | succ n ih =>
    obtain ⟨hrun, hnext⟩ := hmeets
    have hends := runTokens_alike fresh fresh' dec (start_alike fresh fresh' h)
      (textTokens lex json [] text) hrun
    have hfinish : ∀ {q q' : JsonParse} {next next' : List JsonReader.Result},
        ParsesAlike q q' → (q.bson.readState = .done → next' = next) →
        (if q'.bson.readState ≠ .done then
          [JsonReader.Result.error (q'.bson.corrupt [ascii "Incomplete JSON"]).error]
          else .document q'.document :: next') =
        (if q.bson.readState ≠ .done then
          [JsonReader.Result.error (q.bson.corrupt [ascii "Incomplete JSON"]).error]
          else .document q.document :: next) := by
      intro q q' next next' hq hrest
      rw [hq.bson.readState]
      split
      · rfl
      · next hdone => rw [document_alike hq, hrest (Decidable.not_not.mp hdone)]
    rw [JsonParse.textResults, JsonParse.textResults]
    simp only
    generalize (p.start fresh).runTokens fresh dec (textTokens lex json [] text) = r at hends hnext ⊢
    generalize (p'.start fresh').runTokens fresh' dec (textTokens lex json [] text) = r' at hends ⊢
    cases hends with
    | error halt => rfl
    | exhausted q q' hq =>
      simp only
      split
      · rfl
      · exact hfinish hq fun _ => textResults_end fresh fresh' dec lex n _
    | failed q q' herror => simp only [herror]
    | restarted q q' json' rest hq =>
      exact hfinish hq fun hdone => ih _ _ hq (hnext q json' rest rfl hdone)

end Runs

theorem new_alike : ParsesAlike .new .new where
  docs := ⟨.nil, fun _ => .zeroed⟩
  bson := .of JsonReaderBson.zeroed.buffers
    ⟨rfl, rfl, fun _ => rfl, ⟨rfl, rfl, rfl⟩, ⟨rfl, rfl, rfl⟩, ⟨rfl, rfl, rfl⟩, ⟨rfl, rfl, rfl⟩,
      ⟨rfl, rfl, rfl⟩, ⟨rfl, rfl, rfl⟩⟩ rfl

end LibBson.Source
