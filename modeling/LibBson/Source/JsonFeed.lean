import LibBson.Source.JsonBufLaws
import LibBson.Source.JsonTokens

/-!
# A reader fed in pieces

`Within` is the state of a reader inside a chunk: what it has saved of an open
token is the part of it in front of the chunk. From it the text of a token is
where the whole text has it, and a read is `runTokens` of the whole text.
Source: bson-json.c:1786-1976, 2003-2097.
-/

set_option autoImplicit false

namespace LibBson.Source
open LibBson.Library

namespace JsonReader

/-- What is saved in front of a chunk behind `pre` of the token that is open. -/
def savedText (pre : Bytes) : Option (Nat × Bool) → Bytes
  | none => []
  | some (b, _) => pre.drop b

section Feed

variable {J : Type} (fresh : JsonHeap) (dec : JsonDecoders) (lex : Jsonsl J)

/-- A reader with `at'` octets of the chunk `bytes` behind it, and `pre` before the chunk. -/
structure Within (cb : List ReadResult) (pre bytes : Bytes) (at' : Nat)
    (tok : Option (Nat × Bool)) (r : JsonReader J) : Prop where
  cb : r.cb = cb
  pos : r.pos = pre.length + at'
  inside : at' ≤ bytes.length
  size : pre.length + bytes.length < 9223372036854775808
  running : r.stopfl = false
  same : r.shouldReset = false
  clean : r.parse.bson.error = none
  start : r.jsonTextPos = tok.map Prod.fst
  begun : ∀ t ∈ tok, t.1 ≤ r.pos
  valid : r.tokAccumulator.Valid
  saved : r.tokAccumulator.text = savedText pre tok

/-- What `jsonsl_feed` leaves when a callback stops it: the next document begins in the
chunk, or there is an error. -/
inductive Stopped (cb : List ReadResult) (bytes tail : Bytes) (json : J) (r : JsonReader J) :
    JsonEnding J → Prop
  | restarted (hjson : r.json = json) (hreset : r.shouldReset = true) (hcb : r.cb = cb)
      (hstart : r.jsonTextPos = none) (hlen : r.tokAccumulator.len = 0) :
      Stopped cb bytes tail json r (.restarted r.parse json (bytes.drop r.advance ++ tail))
  | failed (p : JsonParse) (hparse : r.parse = p) (hreset : r.shouldReset = false)
      (herror : p.bson.error.isSome = true) : Stopped cb bytes tail json r (.failed p)

variable {fresh dec lex}

variable (fresh) in
/-- The text of a token that ends in a chunk. -/
theorem Within.getJsonText {cb : List ReadResult} {pre bytes : Bytes} {at' b : Nat} {q : Bool}
    {r : JsonReader J} (h : Within cb pre bytes at' (some (b, q)) r) (hb : b < r.pos) :
    ∃ tok, r.getJsonText fresh bytes at' b =
      .ok ((pre ++ bytes.take at').drop b, { r with tokAccumulator := tok }) := by
  have hpos := h.pos
  have hinside := h.inside
  have hsize := h.size
  have hsaved : r.tokAccumulator.text = pre.drop b := h.saved
  have hlen := congrArg List.length hsaved
  rw [JsonBuf.text_length, List.length_drop] at hlen
  unfold JsonReader.getJsonText
  rw [if_neg (by omega : ¬ r.pos ≤ b)]
  by_cases hdirect : r.pos - b ≤ at'
  · refine ⟨r.tokAccumulator, ?_⟩
    simp only [hdirect, if_true]
    have hdrop : (bytes.drop (at' - (r.pos - b))).take (r.pos - b) =
        (pre ++ bytes.take at').drop b := by
      have hgone : pre.drop b = [] := List.drop_of_length_le (by omega)
      have hfrom : at' - (r.pos - b) = b - pre.length := by omega
      have hcount : r.pos - b = at' - (b - pre.length) := by omega
      rw [List.drop_append, hgone, List.nil_append, List.drop_take, hfrom, hcount]
    rw [hdrop]
  · simp only [hdirect, if_false]
    have hsplit : (pre ++ bytes.take at').drop b = pre.drop b ++ bytes.take at' := by
      rw [List.drop_append_of_le_length (by omega)]
    have htake : (bytes.take at').length = at' := by
      rw [List.length_take]
      omega
    by_cases hzero : at' > 0
    · simp only [hzero, if_true]
      have hspec :=
        JsonBuf.append_spec (fresh.buffer .tokAccumulator) h.valid (bytes.take at') (by omega)
      have hcount := congrArg List.length hspec.1
      rw [JsonBuf.text_length, List.length_append, JsonBuf.text_length, htake] at hcount
      have hbuf :
          (r.tokAccumulator.append (fresh.buffer .tokAccumulator) (bytes.take at')).nBytes ≠ 0 := by
        rcases hspec.2 with hv | hv <;> omega
      refine ⟨r.tokAccumulator.append (fresh.buffer .tokAccumulator) (bytes.take at'), ?_⟩
      rw [if_neg hbuf, hsplit, ← hsaved, ← hspec.1, JsonBuf.text, hcount]
      congr 3
      omega
    · simp only [hzero, if_false]
      have hbuf : r.tokAccumulator.nBytes ≠ 0 := by
        rcases h.valid with hv | hv <;> omega
      refine ⟨r.tokAccumulator, ?_⟩
      have hnone : at' = 0 := by omega
      rw [if_neg hbuf, hsplit, ← hsaved, JsonBuf.text, hnone, List.take_zero, List.append_nil]
      congr 3
      omega

/-- How a reader takes the token of a pop. -/
def take (fresh : JsonHeap) (dec : JsonDecoders) (r : JsonReader J) :
    JsonToken J → Except JsonHalt (JsonReader J)
  | .event e => r.deliver fresh dec e
  | .error message => .ok (r.setError .readCorruptJs message)
  | .restart _ _ => .ok r
  | .halt halt => .error halt

theorem Within.popText {cb : List ReadResult} {pre bytes : Bytes} {at' b : Nat} {q : Bool}
    {r : JsonReader J} (h : Within cb pre bytes at' (some (b, q)) r) {state : JsonslState}
    (hstate : b = state.posBegin) (hb : b < r.pos) (event : Bytes → JsonEvent) :
    ∃ tok, r.popText fresh dec lex bytes at' state event =
      take fresh dec { r with tokAccumulator := tok }
        (quotedToken lex (pre ++ bytes.take at') state.posBegin event) := by
  have hpos := h.pos
  have hinside := h.inside
  obtain ⟨tok, htext⟩ := h.getJsonText fresh hb
  have hlen : ¬ (pre ++ bytes.take at').length ≤ b := by
    rw [List.length_append, List.length_take]
    omega
  refine ⟨tok, ?_⟩
  subst hstate
  unfold JsonReader.popText quotedToken tokenText
  rw [htext, if_neg hlen]
  simp only
  split
  · rfl
  · cases lex.unescape ((pre ++ bytes.take at').drop state.posBegin).tail with
    | error err => rfl
    | ok val => rfl

variable (fresh dec lex) in
/-- The open token, if there is one, ends with the pop of `state`. -/
theorem Within.popState {cb : List ReadResult} {pre bytes : Bytes} {at' : Nat}
    {tok tok' : Option (Nat × Bool)} {c : UInt8} {state : JsonslState} {as : List JsonslAction}
    {r : JsonReader J} (h : Within cb pre bytes at' tok r)
    (horder : tokenAfter r.pos c tok (.pop state :: as) = some tok') :
    tokenAfter r.pos c none as = some tok' ∧
      ∃ buf, r.popState fresh dec lex bytes at' state =
        take fresh dec { r with tokAccumulator := buf }
          (popToken lex (pre ++ bytes.take at') state) := by
  have hpos := h.pos
  have hinside := h.inside
  unfold JsonReader.popState popToken
  unfold tokenAfter at horder
  cases tok with
  | none =>
    cases htype : state.type <;> rw [htype] at horder <;> simp only [reduceCtorEq] at horder
    · exact ⟨horder, r.tokAccumulator, rfl⟩
    · exact ⟨horder, r.tokAccumulator, rfl⟩
  | some t =>
    obtain ⟨b, q⟩ := t
    cases htype : state.type <;> rw [htype] at horder <;> simp only [reduceCtorEq] at horder
    · split at horder
      · next hin => exact ⟨horder, h.popText hin.1 hin.2.1 .string⟩
      · cases horder
    · split at horder
      · next hin => exact ⟨horder, h.popText hin.1 hin.2.1 .key⟩
      · cases horder
    · split at horder
      · next hin =>
        obtain ⟨hbegin, hb, -⟩ := hin
        obtain ⟨buf, htext⟩ := h.getJsonText fresh hb
        have hlen : ¬ (pre ++ bytes.take at').length ≤ b := by
          rw [List.length_append, List.length_take]
          omega
        refine ⟨horder, buf, ?_⟩
        simp only
        rw [← hbegin, htext, tokenText, if_neg hlen]
        rfl
      · cases horder

theorem tokenText_ne_restart {pre : Bytes} {posBegin : Nat} {next : Bytes → JsonToken J} {json : J}
    {rest : Bytes} (h : ∀ text, next text ≠ .restart json rest) :
    tokenText pre posBegin next ≠ .restart json rest := by
  intro htoken
  unfold tokenText at htoken
  split at htoken
  · cases htoken
  · exact h _ htoken

theorem quotedToken_ne_restart (lex : Jsonsl J) (pre : Bytes) (posBegin : Nat)
    (event : Bytes → JsonEvent) (json : J) (rest : Bytes) :
    quotedToken lex pre posBegin event ≠ .restart json rest := by
  apply tokenText_ne_restart
  intro text h
  split at h
  · cases h
  · split at h <;> cases h

theorem popToken_ne_restart (lex : Jsonsl J) (pre : Bytes) (state : JsonslState) (json : J)
    (rest : Bytes) : popToken lex pre state ≠ .restart json rest := by
  unfold popToken
  cases state.type with
  | hkey => exact quotedToken_ne_restart lex pre state.posBegin .key json rest
  | string => exact quotedToken_ne_restart lex pre state.posBegin .string json rest
  | object => exact fun h => (nomatch h)
  | list => exact fun h => (nomatch h)
  | special => exact tokenText_ne_restart fun _ h => (nomatch h)

/-- What the callbacks for a character come to: `run` is the run of their tokens and of
those behind them. -/
inductive CallbacksRun (fresh : JsonHeap) (dec : JsonDecoders) (cb : List ReadResult)
    (pre bytes tail : Bytes) (at' : Nat) (tok : Option (Nat × Bool)) (json : J)
    (actions : List JsonslAction)
    (run : List (JsonToken J) → Except JsonHalt (JsonEnding J)) :
    Except JsonHalt (JsonReader J × Bool) → Prop
  | halted (halt : JsonHalt) (h : ∀ ts, run ts = .error halt) :
      CallbacksRun fresh dec cb pre bytes tail at' tok json actions run (.error halt)
  | stopped (r : JsonReader J) (ending : JsonEnding J) (hr : Stopped cb bytes tail json r ending)
      (h : ∀ ts, run ts = .ok ending) :
      CallbacksRun fresh dec cb pre bytes tail at' tok json actions run (.ok (r, true))
  | went (r : JsonReader J) (hr : Within cb pre bytes at' tok r) (hjson : r.json = json)
      (hclean : actions.any JsonslAction.isError = false)
      (h : ∀ ts, run ts = r.parse.runTokens fresh dec ts) :
      CallbacksRun fresh dec cb pre bytes tail at' tok json actions run (.ok (r, false))

/-- A callback without an event in front of others. -/
theorem CallbacksRun.cons {cb : List ReadResult} {pre bytes tail : Bytes} {at' : Nat}
    {tok : Option (Nat × Bool)} {json : J} {a : JsonslAction} {as : List JsonslAction}
    {run run' : List (JsonToken J) → Except JsonHalt (JsonEnding J)}
    {out : Except JsonHalt (JsonReader J × Bool)}
    (h : CallbacksRun fresh dec cb pre bytes tail at' tok json as run out)
    (ha : a.isError = false) (hrun : ∀ ts, run' ts = run ts) :
    CallbacksRun fresh dec cb pre bytes tail at' tok json (a :: as) run' out := by
  cases h with
  | halted halt h => exact .halted halt fun ts => (hrun ts).trans (h ts)
  | stopped r ending hr h => exact .stopped r ending hr fun ts => (hrun ts).trans (h ts)
  | went r hr hjson hclean h =>
    apply CallbacksRun.went r hr hjson
    · rw [List.any_cons, ha, hclean, Bool.or_false]
    · exact fun ts => (hrun ts).trans (h ts)

/-- The saved text when no token is open. -/
theorem Within.len_zero {cb : List ReadResult} {pre bytes : Bytes} {at' : Nat}
    {r : JsonReader J} (h : Within cb pre bytes at' none r) : r.tokAccumulator.len = 0 := by
  have hlen := congrArg List.length h.saved
  rw [JsonBuf.text_length] at hlen
  exact hlen

/-- The rest of the callbacks for a character, behind one that called no error callback. -/
def proceed (fresh : JsonHeap) (dec : JsonDecoders) (lex : Jsonsl J) (bytes : Bytes) (at' : Nat)
    (c : UInt8) (as : List JsonslAction) (r : JsonReader J) :
    Except JsonHalt (JsonReader J × Bool) :=
  if r.stopfl || r.parse.bson.error.isSome then .ok ({ r with stopfl := true }, true)
  else ({ r with stopfl := false }).callbacks fresh dec lex bytes at' c as

theorem callbacks_error (r : JsonReader J) (bytes : Bytes) (at' : Nat) (c : UInt8)
    (err : JsonslError) (as : List JsonslAction) :
    r.callbacks fresh dec lex bytes at' c (.error err :: as) =
      .ok (r.errorCallback at' err c, true) := rfl

theorem callbacks_push (r : JsonReader J) (bytes : Bytes) (at' : Nat) (c : UInt8)
    (type : JsonslType) (b : Nat) (as : List JsonslAction) :
    r.callbacks fresh dec lex bytes at' c (.push type b :: as) =
      match (match type with
        | .object => r.deliver fresh dec .startMap
        | .list => r.deliver fresh dec .startArray
        | _ => .ok { r with jsonTextPos := some b }) with
      | .error halt => .error halt
      | .ok r => r.proceed fresh dec lex bytes at' c as := by
  cases type <;> simp only [callbacks, callback]
  case object =>
    cases r.deliver fresh dec .startMap with
    | error halt => rfl
    | ok r =>
      simp only [proceed]
      cases r.stopfl || r.parse.bson.error.isSome <;> rfl
  case list =>
    cases r.deliver fresh dec .startArray with
    | error halt => rfl
    | ok r =>
      simp only [proceed]
      cases r.stopfl || r.parse.bson.error.isSome <;> rfl
  all_goals
    simp only [proceed]
    cases r.stopfl || r.parse.bson.error.isSome <;> rfl

theorem callbacks_pop (r : JsonReader J) (bytes : Bytes) (at' : Nat) (c : UInt8)
    (state : JsonslState) (as : List JsonslAction) :
    r.callbacks fresh dec lex bytes at' c (.pop state :: as) =
      match r.popState fresh dec lex bytes at' state with
      | .error halt => .error halt
      | .ok r =>
        ({ r with
          jsonTextPos := none
          tokAccumulator := { r.tokAccumulator with len := 0 } }).proceed fresh dec lex bytes at' c
        as := by
  rw [callbacks, callback]
  cases r.popState fresh dec lex bytes at' state with
  | error halt => rfl
  | ok r =>
    simp only [proceed]
    cases r.stopfl || r.parse.bson.error.isSome <;> rfl

theorem proceed_failed (r : JsonReader J) {p : JsonParse} (hp : r.parse = p)
    (herror : p.bson.error.isSome = true) (bytes : Bytes) (at' : Nat) (c : UInt8)
    (as : List JsonslAction) :
    r.proceed fresh dec lex bytes at' c as = .ok ({ r with stopfl := true }, true) := by
  rw [proceed, hp, herror, Bool.or_true, if_pos rfl]

theorem proceed_clean (r : JsonReader J) {p : JsonParse} (hp : r.parse = p)
    (herror : p.bson.error = none) (hstop : r.stopfl = false) (bytes : Bytes) (at' : Nat) (c : UInt8)
    (as : List JsonslAction) :
    r.proceed fresh dec lex bytes at' c as =
      ({ r with stopfl := false }).callbacks fresh dec lex bytes at' c as := by
  rw [proceed, hp, herror, hstop]
  rfl

/-- No token is open behind a token whose callback went without an error. -/
theorem Within.closed {cb : List ReadResult} {pre bytes : Bytes} {at' : Nat}
    {tok : Option (Nat × Bool)} {r : JsonReader J} (h : Within cb pre bytes at' tok r)
    {p : JsonParse} {buf : JsonBuf} (hbuf : buf.len = 0) (hp : p.bson.error = none) :
    Within cb pre bytes at' none
      { r with parse := p, stopfl := false, jsonTextPos := none, tokAccumulator := buf } where
  cb := h.cb
  pos := h.pos
  inside := h.inside
  size := h.size
  running := rfl
  same := h.same
  clean := hp
  start := rfl
  begun := fun _ ht => (nomatch ht)
  valid := Or.inl hbuf
  saved := JsonBuf.text_eq_nil hbuf

/-- A token is open behind its push. -/
theorem Within.opened {cb : List ReadResult} {pre bytes : Bytes} {at' : Nat} {r : JsonReader J}
    (h : Within cb pre bytes at' none r) (q : Bool) :
    Within cb pre bytes at' (some (r.pos, q))
      { r with stopfl := false, jsonTextPos := some r.pos } where
  cb := h.cb
  pos := h.pos
  inside := h.inside
  size := h.size
  running := rfl
  same := h.same
  clean := h.clean
  start := rfl
  begun := by
    intro t ht
    cases ht
    exact Nat.le_refl _
  valid := h.valid
  saved := by
    have hnone : r.tokAccumulator.text = [] := h.saved
    have hpos := h.pos
    rw [savedText, hnone, List.drop_of_length_le (by omega)]

section Character

variable {cb : List ReadResult} {pre bytes tail rest : Bytes} {at' : Nat} {c : UInt8} {json : J}
  {tok' : Option (Nat × Bool)}

/-- An event and the callbacks behind it. -/
theorem proceed_event {a : JsonslAction} {as : List JsonslAction} {more : List (JsonToken J)}
    (r : JsonReader J) (e : JsonEvent) (f : JsonReader J → JsonReader J)
    (ha : a.isError = false)
    (hf : ∀ p, (f { r with parse := p }).parse = p)
    (hreset : ∀ p, (f { r with parse := p }).shouldReset = false)
    (hstop : ∀ p, (f { r with parse := p }).stopfl = false)
    (ih : ∀ p, p.bson.error = none →
      CallbacksRun fresh dec cb pre bytes tail at' tok' json as
        (fun ts => p.runTokens fresh dec (more ++ ts))
        (({ f { r with parse := p } with stopfl := false }).callbacks fresh dec lex bytes at' c as)) :
    CallbacksRun fresh dec cb pre bytes tail at' tok' json (a :: as)
      (fun ts => r.parse.runTokens fresh dec (.event e :: more ++ ts))
      (match r.deliver fresh dec e with
        | .error halt => .error halt
        | .ok r => (f r).proceed fresh dec lex bytes at' c as) := by
  unfold deliver
  cases hstep : r.parse.step fresh dec e with
  | error halt =>
    apply CallbacksRun.halted
    intro ts
    simp only [List.cons_append, JsonParse.runTokens, hstep]
  | ok p =>
    have hrun : ∀ ts, r.parse.runTokens fresh dec (.event e :: more ++ ts) =
        if p.bson.error.isSome then .ok (.failed p) else p.runTokens fresh dec (more ++ ts) := by
      intro ts
      simp only [List.cons_append, JsonParse.runTokens, hstep]
    cases herror : p.bson.error with
    | some error =>
      have hsome : p.bson.error.isSome = true := by rw [herror]; rfl
      simp only [proceed_failed _ (hf p) hsome]
      apply CallbacksRun.stopped _ (.failed p)
      · exact .failed p (hf p) (hreset p) hsome
      · intro ts
        rw [hrun ts, if_pos hsome]
    | none =>
      simp only [proceed_clean _ (hf p) herror (hstop p)]
      simp only [herror, Option.isSome_none, Bool.false_eq_true, if_false] at hrun
      exact (ih p herror).cons ha hrun

variable (fresh dec lex tail) in
/-- The actions of a character come to their tokens. -/
theorem callbacks_spec (hrest : bytes.drop at' = c :: rest) (actions : List JsonslAction)
    (tok : Option (Nat × Bool)) (r : JsonReader J) (h : Within cb pre bytes at' tok r)
    (hjson : r.json = json) (horder : tokenAfter r.pos c tok actions = some tok') :
    CallbacksRun fresh dec cb pre bytes tail at' tok' json actions
      (fun ts => r.parse.runTokens fresh dec
        (actionTokens lex json (pre ++ bytes.take at') c (rest ++ tail) actions ++ ts))
      (r.callbacks fresh dec lex bytes at' c actions) := by
  have hlen : (pre ++ bytes.take at').length = r.pos := by
    have hinside := h.inside
    rw [h.pos, List.length_append, List.length_take]
    omega
  induction actions generalizing tok r with
  | nil =>
    rw [tokenAfter, Option.some.injEq] at horder
    subst horder
    exact .went r h hjson rfl fun ts => rfl
  | cons a as ih =>
    cases a with
    | error err =>
      rw [callbacks_error, errorCallback, actionTokens]
      by_cases hnext : err = .cantInsert ∧ c = 123
      · have hnone : tok = none := by
          cases tok with
          | none => rfl
          | some t =>
            rw [tokenAfter, if_pos ⟨hnext.1, hnext.2, rfl⟩] at horder
            cases horder
        subst hnone
        rw [if_pos hnext, if_pos hnext]
        apply CallbacksRun.stopped
        · exact Stopped.restarted hjson rfl h.cb h.start h.len_zero
        · intro ts
          simp only [hrest]
          rfl
      · rw [if_neg hnext, if_neg hnext]
        apply CallbacksRun.stopped
        · exact Stopped.failed _ rfl h.same rfl
        · intro ts
          rw [hlen]
          rfl
    | push type b =>
      rw [callbacks_push]
      cases tok with
      | some t => cases type <;> cases horder
      | none =>
        have hevent : ∀ p, p.bson.error = none →
            Within cb pre bytes at' none { r with parse := p, stopfl := false } := by
          intro p hp
          have hstart : r.jsonTextPos = none := h.start
          simp only [hstart]
          exact h.closed h.len_zero hp
        have htoken : ∀ q, b = r.pos → tokenAfter r.pos c (some (b, q)) as = some tok' →
            CallbacksRun fresh dec cb pre bytes tail at' tok' json (.push type b :: as)
              (fun ts => r.parse.runTokens fresh dec
                (actionTokens lex json (pre ++ bytes.take at') c (rest ++ tail) as ++ ts))
              (({ r with jsonTextPos := some b }).proceed fresh dec lex bytes at' c as) := by
          intro q hb hafter
          subst hb
          rw [proceed_clean { r with jsonTextPos := some r.pos } rfl h.clean h.running]
          exact (ih _ _ (h.opened q) hjson hafter hlen).cons rfl fun _ => rfl
        cases type with
        | object =>
          apply proceed_event r .startMap id rfl (fun _ => rfl) (fun _ => h.same) fun _ => h.running
          intro p hp
          exact ih _ _ (hevent p hp) hjson horder hlen
        | list =>
          apply proceed_event r .startArray id rfl (fun _ => rfl) (fun _ => h.same) fun _ => h.running
          intro p hp
          exact ih _ _ (hevent p hp) hjson horder hlen
        | string =>
          rw [tokenAfter] at horder
          split at horder
          · next hin => exact htoken true hin.1 horder
          · cases horder
        | hkey =>
          rw [tokenAfter] at horder
          split at horder
          · next hin => exact htoken true hin.1 horder
          · cases horder
        | special =>
          rw [tokenAfter] at horder
          split at horder
          · next hin => exact htoken false hin horder
          · cases horder
    | pop state =>
      obtain ⟨hafter, buf, hpop⟩ := h.popState fresh dec lex horder
      rw [callbacks_pop, hpop, actionTokens]
      have hno := popToken_ne_restart lex (pre ++ bytes.take at') state
      generalize popToken lex (pre ++ bytes.take at') state = token at hno
      cases token with
      | event e =>
        apply proceed_event { r with tokAccumulator := buf } e (fun r =>
          { r with jsonTextPos := none, tokAccumulator := { r.tokAccumulator with len := 0 } })
          rfl (fun _ => rfl) (fun _ => h.same) fun _ => h.running
        intro p hp
        exact ih _ _ (h.closed rfl hp) hjson hafter hlen
      | error message =>
        simp only [take]
        rw [proceed_failed _ rfl rfl]
        apply CallbacksRun.stopped
        · exact Stopped.failed _ rfl h.same rfl
        · exact fun _ => rfl
      | restart json rest => exact absurd rfl (hno json rest)
      | halt halt => exact .halted halt fun _ => rfl

end Character

/-- What feeding the rest of a chunk comes to: `run` is the run of the tokens from there to
the end of the text. -/
inductive FeedRun (fresh : JsonHeap) (dec : JsonDecoders) (lex : Jsonsl J)
    (cb : List ReadResult) (pre bytes tail : Bytes) (run : Except JsonHalt (JsonEnding J)) :
    Except JsonHalt (JsonReader J) → Prop
  | halted (halt : JsonHalt) (h : run = .error halt) :
      FeedRun fresh dec lex cb pre bytes tail run (.error halt)
  | stopped (r : JsonReader J) (json : J) (ending : JsonEnding J) (hreach : lex.Reachable json)
      (hr : Stopped cb bytes tail json r ending) (h : run = .ok ending) :
      FeedRun fresh dec lex cb pre bytes tail run (.ok r)
  | fed (r : JsonReader J) (tok : Option (Nat × Bool))
      (hr : Within cb pre bytes bytes.length tok r) (hreach : lex.Reachable r.json)
      (horder : lex.TokensFrom r.json r.pos tok tail)
      (h : run = r.parse.runTokens fresh dec (textTokens lex r.json (pre ++ bytes) tail)) :
      FeedRun fresh dec lex cb pre bytes tail run (.ok r)

theorem Within.next {cb : List ReadResult} {pre bytes : Bytes} {at' : Nat}
    {tok : Option (Nat × Bool)} {r : JsonReader J} (h : Within cb pre bytes at' tok r)
    (hin : at' < bytes.length) :
    Within cb pre bytes (at' + 1) tok { r with pos := r.pos + 1 } where
  cb := h.cb
  pos := congrArg (· + 1) h.pos
  inside := hin
  size := h.size
  running := h.running
  same := h.same
  clean := h.clean
  start := h.start
  begun := fun t ht => Nat.le_succ_of_le (h.begun t ht)
  valid := h.valid
  saved := h.saved

theorem Within.withJson {cb : List ReadResult} {pre bytes : Bytes} {at' : Nat}
    {tok : Option (Nat × Bool)} {r : JsonReader J} (h : Within cb pre bytes at' tok r) (json : J) :
    Within cb pre bytes at' tok { r with json := json } :=
  ⟨h.cb, h.pos, h.inside, h.size, h.running, h.same, h.clean, h.start, h.begun, h.valid, h.saved⟩

variable (fresh dec) in
theorem feed_spec {cb : List ReadResult} {pre bytes tail : Bytes} (rest : Bytes) (at' : Nat)
    (tok : Option (Nat × Bool)) (r : JsonReader J) (h : Within cb pre bytes at' tok r)
    (hrest : bytes.drop at' = rest) (hreach : lex.Reachable r.json)
    (horder : lex.TokensFrom r.json r.pos tok (rest ++ tail)) :
    FeedRun fresh dec lex cb pre bytes tail
      (r.parse.runTokens fresh dec
        (textTokens lex r.json (pre ++ bytes.take at') (rest ++ tail)))
      (r.feed fresh dec lex bytes at' rest) := by
  induction rest generalizing at' tok r with
  | nil =>
    have hinside := h.inside
    have hend : at' = bytes.length := by
      have hlen := congrArg List.length hrest
      rw [List.length_drop, List.length_nil] at hlen
      omega
    subst hend
    apply FeedRun.fed r tok h hreach horder
    rw [List.take_length, List.nil_append]
  | cons c rest ih =>
    have hin : at' < bytes.length := by
      have hlen := congrArg List.length hrest
      rw [List.length_drop, List.length_cons] at hlen
      omega
    have hlen : (pre ++ bytes.take at').length = r.pos := by
      rw [h.pos, List.length_append, List.length_take]
      omega
    have hstep : bytes.take (at' + 1) = bytes.take at' ++ [c] := by
      rw [List.take_add_one, List.getElem?_eq_getElem hin]
      have hget := List.drop_eq_getElem_cons hin
      rw [hrest, List.cons.injEq] at hget
      rw [← hget.1]
      rfl
    have hdrop : bytes.drop (at' + 1) = rest := by
      rw [List.drop_add_one_eq_tail_drop, hrest, List.tail_cons]
    obtain ⟨tok', hafter, hmore⟩ := horder
    rcases hfeed : lex.feed r.json r.pos c with ⟨actions, json⟩
    have hreach' : lex.Reachable json := by
      have hnext := hreach.feed r.json r.pos c
      rw [hfeed] at hnext
      exact hnext
    rw [hfeed] at hafter hmore
    have hspec := callbacks_spec fresh dec lex tail hrest
      actions tok { r with json := json } (h.withJson json) rfl hafter
    rw [List.cons_append, textTokens, hlen, JsonReader.feed, hfeed]
    simp only
    generalize callbacks fresh dec lex { r with json := json } bytes at' c actions = out at hspec
    cases hspec with
    | halted halt hrun => exact .halted halt (hrun _)
    | stopped r' ending hr hrun => exact .stopped r' json ending hreach' hr (hrun _)
    | went r' hr hjson hclean hrun =>
      have hpos : r'.pos = r.pos := hr.pos.trans h.pos.symm
      have hjson : r'.json = json := hjson
      have hnext := ih (at' + 1) tok' { r' with pos := r'.pos + 1 } (hr.next hin) hdrop
        (hjson ▸ hreach') (by rw [hjson, hpos]; exact hmore hclean)
      rw [hrun, ← hjson]
      simp only [hstep, ← List.append_assoc] at hnext
      exact hnext

/-! ## Reads -/

/-- A reader between two documents. -/
structure Idle (cb : List ReadResult) (r : JsonReader J) : Prop where
  cb : r.cb = cb
  pos : r.pos = 0
  running : r.stopfl = false
  same : r.shouldReset = false
  start : r.jsonTextPos = none
  len : r.tokAccumulator.len = 0

/-- The first chunk of a document. -/
theorem Idle.within {cb : List ReadResult} {r : JsonReader J} (h : Idle cb r)
    (hclean : r.parse.bson.error = none) {bytes : Bytes}
    (hsize : bytes.length < 9223372036854775808) : Within cb [] bytes 0 none r where
  cb := h.cb
  pos := h.pos
  inside := Nat.zero_le _
  size := by rw [List.length_nil, Nat.zero_add]; exact hsize
  running := h.running
  same := h.same
  clean := hclean
  start := h.start
  begun := fun _ ht => (nomatch ht)
  valid := Or.inl h.len
  saved := JsonBuf.text_eq_nil h.len

/-- The chunk behind one that has been fed. -/
theorem Within.accumulate {cb : List ReadResult} {pre bytes : Bytes} {tok : Option (Nat × Bool)}
    {r : JsonReader J} (h : Within cb pre bytes bytes.length tok r) (bytes' : Bytes)
    (hsize : (pre ++ bytes).length + bytes'.length < 9223372036854775808) :
    Within cb (pre ++ bytes) bytes' 0 tok { r.accumulate fresh pre.length bytes with buf := [] } := by
  have hpos : r.pos = (pre ++ bytes).length + 0 := by
    rw [h.pos, List.length_append, Nat.add_zero]
  have hlen : r.pos = pre.length + bytes.length := h.pos
  have hword := h.size
  cases tok with
  | none =>
    have hstart : r.jsonTextPos = none := h.start
    unfold JsonReader.accumulate
    rw [hstart]
    exact ⟨h.cb, hpos, Nat.zero_le _, hsize, h.running, h.same, h.clean, h.start, h.begun, h.valid,
      h.saved⟩
  | some t =>
    obtain ⟨b, q⟩ := t
    have hstart : r.jsonTextPos = some b := h.start
    have hsaved : r.tokAccumulator.text = pre.drop b := h.saved
    have hcount := congrArg List.length hsaved
    rw [JsonBuf.text_length, List.length_drop] at hcount
    unfold JsonReader.accumulate
    rw [hstart]
    simp only
    by_cases hopen : b < r.pos
    · rw [if_pos hopen]
      have htake : (bytes.drop (b - pre.length)).take (min (r.pos - b) bytes.length) =
          bytes.drop (b - pre.length) := by
        apply List.take_of_length_le
        rw [List.length_drop]
        omega
      have hspec := JsonBuf.append_spec (fresh.buffer .tokAccumulator) h.valid
        (bytes.drop (b - pre.length)) (by rw [List.length_drop]; omega)
      rw [htake]
      refine ⟨h.cb, hpos, Nat.zero_le _, hsize, h.running, h.same, h.clean, rfl, h.begun,
        hspec.2, ?_⟩
      rw [savedText, List.drop_append, ← hsaved]
      exact hspec.1
    · rw [if_neg hopen]
      have hbegun : b ≤ r.pos := h.begun (b, q) rfl
      refine ⟨h.cb, hpos, Nat.zero_le _, hsize, h.running, h.same, h.clean, hstart, h.begun,
        h.valid, ?_⟩
      have hnone : pre.drop b = [] := List.drop_of_length_le (by omega)
      have hnone' : (pre ++ bytes).drop b = [] := List.drop_of_length_le (by omega)
      rw [savedText, hnone', ← hnone]
      exact hsaved

variable (fresh) in
theorem accumulate_frame (r : JsonReader J) (startPos : Nat) (bytes : Bytes) :
    (r.accumulate fresh startPos bytes).parse = r.parse ∧
      (r.accumulate fresh startPos bytes).json = r.json ∧
      (r.accumulate fresh startPos bytes).pos = r.pos := by
  unfold JsonReader.accumulate
  split
  · exact ⟨rfl, rfl, rfl⟩
  · split <;> exact ⟨rfl, rfl, rfl⟩

/-- What a turn of the loop comes to. -/
inductive TurnRun (fresh : JsonHeap) (dec : JsonDecoders) (lex : Jsonsl J)
    (cb : List ReadResult) (pre tail : Bytes) (run : Except JsonHalt (JsonEnding J)) :
    Except JsonHalt (Turn J) → Prop
  | halted (halt : JsonHalt) (h : run = .error halt) :
      TurnRun fresh dec lex cb pre tail run (.error halt)
  | restarted (r : JsonReader J) (json : J) (hreach : lex.Reachable json) (hr : Idle cb r)
      (hjson : r.json = lex.reset json) (hlen : r.buf.length ≤ pre.length)
      (h : run = .ok (.restarted r.parse json (r.buf ++ tail))) :
      TurnRun fresh dec lex cb pre tail run (.ok (.cleanup 1 r))
  | failed (r : JsonReader J) (h : run = .ok (.failed r.parse)) :
      TurnRun fresh dec lex cb pre tail run (.ok (.cleanup (-1) r))
  | again (r : JsonReader J) (tok : Option (Nat × Bool)) (hbuf : r.buf = [])
      (hr : ∀ bytes : Bytes, pre.length + bytes.length < 9223372036854775808 →
        Within cb pre bytes 0 tok r)
      (hreach : lex.Reachable r.json) (horder : lex.TokensFrom r.json r.pos tok tail)
      (h : run = r.parse.runTokens fresh dec (textTokens lex r.json pre tail)) :
      TurnRun fresh dec lex cb pre tail run (.ok (.again r))

variable (fresh dec) in
theorem readChunk_spec {cb : List ReadResult} {pre bytes : Bytes} (tail : Bytes)
    {tok : Option (Nat × Bool)} {r : JsonReader J} (h : Within cb pre bytes 0 tok r)
    (hreach : lex.Reachable r.json) (horder : lex.TokensFrom r.json r.pos tok (bytes ++ tail)) :
    TurnRun fresh dec lex cb (pre ++ bytes) tail
      (r.parse.runTokens fresh dec (textTokens lex r.json pre (bytes ++ tail)))
      (r.readChunk fresh dec lex bytes) := by
  have hspec := feed_spec fresh dec bytes 0 tok r h rfl hreach horder
  have hpos : r.pos = pre.length := h.pos
  rw [List.take_zero, List.append_nil] at hspec
  unfold readChunk
  generalize r.feed fresh dec lex bytes 0 bytes = out at hspec
  cases hspec with
  | halted halt hrun => exact .halted halt hrun
  | stopped r' json ending hreach' hr hrun =>
    cases hr with
    | restarted hjson hreset hcb hstart hlen =>
      simp only [hreset, if_true]
      apply TurnRun.restarted
      · exact hreach'
      · exact ⟨hcb, rfl, rfl, rfl, hstart, hlen⟩
      · rw [← hjson]
      · simp only [List.length_append, List.length_drop]
        omega
      · exact hrun
    | failed p hparse hreset herror =>
      simp only [hreset, Bool.false_eq_true, if_false, hparse, herror, if_true]
      apply TurnRun.failed
      exact hrun
  | fed r' tok' hr hreach' horder' hrun =>
    obtain ⟨hparse, hjson, hat⟩ := accumulate_frame fresh r' pre.length bytes
    simp only [hr.same, hr.clean, Bool.false_eq_true, if_false, Option.isSome_none, hpos]
    apply TurnRun.again _ tok' rfl
    · exact hr.accumulate
    · simp only [hjson]
      exact hreach'
    · simp only [hjson, hat]
      exact horder'
    · simp only [hjson, hparse]
      exact hrun

/-- What a read comes to, for the ending of the run of its text. -/
inductive ReadRun (lex : Jsonsl J) (text : Bytes) :
    Except JsonHalt (JsonEnding J) → Except JsonHalt (Int × JsonReader J) → Prop
  | halted (halt : JsonHalt) : ReadRun lex text (.error halt) (.error halt)
  | none (p : JsonParse) (r : JsonReader J) (htext : text = []) :
      ReadRun lex text (.ok (.exhausted p)) (.ok (0, r))
  | exhausted (p : JsonParse) (r : JsonReader J) (htext : text ≠ []) (hparse : r.parse = p)
      (hbuf : r.buf = []) (hcb : r.cb = []) :
      ReadRun lex text (.ok (.exhausted p)) (.ok (cleanup 1 r))
  | failed (p : JsonParse) (r : JsonReader J) (hparse : r.parse = p) :
      ReadRun lex text (.ok (.failed p)) (.ok (-1, r))
  | restarted (p : JsonParse) (json : J) (chunks : List Bytes) (r : JsonReader J)
      (hne : ∀ c ∈ chunks, c ≠ []) (hparse : r.parse = p) (hreach : lex.Reachable json)
      (hjson : r.json = lex.reset json) (hr : Idle (chunks.map .octets) r)
      (hsize : (r.buf ++ chunks.flatten).length < 9223372036854775808) :
      ReadRun lex text (.ok (.restarted p json (r.buf ++ chunks.flatten))) (.ok (cleanup 1 r))

variable (fresh dec) in
/-- The loop, with nothing left in the buffer. -/
theorem readChunks_spec {text : Bytes} (chunks : List Bytes) (hne : ∀ c ∈ chunks, c ≠ [])
    {cb : List ReadResult} {pre : Bytes} {tok : Option (Nat × Bool)} {ret : Int} (r : JsonReader J)
    (hbuf : r.buf = [])
    (h : ∀ bytes : Bytes, pre.length + bytes.length < 9223372036854775808 →
      Within cb pre bytes 0 tok r)
    (hreach : lex.Reachable r.json) (horder : lex.TokensFrom r.json r.pos tok chunks.flatten)
    (hsize : text.length < 9223372036854775808) (htext : pre ++ chunks.flatten = text)
    (hret : ret = if pre = [] then 0 else 1) :
    ReadRun lex text
      (r.parse.runTokens fresh dec (textTokens lex r.json pre chunks.flatten))
      (r.readChunks fresh dec lex ret (chunks.map .octets)) := by
  induction chunks generalizing pre tok ret r with
  | nil =>
    rw [List.flatten_nil, List.append_nil] at htext
    subst htext
    by_cases hnil : pre = []
    · rw [if_pos hnil] at hret
      subst hret
      exact .none r.parse { r with cb := [] } hnil
    · rw [if_neg hnil] at hret
      subst hret
      exact .exhausted r.parse { r with cb := [] } hnil rfl hbuf rfl
  | cons chunk chunks ih =>
    rw [List.flatten_cons] at horder htext ⊢
    have hne' : ∀ c ∈ chunks, c ≠ [] := fun c hc => hne c (List.mem_cons_of_mem _ hc)
    have htotal := congrArg List.length htext
    rw [List.length_append, List.length_append] at htotal
    cases chunk with
    | nil => exact absurd rfl (hne [] (List.mem_cons_self ..))
    | cons b bs =>
      have hspec := readChunk_spec fresh dec chunks.flatten (h (b :: bs) (by omega)) hreach
        horder
      rw [List.map_cons, JsonReader.readChunks]
      generalize r.readChunk fresh dec lex (b :: bs) = out at hspec
      cases hspec with
      | halted halt hrun =>
        rw [hrun]
        exact .halted halt
      | restarted r' json hreach' hr hjson hlen hrun =>
        rw [hrun]
        apply ReadRun.restarted r'.parse json chunks { r' with cb := chunks.map .octets } hne' rfl
          hreach' hjson ⟨rfl, hr.pos, hr.running, hr.same, hr.start, hr.len⟩
        rw [List.length_append] at hlen ⊢
        simp only
        omega
      | failed r' hrun =>
        rw [hrun]
        exact .failed r'.parse { r' with cb := chunks.map .octets } rfl
      | again r' tok' hbuf' hr hreach' horder' hrun =>
        rw [hrun]
        apply ih hne' r' hbuf' hr hreach' horder'
        · rw [List.append_assoc]
          exact htext
        · rw [if_neg (by simp)]

/-- A reader in front of the text `text`: what is left in its buffer, and chunks of the rest. -/
structure Before (lex : Jsonsl J) (p : JsonParse) (json : J) (text : Bytes) (r : JsonReader J) :
    Prop where
  chunks : ∃ chunks : List Bytes, (∀ c ∈ chunks, c ≠ []) ∧ Idle (chunks.map .octets) r ∧
    r.buf ++ chunks.flatten = text
  parse : r.parse = p
  parser : r.json = lex.reset json
  reachable : lex.Reachable json
  size : text.length < 9223372036854775808

variable (fresh dec) in
theorem read_spec (hlex : lex.TokensInOrder) {p : JsonParse} {json : J} {text : Bytes}
    {r : JsonReader J} (h : Before lex p json text r) :
    ReadRun lex text
      ((p.start fresh).runTokens fresh dec (textTokens lex (lex.reset json) [] text))
      (r.read fresh dec lex) := by
  obtain ⟨chunks, hne, hidle, htext⟩ := h.chunks
  have hsize := h.size
  have horder := hlex json h.reachable text
  have hreach : lex.Reachable (lex.reset json) := .reset json h.reachable
  rw [← h.parser] at horder hreach ⊢
  rw [← hidle.pos] at horder
  rw [← h.parse]
  have hstart : Idle (chunks.map .octets) (r.start fresh) :=
    ⟨hidle.cb, hidle.pos, hidle.running, hidle.same, hidle.start, hidle.len⟩
  unfold JsonReader.read
  by_cases hbuf : r.buf = []
  · rw [hbuf, List.nil_append] at htext
    have hfirst : ∀ bytes : Bytes, ([] : Bytes).length + bytes.length < 9223372036854775808 →
        Within (chunks.map .octets) [] bytes 0 none (r.start fresh) := by
      intro bytes hbytes
      rw [List.length_nil, Nat.zero_add] at hbytes
      exact hstart.within rfl hbytes
    have hspec := readChunks_spec fresh dec chunks hne (r.start fresh) hbuf
      hfirst hreach (by rw [htext]; exact horder) hsize htext rfl
    have hempty : (r.start fresh).buf = [] := hbuf
    simp only [hempty, if_true, hstart.cb]
    rw [htext] at hspec
    exact hspec
  · have hfirst : Within (chunks.map .octets) [] r.buf 0 none (r.start fresh) := by
      apply hstart.within rfl
      rw [← htext, List.length_append] at hsize
      omega
    have hspec := readChunk_spec fresh dec chunks.flatten hfirst hreach
      (by rw [htext]; exact horder)
    have hnonempty : ¬ (r.start fresh).buf = [] := hbuf
    simp only [hnonempty, if_false]
    rw [htext] at hspec
    have hbuf' : (r.start fresh).buf = r.buf := rfl
    rw [hbuf']
    generalize (r.start fresh).readChunk fresh dec lex r.buf = out at hspec
    cases hspec with
    | halted halt hrun =>
      exact hrun ▸ .halted halt
    | restarted r' json' hreach' hr hjson hlen hrun =>
      have hfits : (r'.buf ++ chunks.flatten).length < 9223372036854775808 := by
        rw [← htext, List.length_append] at hsize
        rw [List.nil_append] at hlen
        rw [List.length_append]
        omega
      exact hrun ▸ .restarted r'.parse json' chunks r' hne rfl hreach' hjson hr hfits
    | failed r' hrun =>
      exact hrun ▸ .failed r'.parse r' rfl
    | again r' tok' hbuf' hr hreach' horder' hrun =>
      have hnext := readChunks_spec fresh dec chunks hne r' hbuf' hr
        hreach' horder' hsize htext (by rw [if_neg (by simpa using hbuf)])
      simp only [hstart.cb]
      exact hrun ▸ hnext

/-- What a caller sees of a read that does not fail, and of those behind it. -/
theorem results_cleanup (r : JsonReader J) (n : Nat) (next : List Result)
    (h : r.results fresh dec lex n = next) :
    (if (cleanup 1 r).1 = 1 then
        Result.document (cleanup 1 r).2.document :: (cleanup 1 r).2.results fresh dec lex n
      else if (cleanup 1 r).1 = 0 then [.done] else [.error (cleanup 1 r).2.parse.bson.error]) =
      if r.parse.bson.readState ≠ .done then
        [.error (r.parse.bson.corrupt [ascii "Incomplete JSON"]).error]
      else .document r.parse.document :: next := by
  unfold cleanup
  by_cases hdone : r.parse.bson.readState = .done
  · simp only [hdone, ne_eq, not_true_eq_false, and_false, if_false, if_true, h]
    rfl
  · simp only [hdone, ne_eq, not_false_eq_true, and_self, if_true]
    rfl

/-- Nothing is left. -/
theorem results_finished (r : JsonReader J) (hbuf : r.buf = []) (hcb : r.cb = []) (n : Nat)
    (p : JsonParse) (json : J) :
    r.results fresh dec lex n = p.textResults fresh dec lex n json [] := by
  cases n with
  | zero => rfl
  | succ n =>
    have hread : r.read fresh dec lex = .ok (cleanup 0 { r.start fresh with cb := [] }) := by
      have hbuf' : (r.start fresh).buf = [] := hbuf
      have hcb' : (r.start fresh).cb = [] := hcb
      unfold read
      simp only
      rw [if_pos hbuf', hcb', readChunks]
    rw [results, hread, cleanup, if_neg (fun h => absurd h.1 (by decide))]
    rfl

variable (fresh dec) in
/-- The results of reading on, whatever is left in the buffer and however the rest comes. -/
theorem results_spec (hlex : lex.TokensInOrder) (n : Nat) {p : JsonParse} {json : J} {text : Bytes}
    {r : JsonReader J} (h : Before lex p json text r) :
    r.results fresh dec lex n = p.textResults fresh dec lex n (lex.reset json) text := by
  induction n generalizing p json text r with
  | zero => rfl
  | succ n ih =>
    have hspec := read_spec fresh dec hlex h
    rw [JsonReader.results, JsonParse.textResults]
    generalize (p.start fresh).runTokens fresh dec (textTokens lex (lex.reset json) [] text) = run
      at hspec
    generalize r.read fresh dec lex = out at hspec
    cases hspec with
    | halted halt => rfl
    | none p' r' htext =>
      subst htext
      rfl
    | exhausted p' r' htext hparse hbuf hcb =>
      subst hparse
      simp only [htext, if_false]
      exact results_cleanup r' n _ (results_finished r' hbuf hcb n _ _)
    | failed p' r' hparse =>
      subst hparse
      rfl
    | restarted p' json' chunks r' hne hparse hreach hjson hr hsize =>
      subst hparse
      exact results_cleanup r' n _ (ih ⟨⟨chunks, hne, hr, rfl⟩, rfl, hjson, hreach, hsize⟩)

/-- A new reader. -/
theorem before_new (lex : Jsonsl J) {chunks : List Bytes} (hne : ∀ c ∈ chunks, c ≠ [])
    (hsize : chunks.flatten.length < 9223372036854775808) :
    Before lex .new lex.zeroed
      chunks.flatten (new lex (chunks.map .octets)) where
  chunks := ⟨chunks, hne, ⟨rfl, rfl, rfl, rfl, rfl, rfl⟩, rfl⟩
  parse := rfl
  parser := rfl
  reachable := .zeroed
  size := hsize

end Feed

end JsonReader

end LibBson.Source
