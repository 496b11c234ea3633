import LibBson.Source.JsonslLaws

/-!
# Tokens are whole

A token that ends has begun in front of its last character, and a quoted one with
its quote, so that no assertion of the jsonsl callbacks fails; its text is a part of
what has been read. Source: bson-json.c:1786-1976, jsonsl.c:1220-1440.
-/

set_option autoImplicit false

namespace LibBson.Source
open LibBson.Library

/-- The octets of a key or a string. -/
def JsonEvent.text : JsonEvent → Bytes
  | .key val => val
  | .string val => val
  | _ => []

section Whole

variable {J : Type} (lex : Jsonsl J)

/-- No token up to an error or the next document halts the reader, texts are at most
`n` octets, and the next document is one the parser can be reset for. -/
def Whole (n : Nat) : List (JsonToken J) → Prop
  | [] => True
  | .event e :: ts => e.text.length ≤ n ∧ Whole n ts
  | .error _ :: _ => True
  | .restart json rest :: _ =>
    lex.Reachable json ∧ rest.head? = some 123 ∧ rest.length ≤ n
  | .halt _ :: _ => False

/-- An open token begins in `read`, a quoted one with a quote. -/
def OpenIn (read : Bytes) (tok : Option (Nat × Bool)) : Prop :=
  ∀ b quoted, tok = some (b, quoted) → b < read.length ∧ (quoted = true → read[b]? = some 34)

theorem openIn_none (read : Bytes) : OpenIn read none := fun _ _ h => (nomatch h)

theorem OpenIn.append {read : Bytes} {tok : Option (Nat × Bool)} (h : OpenIn read tok)
    (more : Bytes) : OpenIn (read ++ more) tok := by
  intro b quoted htok
  obtain ⟨hb, hquote⟩ := h b quoted htok
  refine ⟨by rw [List.length_append]; omega, fun hq => ?_⟩
  rw [List.getElem?_append_left hb]
  exact hquote hq

theorem openIn_pushed (pre : Bytes) (c : UInt8) {quoted : Bool} (h : quoted = true → c = 34) :
    OpenIn (pre ++ [c]) (some (pre.length, quoted)) := by
  intro b q htok
  cases htok
  refine ⟨by rw [List.length_append]; exact Nat.lt_succ_self _, fun hq => ?_⟩
  rw [List.getElem?_append_right (Nat.le_refl _), Nat.sub_self, h hq]
  rfl

/-- Unescaping does not make a text longer. -/
def Shortens : Prop := ∀ s v, lex.unescape s = .ok v → v.length ≤ s.length

variable {lex}

theorem quotedToken_whole {pre : Bytes} {b n : Nat} (c : UInt8) (hshort : Shortens lex)
    (hopen : OpenIn (pre ++ [c]) (some (b, true))) (hb : b < pre.length) (hn : pre.length ≤ n)
    (event : Bytes → JsonEvent) (hevent : ∀ val, (event val).text = val) (ts : List (JsonToken J))
    (hts : Whole lex n ts) : Whole lex n (quotedToken lex pre b event :: ts) := by
  have hquote := (hopen b true rfl).2 rfl
  rw [List.getElem?_append_left hb] at hquote
  have hhead : (pre.drop b).headD 0 = 34 := by
    rw [List.headD_eq_head?_getD, List.head?_drop, hquote]
    rfl
  unfold quotedToken tokenText
  rw [if_neg (Nat.not_le.mpr hb)]
  simp only [hhead, ne_eq, not_true_eq_false, if_false]
  cases hval : lex.unescape (pre.drop b).tail with
  | error err => exact trivial
  | ok val =>
    have hlen := hshort _ _ hval
    rw [List.length_tail, List.length_drop] at hlen
    refine ⟨?_, hts⟩
    rw [hevent]
    omega

theorem specialToken_whole {pre : Bytes} {b n : Nat} (hb : b < pre.length)
    (event : Bytes → JsonEvent) (hevent : ∀ val, (event val).text = []) (ts : List (JsonToken J))
    (hts : Whole lex n ts) :
    Whole lex n (tokenText pre b (fun text => .event (event text)) :: ts) := by
  unfold tokenText
  rw [if_neg (Nat.not_le.mpr hb)]
  refine ⟨?_, hts⟩
  rw [hevent]
  exact Nat.zero_le n

/-- The tokens of actions in order are whole if those behind them are. -/
theorem actionTokens_whole {pre rest : Bytes} {c : UInt8} {n : Nat} {json : J}
    (hshort : Shortens lex) (hjson : lex.Reachable json) (hn : pre.length ≤ n)
    (hrest : (c :: rest).length ≤ n)
    (actions : List JsonslAction) {tok tok' : Option (Nat × Bool)}
    (horder : tokenAfter pre.length c tok actions = some tok') (hopen : OpenIn (pre ++ [c]) tok)
    (ts : List (JsonToken J))
    (hts : actions.any JsonslAction.isError = false → OpenIn (pre ++ [c]) tok' → Whole lex n ts) :
    Whole lex n (actionTokens lex json pre c rest actions ++ ts) := by
  induction actions generalizing tok with
  | nil =>
    cases horder
    exact hts rfl hopen
  | cons a as ih =>
    cases a with
    | error err =>
      unfold actionTokens
      by_cases hrestart : err = .cantInsert ∧ c = 123
      · rw [if_pos hrestart, List.cons_append]
        exact ⟨hjson, by rw [hrestart.2]; rfl, hrest⟩
      · rw [if_neg hrestart, List.cons_append]
        exact trivial
    | push type b =>
      cases tok with
      | some t => cases type <;> cases horder
      | none =>
        cases type with
        | object | list =>
          exact ⟨Nat.zero_le n, ih horder (openIn_none _) hts⟩
        | special =>
          simp only [tokenAfter] at horder
          split at horder
          · next hpos =>
            subst hpos
            exact ih horder (openIn_pushed pre c fun h => by cases h) hts
          · cases horder
        | string | hkey =>
          simp only [tokenAfter] at horder
          split at horder
          · next hpos =>
            obtain ⟨rfl, hquote⟩ := hpos
            exact ih horder (openIn_pushed pre c fun _ => hquote) hts
          · cases horder
    | pop state =>
      rw [actionTokens, List.cons_append, popToken]
      cases htype : state.type with
      | object | list =>
        cases tok with
        | some t => simp only [tokenAfter, htype] at horder; cases horder
        | none =>
          simp only [tokenAfter, htype] at horder
          exact ⟨Nat.zero_le n, ih horder (openIn_none _) hts⟩
      | special =>
        cases tok with
        | none => simp only [tokenAfter, htype] at horder; cases horder
        | some t =>
          simp only [tokenAfter, htype] at horder
          split at horder
          · next hend =>
            obtain ⟨hpos, hb, -⟩ := hend
            rw [hpos] at hb
            exact specialToken_whole hb _ (fun _ => rfl) _ (ih horder (openIn_none _) hts)
          · cases horder
      | string | hkey =>
        cases tok with
        | none => simp only [tokenAfter, htype] at horder; cases horder
        | some t =>
          obtain ⟨b, quoted⟩ := t
          simp only [tokenAfter, htype] at horder
          split at horder
          · next hend =>
            obtain ⟨hpos, hb, hquoted⟩ := hend
            subst hpos hquoted
            exact quotedToken_whole c hshort hopen hb hn _ (fun _ => rfl) _
              (ih horder (openIn_none _) hts)
          · cases horder

theorem textTokens_whole (hshort : Shortens lex) {n : Nat} {j : J} (hj : lex.Reachable j)
    (text : Bytes) {pre : Bytes} {tok : Option (Nat × Bool)} (hn : pre.length + text.length ≤ n)
    (horder : lex.TokensFrom j pre.length tok text) (hopen : OpenIn pre tok) :
    Whole lex n (textTokens lex j pre text) := by
  induction text generalizing j pre tok with
  | nil => exact trivial
  | cons c rest ih =>
    obtain ⟨tok', horder, hmore⟩ := horder
    rw [List.length_cons] at hn
    apply actionTokens_whole hshort (.feed j pre.length c hj) (by omega)
      (by rw [List.length_cons]; omega) _ horder (hopen.append [c])
    intro hclean hopen'
    have hlen : (pre ++ [c]).length = pre.length + 1 := List.length_append
    apply ih (.feed j pre.length c hj) (by omega) _ hopen'
    rw [hlen]
    exact hmore hclean

end Whole

/-! ## jsonsl -/

theorem writeUtf8_length (pt : Nat) : (writeUtf8 pt).length ≤ 4 := by
  unfold writeUtf8
  split
  · exact Nat.le_add_left 1 3
  · split
    · exact Nat.le_add_left 2 2
    · split
      · exact Nat.le_succ 3
      · exact Nat.le_refl 4

theorem uescape_length {last uescval : Nat} {out : Bytes} {last' : Nat}
    (h : uescape last uescval = .ok (out, last')) : out.length ≤ 4 := by
  unfold uescape at h
  split at h
  · split at h
    · cases h
    · generalize hpt : ((last &&& 0x3FF) <<< 10 ||| (uescval &&& 0x3FF)) + 0x10000 = pt at h
      cases h
      exact writeUtf8_length pt
  · split at h
    · cases h
      exact writeUtf8_length uescval
    · split at h
      · cases h
        exact Nat.zero_le 4
      · cases h

theorem except_map_ok {ε α β : Type} {f : α → β} {x : Except ε α} {v : β} (h : x.map f = .ok v) :
    ∃ a, x = .ok a ∧ f a = v := by
  cases x with
  | error e => cases h
  | ok a => exact ⟨a, rfl, Except.ok.inj h⟩

theorem unescapeFrom_length (last : Nat) (s : Bytes) {v : Bytes}
    (h : unescapeFrom last s = .ok v) : v.length ≤ s.length := by
  fun_induction unescapeFrom last s generalizing v
  all_goals try cases h; done
  · cases h
    exact Nat.le_refl 0
  · next ih =>
    obtain ⟨a, ha, rfl⟩ := except_map_ok h
    exact Nat.succ_le_succ (ih ha)
  · next ih =>
    obtain ⟨a, ha, rfl⟩ := except_map_ok h
    have hlen := ih ha
    simp only [List.length_cons]
    omega
  · next hout ih =>
    obtain ⟨a, ha, rfl⟩ := except_map_ok h
    have hlen := ih ha
    have hfour := uescape_length hout
    simp only [List.length_append, List.length_cons]
    omega

theorem jsonsl_shortens : Shortens jsonsl := fun s _ h => unescapeFrom_length 0 s h

/-- The tokens of a text are whole. -/
theorem jsonsl_whole {j : JsonslSt} (hj : jsonsl.Reachable j) (text : Bytes) :
    Whole jsonsl text.length (textTokens jsonsl (jsonsl.reset j) [] text) :=
  textTokens_whole jsonsl_shortens (.reset j hj) text (Nat.le_of_eq (Nat.zero_add _))
    (jsonsl_tokensInOrder j hj text) (openIn_none _)

/-- A parser that has been reset takes a brace. -/
theorem jsonsl_feed_brace {j : JsonslSt} (hj : jsonsl.Reachable j) :
    ((jsonsl.reset j).feed 0 123).1 = [.push .object 0] := by
  have hroot : (JsonslSt.reset j).top.type = .root := (JsonslSt.standing_reachable (.reset j hj)).rooted
  have hlacks : (JsonslSt.reset j).lacksKey = false := by
    rw [JsonslSt.lacksKey, hroot]
    exact Bool.and_false _
  have hfeed : (JsonslSt.reset j).feed 0 123 = (JsonslSt.reset j).openContainer 0 true := by
    unfold JsonslSt.feed
    rw [hroot]
    rfl
  show ((JsonslSt.reset j).feed 0 123).1 = [.push .object 0]
  rw [hfeed, JsonslSt.openContainer, if_neg (fun h => by cases h), hlacks]
  rfl

/-- A text that begins with a brace begins with a map. -/
theorem jsonsl_brace {j : JsonslSt} (hj : jsonsl.Reachable j) {text : Bytes}
    (h : text.head? = some 123) :
    ∃ ts, textTokens jsonsl (jsonsl.reset j) [] text = .event .startMap :: ts := by
  cases text with
  | nil => cases h
  | cons c rest =>
    cases h
    have hfeed := jsonsl_feed_brace hj
    have hactions : (jsonsl.feed (jsonsl.reset j) ([] : Bytes).length 123).1 = [.push .object 0] :=
      hfeed
    refine ⟨textTokens jsonsl (jsonsl.feed (jsonsl.reset j) 0 123).2 [123] rest, ?_⟩
    rw [textTokens]
    simp only [hactions]
    rfl

end LibBson.Source
