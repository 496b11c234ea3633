import LibBson.Source.AsJsonLaws

/-!
# What a printer does field by field

`visitedValue` is the visit of one value from a blank state, `afterField` the state
behind a field: `visitWalked_fields` says of every visit of a printer at which field it
stops, if at one, and in which state. The text of a value is what its calls append
(`performAll_text`).
-/

set_option autoImplicit false

namespace LibBson.Source
open LibBson.Library

/-! ## The text of calls -/

namespace StringCall

/-- What a call that succeeds adds. -/
def text : StringCall → Bytes
  | append str => (cText str).take (u32 (strlen str))
  | appendC c => [c]
  | lost => []

/-- Every character appended alone is none that ends a string. -/
def Proper (calls : List StringCall) : Prop := appendC 0 ∉ calls

end StringCall

def callsText (calls : List StringCall) : Bytes := (calls.map StringCall.text).flatten

theorem callsText_append (xs ys : List StringCall) :
    callsText (xs ++ ys) = callsText xs ++ callsText ys := by
  simp [callsText]

theorem perform_text {string string' : BsonString} {call : StringCall}
    (hc : call ≠ .appendC 0) (h : string.perform call = some string') :
    string'.str = string.str ++ call.text := by
  cases call with
  | lost => cases h
  | append str => exact (bsonStringAppend_some h).1
  | appendC c =>
    simp only [BsonString.perform, bsonStringAppendC] at h
    split at h
    · have hc' : c ≠ 0 := fun h0 => hc (congrArg _ h0)
      have hone : (cText [c]).take (u32 (strlen [c])) = [c] := by
        have hnul : (0 : UInt8) ∉ [c] := by simpa using hc'.symm
        rw [strlen, cText_of_no_nul hnul]
        rfl
      rw [(bsonStringAppend_some h).1, hone]
      rfl
    · split at h <;> cases h
      rfl

theorem performAll_append (string : BsonString) (xs ys : List StringCall) :
    string.performAll (xs ++ ys) = (string.performAll xs).bind fun s => s.performAll ys := by
  simp only [BsonString.performAll, List.foldlM_append]
  rfl

theorem performAll_text {string string' : BsonString} {calls : List StringCall}
    (hc : StringCall.Proper calls) (h : string.performAll calls = some string') :
    string'.str = string.str ++ callsText calls := by
  induction calls generalizing string with
  | nil =>
    cases h
    simp [callsText]
  | cons call calls ih =>
    simp only [BsonString.performAll, List.foldlM_cons] at h
    cases hcall : string.perform call with
    | none => simp [hcall] at h
    | some next =>
      rw [hcall] at h
      simp only [StringCall.Proper, List.mem_cons, not_or] at hc
      rw [ih hc.2 h, perform_text (Ne.symm hc.1) hcall]
      simp [callsText]

/-! ## What every callback keeps -/

section Proper

variable {mode : BsonJsonMode} {depth : Nat}

/-- No NUL was appended as a character; mode and depth are as they were. -/
structure ProperState (mode : BsonJsonMode) (depth : Nat) (s : BsonJsonState) : Prop where
  calls : StringCall.Proper s.str
  mode : s.mode = mode
  depth : s.depth = depth

theorem proper_perform {s : BsonJsonState} (hs : ProperState mode depth s)
    {calls : List StringCall} (hc : StringCall.Proper calls) :
    ProperState mode depth (s.perform calls) where
  calls := by
    have hold := hs.calls
    unfold StringCall.Proper at *
    simp only [BsonJsonState.perform, List.mem_append, not_or]
    exact ⟨hold, hc⟩
  mode := hs.mode
  depth := hs.depth

theorem proper_counted {s : BsonJsonState} (hs : ProperState mode depth s) (n : Nat) :
    ProperState mode depth { s with count := n } :=
  ⟨hs.calls, hs.mode, hs.depth⟩

theorem proper_errOffset {s : BsonJsonState} (hs : ProperState mode depth s) (e : Option Nat) :
    ProperState mode depth { s with errOffset := e } :=
  ⟨hs.calls, hs.mode, hs.depth⟩

theorem proper_texts (texts : List Bytes) : StringCall.Proper (texts.map .append) := by
  simp [StringCall.Proper]

theorem proper_lost : StringCall.Proper [.lost] := by simp [StringCall.Proper]

theorem proper_appends {s : BsonJsonState} (hs : ProperState mode depth s) (texts : List Bytes) :
    ProperState mode depth (s.appends texts).2 := proper_perform hs (proper_texts texts)

theorem proper_escapedOr {s : BsonJsonState} (hs : ProperState mode depth s) (escaped : Escaped)
    {next : Bytes → Bool × BsonJsonState} (h : ∀ text, ProperState mode depth (next text).2) :
    ProperState mode depth (s.escapedOr escaped next).2 := by
  cases escaped with
  | lost => exact proper_perform hs proper_lost
  | null => exact hs
  | text str => exact h str

theorem proper_options (options : Bytes) :
    StringCall.Proper ((bsonAppendRegexOptionsSorted options).map .appendC) := by
  intro hmem
  obtain ⟨c, hc, hzero⟩ := List.mem_map.mp hmem
  have hnone : (0 : UInt8) ∉ bsonRegexOptionsSorted := by decide
  cases hzero
  exact hnone (List.mem_filter.mp hc).1

theorem proper_dateTime (mode : BsonJsonMode) (msec : Int) :
    StringCall.Proper (asJsonVisitDateTime mode msec) := by
  unfold asJsonVisitDateTime bsonIso8601DateFormat
  dsimp only
  split
  · exact proper_texts [_, _, _]
  · split
    · split
      · exact proper_texts [_, _, _]
      · simp [StringCall.Proper]
    · exact proper_texts [_, _, _]

theorem proper_nested (v : Visitor BsonJsonState) (keys : Bool) (bracket close : UInt8)
    (b : BsonRef) {s : BsonJsonState} (hs : ProperState mode depth s) :
    ProperState mode depth (visitNested v keys bracket close b s).2 := by
  unfold visitNested
  split
  · exact proper_appends hs _
  · split
    · exact hs
    · simp only [nestedResult]
      split
      · exact proper_perform (proper_errOffset hs _) proper_lost
      · split
        · exact proper_errOffset hs _
        · split
          · exact proper_perform (proper_errOffset hs _) proper_lost
          · exact proper_appends (proper_errOffset hs _) _

theorem proper_codewscope (v : Visitor BsonJsonState) (a : Bytes × BsonRef) {s : BsonJsonState}
    (hs : ProperState mode depth s) : ProperState mode depth (bsonAsJsonVisitCodewscope v a s).2 := by
  refine proper_escapedOr hs _ fun text => ?_
  split
  · exact proper_perform hs proper_lost
  · exact hs
  · exact proper_appends hs _

theorem proper_before (key : Bytes) {s : BsonJsonState} (hs : ProperState mode depth s) :
    ProperState mode depth (bsonAsJsonVisitBefore s key).2 := by
  have hcomma : ProperState mode depth (appendComma s) := by
    unfold appendComma
    split
    · exact hs
    · exact proper_perform hs (proper_texts [_])
  unfold bsonAsJsonVisitBefore
  dsimp only
  split
  · exact proper_escapedOr hcomma _ fun text =>
      proper_counted (proper_perform hcomma (proper_texts [_, _, _])) _
  · exact proper_counted hcomma _

theorem proper_keeps (n : Nat) : (bsonAsJsonVisitors n).Keeps (ProperState mode depth) := by
  cases n with
  | zero => constructor <;> intro g hg <;> cases hg
  | succ n =>
    exact {
      before := Callback.keeps_some fun _ key _ s hs => proper_before key hs
      after := Callback.keeps_none _
      corrupt := fun g hg it s hs => by
        cases hg
        exact proper_errOffset hs _
      double := Callback.keeps_some fun _ _ v s hs => by
        unfold bsonAsJsonVisitDouble
        dsimp only
        split <;> exact proper_appends hs _
      utf8 := Callback.keeps_some fun _ _ v s hs =>
        proper_escapedOr hs _ fun _ => proper_appends hs _
      document := Callback.keeps_some fun _ _ v s hs => proper_nested _ _ _ _ _ hs
      array := Callback.keeps_some fun _ _ v s hs => proper_nested _ _ _ _ _ hs
      binary := Callback.keeps_some fun _ _ v s hs => by
        unfold bsonAsJsonVisitBinary
        dsimp only
        split <;> exact proper_appends hs _
      undefined := Callback.keeps_some fun _ _ _ s hs => proper_appends hs _
      oid := Callback.keeps_some fun _ _ _ s hs => proper_appends hs _
      bool := Callback.keeps_some fun _ _ _ s hs => proper_appends hs _
      dateTime := Callback.keeps_some fun _ _ v s hs => proper_perform hs (proper_dateTime s.mode v)
      null := Callback.keeps_some fun _ _ _ s hs => proper_appends hs _
      regex := Callback.keeps_some fun _ _ v s hs => proper_escapedOr hs _ fun _ => by
        have hopt := proper_options v.2
        dsimp only
        split <;> refine proper_perform hs ?_ <;>
          simpa [StringCall.Proper] using hopt
      dbpointer := Callback.keeps_some fun _ _ v s hs => proper_escapedOr hs _ fun _ => by
        split <;> exact proper_appends hs _
      code := Callback.keeps_some fun _ _ v s hs =>
        proper_escapedOr hs _ fun _ => proper_appends hs _
      symbol := Callback.keeps_some fun _ _ v s hs => proper_escapedOr hs _ fun _ => by
        split <;> exact proper_appends hs _
      codewscope := Callback.keeps_some fun _ _ v s hs => proper_codewscope _ v hs
      int32 := Callback.keeps_some fun _ _ v s hs => by
        unfold bsonAsJsonVisitInt32
        split <;> exact proper_appends hs _
      timestamp := Callback.keeps_some fun _ _ _ s hs => proper_appends hs _
      int64 := Callback.keeps_some fun _ _ v s hs => by
        unfold bsonAsJsonVisitInt64
        split <;> exact proper_appends hs _
      maxkey := Callback.keeps_some fun _ _ _ s hs => proper_appends hs _
      minkey := Callback.keeps_some fun _ _ _ s hs => proper_appends hs _
      unsupportedType := fun g hg => nomatch hg
      decimal128 := Callback.keeps_some fun _ _ _ s hs => proper_appends hs _ }

end Proper

/-! ## One field -/

/-- The visit of a value from a blank state, with visitors for `n` levels. -/
def visitedValue (n : Nat) (f : BsonIter × Bytes) : Visited BsonJsonState :=
  visitValue (bsonAsJsonVisitors n) f.1 f.2 (.init false .legacy)

/-- The value stops the visit: its text is refused, or its callback returns true. -/
def refuses (n : Nat) (f : BsonIter × Bytes) : Bool := (visitedValue n f).stop

def valueCalls (n : Nat) (f : BsonIter × Bytes) : List StringCall := (visitedValue n f).data.str

/-- The value has documents in it in which the visit has seen corruption. -/
def corrupts (n : Nat) (f : BsonIter × Bytes) : Bool := (visitedValue n f).data.errOffset.isSome

def separator (count : Nat) : List StringCall :=
  if count = 0 then [] else [.append (ascii ", ")]

/-- The key can be escaped. -/
def keyPrints (key : Bytes) : Bool :=
  match escapeCString key with
  | .text _ => true
  | _ => false

def keyCalls (key : Bytes) : List StringCall :=
  match escapeCString key with
  | .lost => [.lost]
  | .null => []
  | .text escaped => [.append (ascii "\""), .append escaped, .append (ascii "\" : ")]

/-- What stands in front of the value. -/
def frontCalls (keys : Bool) (count : Nat) (f : BsonIter × Bytes) : List StringCall :=
  separator count ++ if keys then keyCalls f.2 else []

/-- The field stops a visit by its key. -/
def keyStops (keys : Bool) (f : BsonIter × Bytes) : Bool := keys && !keyPrints f.2

def fieldStops (n : Nat) (keys : Bool) (f : BsonIter × Bytes) : Bool :=
  keyStops keys f || refuses n f

/-- The state behind a field whose value was visited. -/
def afterField (n : Nat) (f : BsonIter × Bytes) (s : BsonJsonState) : BsonJsonState :=
  { s with
    count := s.count + 1
    errOffset := (visitedValue n f).data.errOffset.or s.errOffset
    str := s.str ++ frontCalls s.keys s.count f ++ valueCalls n f }

/-- A printer on the top level in legacy mode. -/
abbrev Plain (s : BsonJsonState) : Prop := ProperState .legacy 0 s

theorem plain_init (keys : Bool) : Plain (.init keys .legacy) where
  calls := List.not_mem_nil
  mode := rfl
  depth := rfl

theorem visitedValue_plain (n : Nat) (f : BsonIter × Bytes) : Plain (visitedValue n f).data :=
  visitValue_keeps (proper_keeps n) f.1 f.2 (plain_init false)

/-- A value is visited in every state as in a blank one. -/
theorem visitValue_blank (n : Nat) (f : BsonIter × Bytes) {s : BsonJsonState} (hs : Plain s) :
    visitValue (bsonAsJsonVisitors n) f.1 f.2 s =
      { stop := refuses n f
        iter := (visitedValue n f).iter
        data := { s with
          errOffset := (visitedValue n f).data.errOffset.or s.errOffset
          str := s.str ++ valueCalls n f } } := by
  have hblank : s = (BsonJsonState.init false .legacy).resumed (some s.count) (some s.keys) s.str
      s.errOffset := by
    cases s with
    | mk count keys errOffset depth str mode =>
      obtain ⟨-, hmode, hdepth⟩ := hs
      dsimp only at hmode hdepth
      subst hmode hdepth
      simp [BsonJsonState.init, BsonJsonState.resumed]
  have hmap := visitValue_map (asJson_commutes n (some s.count) (some s.keys) s.str s.errOffset)
    f.1 f.2 (.init false .legacy)
  have hplain := visitedValue_plain n f
  rw [← hblank] at hmap
  rw [hmap]
  simp only [Visited.map, BsonJsonState.resumed, refuses, valueCalls, visitedValue] at hplain ⊢
  rw [hplain.mode, hplain.depth, hs.mode, hs.depth]
  rfl

theorem appendComma_eq (s : BsonJsonState) : appendComma s = s.perform (separator s.count) := by
  unfold appendComma separator
  split
  · simp [BsonJsonState.perform]
  · rfl

/-- `visit_before`, with its four calls in order. -/
theorem visitBefore_eq (f : BsonIter × Bytes) (s : BsonJsonState) :
    bsonAsJsonVisitBefore s f.2 =
      if keyStops s.keys f then (true, s.perform (frontCalls s.keys s.count f))
      else (false, counted (s.perform (frontCalls s.keys s.count f))) := by
  have hkeys : (s.perform (separator s.count)).keys = s.keys := rfl
  simp only [bsonAsJsonVisitBefore, appendComma_eq, hkeys]
  cases hk : s.keys with
  | false => simp [keyStops, frontCalls]
  | true =>
    simp only [if_true, keyStops, keyPrints, frontCalls, keyCalls, Bool.true_and]
    cases escapeCString f.2 <;>
      simp [BsonJsonState.escapedOr, BsonJsonState.perform]

/-- A field in a visit of a printer. -/
theorem visitElement_fields (n : Nat) (f : BsonIter × Bytes) {s : BsonJsonState} (hs : Plain s) :
    visitElement (bsonAsJsonVisitors (n + 1)) f.1 f.2 s =
      if keyStops s.keys f then
        { stop := true, iter := f.1, data := s.perform (frontCalls s.keys s.count f) }
      else
        { stop := refuses (n + 1) f
          iter := (visitedValue (n + 1) f).iter
          data := afterField (n + 1) f s } := by
  have hcall : Callback.call (bsonAsJsonVisitors (n + 1)).before f.1 f.2 () s =
      { stop := (bsonAsJsonVisitBefore s f.2).1, iter := f.1,
        data := (bsonAsJsonVisitBefore s f.2).2 } := rfl
  have hafter : ∀ (it : BsonIter) (s : BsonJsonState),
      Callback.call (bsonAsJsonVisitors (n + 1)).after it f.2 () s =
        { stop := false, iter := it, data := s } := fun _ _ => rfl
  simp only [visitElement, hcall, hafter, visitBefore_eq]
  cases hk : keyStops s.keys f with
  | true => rfl
  | false =>
    have hfront : Plain (counted (s.perform (frontCalls s.keys s.count f))) := by
      have h := proper_before f.2 hs
      rw [visitBefore_eq, hk] at h
      exact h
    simp only [Bool.false_eq_true, if_false, visitValue_blank (n + 1) f hfront]
    cases hr : refuses (n + 1) f <;> rfl

/-! ## A whole visit -/

/-- The fields up to the first with `p`, that one included. -/
def upTo {α : Type} (p : α → Bool) : List α → List α
  | [] => []
  | f :: fs => if p f then [f] else f :: upTo p fs

theorem upTo_of_none {α : Type} {p : α → Bool} {fs : List α} (h : ∀ f ∈ fs, p f = false) :
    upTo p fs = fs := by
  induction fs with
  | nil => rfl
  | cons f fs ih =>
    have hf := h f List.mem_cons_self
    simp only [upTo, hf, Bool.false_eq_true, if_false]
    rw [ih fun g hg => h g (List.mem_cons_of_mem f hg)]

theorem upTo_split {α : Type} {p : α → Bool} {pre post : List α} {f : α}
    (hpre : ∀ g ∈ pre, p g = false) (hf : p f = true) : upTo p (pre ++ f :: post) = pre ++ [f] := by
  induction pre with
  | nil => simp [upTo, hf]
  | cons g pre ih =>
    have hg := hpre g List.mem_cons_self
    simp only [List.cons_append, upTo, hg, Bool.false_eq_true, if_false]
    rw [ih fun g hg => hpre g (List.mem_cons_of_mem _ hg)]

/-- The calls for one field; a key that stops the visit is not followed by a value. -/
def fieldCalls (n : Nat) (keys : Bool) (count : Nat) (f : BsonIter × Bytes) : List StringCall :=
  frontCalls keys count f ++ if keyStops keys f then [] else valueCalls n f

def fieldsCalls (n : Nat) (keys : Bool) : Nat → List (BsonIter × Bytes) → List StringCall
  | _, [] => []
  | count, f :: fs => fieldCalls n keys count f ++ fieldsCalls n keys (count + 1) fs

def fieldCorrupts (n : Nat) (keys : Bool) (f : BsonIter × Bytes) : Bool :=
  !keyStops keys f && corrupts n f

/-- What the visit of the fields `fs` in front of `fin`, begun in the state `s`, leaves. -/
structure Ran (n : Nat) (fs : List (BsonIter × Bytes)) (fin : BsonIter) (s : BsonJsonState)
    (r : Visited BsonJsonState) : Prop where
  stop : r.stop = fs.any (fieldStops n s.keys)
  str : r.data.str = s.str ++ fieldsCalls n s.keys s.count (upTo (fieldStops n s.keys) fs)
  err : r.data.errOffset.isSome =
    (s.errOffset.isSome || (upTo (fieldStops n s.keys) fs).any (fieldCorrupts n s.keys) ||
      (!r.stop && fin.errOff != 0))
  plain : Plain r.data
  keys : r.data.keys = s.keys
  count : s.keys = false → r.data.count = s.count + (upTo (fieldStops n s.keys) fs).length
  iter : r.stop = false → r.iter = fin
  stopIter : r.stop = true → s.keys = false →
    ∃ pre f post, fs = pre ++ f :: post ∧ (∀ g ∈ pre, refuses n g = false) ∧
      refuses n f = true ∧ r.iter = (visitedValue n f).iter

theorem plain_perform {s : BsonJsonState} (hs : Plain s) {keys : Bool} {count : Nat}
    (f : BsonIter × Bytes) (hkeys : s.keys = keys) (hcount : s.count = count) :
    Plain (s.perform (frontCalls keys count f)) := by
  have h := proper_before f.2 hs
  rw [visitBefore_eq, hkeys, hcount] at h
  split at h
  · exact h
  · exact ⟨h.calls, h.mode, h.depth⟩

theorem plain_afterField {n : Nat} {f : BsonIter × Bytes} {s : BsonJsonState} (hs : Plain s) :
    Plain (afterField n f s) := by
  have h := proper_perform (plain_perform hs f rfl rfl) (visitedValue_plain n f).calls
  exact ⟨h.calls, h.mode, h.depth⟩

theorem visitWalked_fields (n : Nat) (fs : List (BsonIter × Bytes)) (fin : BsonIter)
    {s : BsonJsonState} (hs : Plain s) :
    Ran (n + 1) fs fin s (visitWalked (bsonAsJsonVisitors (n + 1)) fs fin s) := by
  induction fs generalizing s with
  | nil =>
    have hcorrupt : visitCorrupt (bsonAsJsonVisitors (n + 1)) fin s =
        { s with errOffset := if fin.errOff = 0 then s.errOffset else some fin.off } := by
      unfold visitCorrupt
      split <;> rfl
    simp only [visitWalked, hcorrupt]
    exact {
      stop := rfl
      str := by simp [upTo, fieldsCalls]
      err := by
        by_cases h : fin.errOff = 0 <;> simp [upTo, h]
      plain := ⟨hs.calls, hs.mode, hs.depth⟩
      keys := rfl
      count := fun _ => rfl
      iter := fun _ => rfl
      stopIter := fun h => by cases h }
  | cons f fs ih =>
    rw [visitWalked, visitElement_fields n f hs]
    cases hk : keyStops s.keys f with
    | true =>
      have hstop : fieldStops (n + 1) s.keys f = true := by simp [fieldStops, hk]
      simp only [if_true]
      exact {
        stop := by simp [hstop]
        str := by simp [upTo, hstop, fieldsCalls, fieldCalls, hk, BsonJsonState.perform]
        err := by simp [upTo, hstop, fieldCorrupts, hk, BsonJsonState.perform]
        plain := plain_perform hs f rfl rfl
        keys := rfl
        count := fun h => by simp [keyStops, h] at hk
        iter := fun h => by cases h
        stopIter := fun _ h => by simp [keyStops, h] at hk }
    | false =>
      simp only [Bool.false_eq_true, if_false]
      cases hr : refuses (n + 1) f with
      | true =>
        have hstop : fieldStops (n + 1) s.keys f = true := by simp [fieldStops, hr]
        simp only [if_true]
        exact {
          stop := by simp [hstop]
          str := by simp [upTo, hstop, fieldsCalls, fieldCalls, hk, afterField]
          err := by
            simp [upTo, hstop, fieldCorrupts, hk, afterField, corrupts, Bool.or_comm]
          plain := plain_afterField hs
          keys := rfl
          count := fun _ => by simp [upTo, hstop, afterField]
          iter := fun h => by cases h
          stopIter := fun _ _ => ⟨[], f, fs, rfl, by simp, hr, rfl⟩ }
      | false =>
        have hgo : fieldStops (n + 1) s.keys f = false := by simp [fieldStops, hk, hr]
        have hrest := ih (plain_afterField (n := n + 1) (f := f) hs)
        have hkeys : (afterField (n + 1) f s).keys = s.keys := rfl
        have hcount : (afterField (n + 1) f s).count = s.count + 1 := rfl
        simp only [Bool.false_eq_true, if_false]
        generalize visitWalked (bsonAsJsonVisitors (n + 1)) fs fin (afterField (n + 1) f s) = r
          at hrest ⊢
        exact {
          stop := by rw [hrest.stop, hkeys, List.any_cons, hgo, Bool.false_or]
          str := by
            rw [hrest.str, hkeys, hcount]
            simp [upTo, hgo, fieldsCalls, fieldCalls, hk, afterField]
          err := by
            rw [hrest.err, hkeys]
            simp [upTo, hgo, fieldCorrupts, hk, afterField, corrupts, Bool.or_assoc, Bool.or_left_comm]
          plain := hrest.plain
          keys := hrest.keys
          count := fun h => by
            rw [hrest.count h, hkeys, hcount]
            simp only [upTo, hgo, Bool.false_eq_true, if_false, List.length_cons]
            omega
          iter := hrest.iter
          stopIter := fun hstop h => by
            obtain ⟨pre, g, post, rfl, hpre, hg, hiter⟩ := hrest.stopIter hstop h
            refine ⟨f :: pre, g, post, rfl, ?_, hg, hiter⟩
            intro x hx
            rcases List.mem_cons.mp hx with rfl | hx
            · exact hr
            · exact hpre x hx }

end LibBson.Source
