import LibBson.Source.AsJsonArray

/-!
# The array printer and the document printer

Source: bson.c:3087-3216. `bson_array_as_json` visits its document a second time, with
the iterator the first visit has left: a visit that a callback or a text stops is taken
up behind the element it has stopped at.
-/

set_option autoImplicit false

namespace LibBson.Guarantees
open LibBson.Library LibBson.Source

/-- `parts` with a comma and a space between them. -/
def separated : List Bytes → Bytes
  | [] => []
  | part :: parts => part ++ (parts.map (ascii ", " ++ ·)).flatten

/-- `parts` between brackets; an empty document is printed with one space. -/
def Bracketed (opening closing : UInt8) (parts : List Bytes) (text : Bytes) : Prop :=
  text = [opening, 32] ++ separated parts ++ [32, closing] ∨
    parts = [] ∧ text = [opening, 32, closing]

/-- What is printed for the value of a field. -/
def valueText (a : BsonRef) (f : BsonIter × Bytes) : Bytes := callsText (valueCalls a.len f)

/-- The escaped key, as it is appended. -/
def keyText (key : Bytes) : Bytes :=
  match escapeCString key with
  | .text escaped => (StringCall.append escaped).text
  | _ => []

def memberText (a : BsonRef) (f : BsonIter × Bytes) : Bytes :=
  ascii "\"" ++ keyText f.2 ++ ascii "\" : " ++ valueText a f

/-- Both printers return NULL, or both a text: with the same values in the same order. -/
def PrintersAgree (a : BsonRef) : Prop :=
  (bsonAsJson a = .null ∧ bsonArrayAsJson a = .null) ∨
    ∃ d s, bsonAsJson a = .text d ∧ bsonArrayAsJson a = .text s ∧
      Bracketed 123 125 ((printedFields a).map (memberText a)) d ∧
      Bracketed 91 93 ((printedFields a).map (valueText a)) s

/-! ## The calls on the two strings -/

def documentCalls (a : BsonRef) : List StringCall :=
  fieldsCalls a.len true 0 (upTo (fieldStops a.len true) (printedFields a))

/-- Those of both visits: each ends at the first value that is refused. -/
def arrayCalls (a : BsonRef) : List StringCall :=
  fieldsCalls a.len false 0
    (upTo (refuses a.len) (printedFields a) ++ upTo (refuses a.len) (secondFields a))

/-- The closing bracket is appended where nothing stops the visit and nothing is corrupt. -/
def closingCalls (a : BsonRef) (closing : UInt8) : List StringCall :=
  if stopsDocument a || seesCorruption a then [] else [.append [32, closing]]

/-- Neither string outgrows the 32 bits of its size. -/
structure TextsFit (a : BsonRef) : Prop where
  document : (bsonStringOpen 123).performAll (documentCalls a ++ closingCalls a 125) ≠ none
  array : (bsonStringOpen 91).performAll (arrayCalls a ++ closingCalls a 93) ≠ none

theorem fieldsCalls_append (n : Nat) (keys : Bool) (count : Nat)
    (xs ys : List (BsonIter × Bytes)) :
    fieldsCalls n keys count (xs ++ ys) =
      fieldsCalls n keys count xs ++ fieldsCalls n keys (count + xs.length) ys := by
  induction xs generalizing count with
  | nil => rfl
  | cons x xs ih =>
    simp only [List.cons_append, fieldsCalls, ih, List.append_assoc, List.length_cons]
    rw [show count + 1 + xs.length = count + (xs.length + 1) by omega]

/-! ## The texts -/

theorem fieldsText {n : Nat} {keys : Bool} {g : BsonIter × Bytes → Bytes}
    {fs : List (BsonIter × Bytes)}
    (h : ∀ f ∈ fs, callsText ((if keys then keyCalls f.2 else []) ++
      if keyStops keys f then [] else valueCalls n f) = g f) (count : Nat) :
    callsText (fieldsCalls n keys count fs) =
      if count = 0 then separated (fs.map g) else ((fs.map g).map (ascii ", " ++ ·)).flatten := by
  induction fs generalizing count with
  | nil => simp [fieldsCalls, separated, callsText]
  | cons f fs ih =>
    have hf := h f List.mem_cons_self
    have hrest := ih (fun x hx => h x (List.mem_cons_of_mem f hx)) (count + 1)
    rw [if_neg (Nat.succ_ne_zero count)] at hrest
    have hcomma : callsText [.append (ascii ", ")] = ascii ", " := by decide
    simp only [fieldsCalls, fieldCalls, frontCalls, List.append_assoc]
    rw [callsText_append, ← List.append_assoc (if keys = true then _ else _), callsText_append, hf,
      hrest]
    by_cases hcount : count = 0
    · simp [hcount, separator, separated, callsText]
    · simp [hcount, separator, hcomma]

/-- All members, when no key stops the visit. -/
theorem documentCalls_text {a : BsonRef}
    (h : ∀ f ∈ printedFields a, fieldStops a.len true f = false) :
    callsText (documentCalls a) = separated ((printedFields a).map (memberText a)) := by
  rw [documentCalls, upTo_of_none h, fieldsText (g := memberText a), if_pos rfl]
  intro f hf
  have hgo := h f hf
  have hquote : callsText [.append (ascii "\"")] = ascii "\"" := by decide
  have hcolon : callsText [.append (ascii "\" : ")] = ascii "\" : " := by decide
  simp only [fieldStops, Bool.or_eq_false_iff] at hgo
  obtain ⟨escaped, hkey⟩ : ∃ escaped, escapeCString f.2 = .text escaped := by
    have hprints := hgo.1
    simp only [keyStops, keyPrints, Bool.true_and, Bool.not_eq_false'] at hprints
    cases hkey : escapeCString f.2 with
    | lost => simp [hkey] at hprints
    | null => simp [hkey] at hprints
    | text escaped => exact ⟨escaped, rfl⟩
  have hkeyText : callsText [.append escaped] = (StringCall.append escaped).text := by
    simp [callsText]
  have hsplit : [StringCall.append (ascii "\""), .append escaped, .append (ascii "\" : ")] =
      [.append (ascii "\"")] ++ [.append escaped] ++ [.append (ascii "\" : ")] := rfl
  simp only [if_true, hgo.1, Bool.false_eq_true, if_false, keyCalls, memberText, keyText, valueText,
    hkey]
  rw [hsplit, callsText_append, callsText_append, callsText_append, hquote, hcolon, hkeyText]

theorem arrayCalls_text {a : BsonRef} (h : ∀ f ∈ printedFields a, refuses a.len f = false)
    (hsecond : secondFields a = []) :
    callsText (arrayCalls a) = separated ((printedFields a).map (valueText a)) := by
  rw [arrayCalls, upTo_of_none h, hsecond, upTo, List.append_nil, fieldsText (g := valueText a),
    if_pos rfl]
  intro f _
  simp [keyStops, valueText]

theorem closing_text (closing : UInt8) (h : closing ≠ 0) :
    callsText [.append [32, closing]] = [32, closing] := by
  have hnul : (0 : UInt8) ∉ [32, closing] := by simpa using h.symm
  simp only [callsText, List.map_cons, List.map_nil, StringCall.text, strlen,
    cText_of_no_nul hnul]
  rfl

/-! ## The results -/

section Results

variable {opening closing : UInt8} {stop : Bool} {s : BsonJsonState}

theorem result_null_iff :
    asJsonResult opening closing stop s = .null ↔
      (stop || s.errOffset.isSome) = true ∧
        (bsonStringOpen opening).performAll s.str ≠ none := by
  unfold asJsonResult
  cases (bsonStringOpen opening).performAll s.str with
  | none => simp
  | some str =>
    cases hend : stop || s.errOffset.isSome with
    | true => simp
    | false =>
      simp only [Bool.false_eq_true, if_false, false_and, iff_false]
      split <;> simp

theorem result_text {t : Bytes} (h : asJsonResult opening closing stop s = .text t) :
    (stop || s.errOffset.isSome) = false := by
  unfold asJsonResult at h
  cases hfirst : (bsonStringOpen opening).performAll s.str with
  | none => simp [hfirst] at h
  | some str =>
    rw [hfirst] at h
    cases hend : stop || s.errOffset.isSome with
    | true => simp [hend] at h
    | false => rfl

theorem result_printed (hc : closing ≠ 0) (hs : Plain s) (hstop : stop = false)
    (herr : s.errOffset = none)
    (h : (bsonStringOpen opening).performAll (s.str ++ [.append [32, closing]]) ≠ none) :
    asJsonResult opening closing stop s =
      .text ([opening, 32] ++ callsText s.str ++ [32, closing]) := by
  obtain ⟨str', hstr'⟩ := Option.ne_none_iff_exists'.mp h
  have hproper : StringCall.Proper (s.str ++ [.append [32, closing]]) := by
    have hold := hs.calls
    simp only [StringCall.Proper, List.mem_append, not_or] at hold ⊢
    exact ⟨hold, by simp⟩
  have htext := performAll_text hproper hstr'
  rw [performAll_append] at hstr'
  unfold asJsonResult
  cases hfirst : (bsonStringOpen opening).performAll s.str with
  | none => simp [hfirst] at hstr'
  | some str =>
    have hlast : bsonStringAppend str [32, closing] = some str' := by
      rw [hfirst] at hstr'
      simpa [BsonString.performAll, BsonString.perform] using hstr'
    simp only [hstop, herr, hlast, Bool.false_or, Option.isSome_none, Bool.false_eq_true, if_false]
    rw [htext, callsText_append, closing_text closing hc]
    simp [bsonStringOpen]

theorem result_unprinted (hstop : stop = false) (herr : s.errOffset = none)
    (h : (bsonStringOpen opening).performAll (s.str ++ [.append [32, closing]]) = none) :
    asJsonResult opening closing stop s = .lost := by
  rw [performAll_append] at h
  unfold asJsonResult
  cases hfirst : (bsonStringOpen opening).performAll s.str with
  | none => rfl
  | some str =>
    have hlast : bsonStringAppend str [32, closing] = none := by
      rw [hfirst] at h
      simpa [BsonString.performAll, BsonString.perform] using h
    simp only [hstop, herr, hlast, Bool.false_or, Option.isSome_none, Bool.false_eq_true, if_false]

end Results

/-! ## The visits of the two printers -/

section Visits

variable {a : BsonRef}

theorem bsonIterInit_start (h5 : 5 ≤ a.len) :
    bsonIterInit a = (true, BsonIter.start (some a.data) a.len) := by
  rw [bsonIterInit, if_neg (by omega)]

theorem document_visit (h5 : 5 ≤ a.len) (hmax : a.len ≤ maxLen) (hne : bsonEmpty a = false) :
    ∃ r, bsonAsJson a = asJsonResult 123 125 r.stop r.data ∧
      Ran a.len (printedFields a) (printedEnd a) (.init true .legacy) r := by
  obtain ⟨n, hn⟩ : ∃ n, a.len = n + 1 := ⟨a.len - 1, by omega⟩
  have hwalked := visitAll_walked (v := bsonAsJsonVisitors a.len) (by rw [hn]; rfl)
    (turns_start (m := a.data) hmax) (.init true .legacy)
  refine ⟨visitWalked (bsonAsJsonVisitors a.len) (printedFields a) (printedEnd a)
    (.init true .legacy), ?_, ?_⟩
  · simp only [bsonAsJson, bsonAsJsonVisitAll, hne, bsonIterInit_start h5, hwalked, printedFields,
      printedEnd]
    rfl
  · rw [hn]
    exact visitWalked_fields n _ _ (plain_init true)

theorem array_visits (h5 : 5 ≤ a.len) (hmax : a.len ≤ maxLen) (hne : bsonEmpty a = false) :
    ∃ r₁ r₂ fin, bsonArrayAsJson a = asJsonResult 91 93 r₂.stop r₂.data ∧
      Ran a.len (printedFields a) (printedEnd a) (.init false .legacy) r₁ ∧
      SecondStart a r₁ fin ∧ Ran a.len (secondFields a) fin r₁.data r₂ := by
  obtain ⟨n, hn⟩ : ∃ n, a.len = n + 1 := ⟨a.len - 1, by omega⟩
  have hv : (bsonAsJsonVisitors a.len).unsupportedType = none := by rw [hn]; rfl
  have hwalked := visitAll_walked hv (turns_start (m := a.data) hmax) (.init false .legacy)
  have hran := visitWalked_fields n (printedFields a) (printedEnd a) (plain_init false)
  obtain ⟨fin, hsecond⟩ := second_start hmax hn (plain_init false) rfl
  rw [← hn] at hran hsecond
  obtain ⟨k, hk⟩ := hsecond.turns
  have hagain := visitAll_walked hv hk
    (visitWalked (bsonAsJsonVisitors a.len) (printedFields a) (printedEnd a)
      (.init false .legacy)).data
  rw [hsecond.walk] at hagain
  have hran₂ := visitWalked_fields n (secondFields a) fin hran.plain
  rw [← hn] at hran₂
  refine ⟨_, _, fin, ?_, hran, hsecond, hran₂⟩
  simp only [bsonArrayAsJson, hne, bsonIterInit_start h5, hwalked, Bool.false_eq_true, if_false]
  rw [← hagain]
  rfl

theorem document_str {r : Visited BsonJsonState}
    (h : Ran a.len (printedFields a) (printedEnd a) (.init true .legacy) r) :
    r.data.str = documentCalls a := h.str

/-- A visit to the end sees all corruption. -/
theorem unstopped_err {keys : Bool} {r : Visited BsonJsonState}
    (h : Ran a.len (printedFields a) (printedEnd a) (.init keys .legacy) r)
    (hnone : ∀ f ∈ printedFields a, fieldStops a.len keys f = false) :
    r.stop = false ∧ r.data.errOffset.isSome = seesCorruption a := by
  have hstop : r.stop = false := by
    rw [h.stop]
    simpa [BsonJsonState.init] using hnone
  have hcorrupts : (printedFields a).any (fieldCorrupts a.len keys) =
      (printedFields a).any (corrupts a.len) := by
    have hsame : ∀ f ∈ printedFields a, fieldCorrupts a.len keys f = corrupts a.len f := by
      intro f hf
      have hgo := hnone f hf
      simp only [fieldStops, Bool.or_eq_false_iff] at hgo
      simp [fieldCorrupts, hgo.1]
    rw [Bool.eq_iff_iff, List.any_eq_true, List.any_eq_true]
    exact exists_congr fun f => and_congr_right fun hf => by rw [hsame f hf]
  refine ⟨hstop, ?_⟩
  have hkeys : (BsonJsonState.init keys .legacy).keys = keys := rfl
  rw [h.err, hkeys, upTo_of_none hnone, hcorrupts, hstop, seesCorruption]
  simp [BsonJsonState.init, Bool.or_comm]

theorem array_str {r₁ r₂ : Visited BsonJsonState} {fin : BsonIter}
    (h₁ : Ran a.len (printedFields a) (printedEnd a) (.init false .legacy) r₁)
    (h₂ : Ran a.len (secondFields a) fin r₁.data r₂) : r₂.data.str = arrayCalls a := by
  have hkeys : r₁.data.keys = false := h₁.keys
  have hcount := h₁.count rfl
  have hstr := h₁.str
  have hinit : (BsonJsonState.init false .legacy).keys = false := rfl
  rw [hinit, fieldStops_values] at hcount hstr
  rw [h₂.str, hkeys, fieldStops_values, hstr, hcount, arrayCalls, fieldsCalls_append]
  rfl

/-- An element a walk has come to has no error; its value sets one only with a stop. -/
theorem invalid_refused (hmax : a.len ≤ maxLen) {f : BsonIter × Bytes} (hf : f ∈ printedFields a)
    (h : (visitedValue a.len f).iter.errOff ≠ 0) : refuses a.len f = true := by
  obtain ⟨pre, post, hsplit⟩ := List.append_of_mem hf
  have hwalk : visitWalk (a.len + 1) (BsonIter.start (some a.data) a.len) =
      (pre ++ f :: post, printedEnd a) := Prod.ext hsplit rfl
  obtain ⟨-, -, herr, -⟩ := visitWalk_split (turns_start hmax) hwalk
  rcases stays_value (bsonAsJsonVisitors a.len) f.1 f.2 (.init false .legacy) with hstay | ⟨-, hstop⟩
  · rw [visitedValue, hstay] at h
    exact absurd herr h
  · exact hstop

theorem endsInInvalidText_iff :
    endsInInvalidText a = true ↔
      ∃ pre f, printedFields a = pre ++ [f] ∧ (visitedValue a.len f).iter.errOff ≠ 0 := by
  unfold endsInInvalidText
  constructor
  · intro h
    cases hlast : (printedFields a).getLast? with
    | none => simp [hlast] at h
    | some f =>
      rw [hlast] at h
      obtain ⟨pre, hpre⟩ := List.getLast?_eq_some_iff.mp hlast
      exact ⟨pre, f, hpre, by simpa using h⟩
  · intro ⟨pre, f, hpre, h⟩
    rw [hpre, List.getLast?_append]
    simpa using h

theorem unrefused (hmax : a.len ≤ maxLen) (h : ∀ f ∈ printedFields a, refuses a.len f = false) :
    refusedFields a = [] ∧ endsInInvalidText a = false := by
  constructor
  · rw [refusedFields, List.filter_eq_nil_iff]
    intro f hf
    simp [h f hf]
  · rw [Bool.eq_false_iff]
    intro hends
    obtain ⟨pre, f, hpre, hinvalid⟩ := endsInInvalidText_iff.mp hends
    have hf : f ∈ printedFields a := by simp [hpre]
    have htrue := invalid_refused hmax hf hinvalid
    rw [h f hf] at htrue
    cases htrue

/-- When the array printer returns NULL, as far as its calls fit. -/
theorem array_null_iff (hmax : a.len ≤ maxLen) {r₁ r₂ : Visited BsonJsonState} {fin : BsonIter}
    (h₁ : Ran a.len (printedFields a) (printedEnd a) (.init false .legacy) r₁)
    (hstart : SecondStart a r₁ fin) (h₂ : Ran a.len (secondFields a) fin r₁.data r₂) :
    (r₂.stop || r₂.data.errOffset.isSome) = true ↔
      2 ≤ (refusedFields a).length ∨ seesCorruption a = true ∨ endsInInvalidText a = true := by
  have hkeys : r₁.data.keys = false := h₁.keys
  have hinit : (BsonJsonState.init false .legacy).keys = false := rfl
  have hstop₂ := h₂.stop
  have herr₂ := h₂.err
  rw [hkeys, fieldStops_values] at hstop₂ herr₂
  rw [fieldCorrupts_values] at herr₂
  cases hstop : r₁.stop with
  | false =>
    have hnone : ∀ f ∈ printedFields a, fieldStops a.len false f = false := by
      have h := h₁.stop
      rw [hstop, hinit] at h
      simpa using h.symm
    have hvalues : ∀ f ∈ printedFields a, refuses a.len f = false := by
      rw [fieldStops_values] at hnone
      exact hnone
    obtain ⟨hrefused, hends⟩ := unrefused hmax hvalues
    obtain ⟨-, herr₁⟩ := unstopped_err h₁ hnone
    rw [hrefused, hends]
    cases hsees : seesCorruption a with
    | true =>
      rw [herr₁, hsees] at herr₂
      simp [herr₂]
    | false =>
      have hend : (printedEnd a).errOff = 0 := by
        simp only [seesCorruption, Bool.or_eq_false_iff] at hsees
        simpa using hsees.1
      obtain ⟨hnil, hfin⟩ := hstart.done hstop hend
      rw [hnil] at hstop₂ herr₂
      rw [herr₁, hsees, hfin] at herr₂
      simp [hstop₂, herr₂, upTo]
  | true =>
    obtain ⟨pre, f, post, hfs, hpre, hf, -⟩ := h₁.stopIter hstop rfl
    have hsecond : secondFields a = post := by
      rw [secondFields, hfs, behind_split hpre hf]
    have herr₁ := h₁.err
    rw [hinit, fieldStops_values, fieldCorrupts_values, hstop, hfs, upTo_split hpre hf] at herr₁
    have hpre' : pre.filter (refuses a.len) = [] := by
      rw [List.filter_eq_nil_iff]
      intro g hg
      simp [hpre g hg]
    have hrefused : (refusedFields a).length = (post.filter (refuses a.len)).length + 1 := by
      rw [refusedFields, hfs, List.filter_append, hpre', List.filter_cons_of_pos hf]
      simp
    rw [hsecond] at hstop₂ herr₂
    cases hmore : post.any (refuses a.len) with
    | true =>
      rw [hmore] at hstop₂
      obtain ⟨g, hg, hgr⟩ := List.any_eq_true.mp hmore
      have hpos : 0 < (post.filter (refuses a.len)).length :=
        List.length_pos_of_mem (List.mem_filter.mpr ⟨hg, hgr⟩)
      simp only [hstop₂, Bool.true_or, true_iff]
      exact Or.inl (by omega)
    | false =>
      rw [hmore] at hstop₂
      have hrest : ∀ g ∈ post, refuses a.len g = false := by simpa using hmore
      have hpost : post.filter (refuses a.len) = [] := by
        rw [List.filter_eq_nil_iff]
        intro g hg
        simp [hrest g hg]
      rw [upTo_of_none hrest, hstop₂, herr₁] at herr₂
      have hone : ¬ 2 ≤ (refusedFields a).length := by
        rw [hrefused, hpost]
        simp
      have hlast : endsInInvalidText a = true → post = [] := by
        intro h
        obtain ⟨init, g, hinit, hinvalid⟩ := endsInInvalidText_iff.mp h
        by_contra hne
        have hg : g ∈ post := by
          have hglast : (printedFields a).getLast? = some g := by simp [hinit]
          rw [hfs, List.getLast?_append] at hglast
          rcases List.eq_nil_or_concat post with hnil | ⟨ys, y, hpost⟩
          · exact absurd hnil hne
          · rw [hpost, List.concat_eq_append, ← List.cons_append, List.getLast?_append] at hglast
            have hy : y = g := by simpa using hglast
            rw [hpost, hy]
            simp
        have htrue := invalid_refused hmax (by rw [hinit]; simp) hinvalid
        rw [hrest g hg] at htrue
        cases htrue
      have hfin := hstart.errStopped hstop
      rw [hsecond] at hfin
      have hany : (printedFields a).any (corrupts a.len) =
          ((pre ++ [f]).any (corrupts a.len) || post.any (corrupts a.len)) := by
        rw [hfs]
        simp [Bool.or_assoc]
      simp only [hstop₂, herr₂, hone, seesCorruption, hany, false_or]
      have hnot : (BsonJsonState.init false .legacy).errOffset.isSome = false := rfl
      simp only [hnot, Bool.false_or, Bool.not_true, Bool.false_and, Bool.or_false, Bool.not_false,
        Bool.true_and, Bool.or_eq_true, bne_iff_ne]
      rw [hfin, and_iff_right_of_imp hlast]
      exact or_assoc.symm.trans (or_congr_left or_comm)

end Visits

/-! ## The condition -/

theorem printedFields_of_empty {a : BsonRef} (hmax : a.len ≤ maxLen)
    (h : bsonEmpty a = true) : printedFields a = [] ∧ (printedEnd a).raw = none := by
  have hfail : (bsonIterNextInternal (BsonIter.start (some a.data) a.len)).ok = false := by
    rw [Bool.eq_false_iff]
    intro hok
    obtain ⟨o, t, he⟩ := element_of_next rfl (Nat.le_refl 4) hmax hok
    have hprog := he.progress
    have htype := he.typeByte
    have hlay := he.layout
    simp only [BsonIter.start] at hprog htype
    simp only [bsonEmpty, Bool.or_eq_true, beq_iff_eq] at h
    rcases h with h | h
    · omega
    · rw [h] at htype
      cases t <;> simp [BsonType.toByte] at htype
      exact hlay
  have hraw := raw_of_next_fail _ hfail
  simp only [printedFields, printedEnd, visitWalkAll, visitWalk, hfail, if_true]
  exact ⟨trivial, hraw⟩

theorem agree_of_empty {a : BsonRef} (hmax : a.len ≤ maxLen) (h : bsonEmpty a = true) :
    PrintersAgree a ∧ TextsFit a ∧ stopsDocument a = false := by
  obtain ⟨hnil, hraw⟩ := printedFields_of_empty hmax h
  have hsecond : secondFields a = [] := by
    rw [secondFields, hnil, behind, visitWalkAll_none hraw]
  have hclosing : ∀ c, closingCalls a c = [] ∨ closingCalls a c = [.append [32, c]] := by
    intro c
    unfold closingCalls
    split
    · exact Or.inl rfl
    · exact Or.inr rfl
  have hdoc : documentCalls a = [] := by
    rw [documentCalls, hnil]
    rfl
  have harr : arrayCalls a = [] := by
    rw [arrayCalls, hnil, hsecond]
    rfl
  refine ⟨Or.inr ⟨ascii "\x7b \x7d", ascii "[ ]", ?_, ?_, ?_, ?_⟩, ⟨?_, ?_⟩, ?_⟩
  · simp [bsonAsJson, bsonAsJsonVisitAll, h]
  · simp [bsonArrayAsJson, h]
  · exact Or.inr ⟨by rw [hnil]; rfl, rfl⟩
  · exact Or.inr ⟨by rw [hnil]; rfl, rfl⟩
  · rw [hdoc]
    rcases hclosing 125 with hc | hc <;> rw [hc] <;> decide
  · rw [harr]
    rcases hclosing 93 with hc | hc <;> rw [hc] <;> decide
  · simp [stopsDocument, hnil]

section Agreement

variable {a : BsonRef} {r r₁ r₂ : Visited BsonJsonState} {fin : BsonIter}

/-- A document that stops `bson_as_json` has to stop the second visit as well. -/
theorem agree_of_stopped (hmax : a.len ≤ maxLen) (hstops : stopsDocument a = true)
    (hdoc : bsonAsJson a = asJsonResult 123 125 r.stop r.data)
    (hran : Ran a.len (printedFields a) (printedEnd a) (.init true .legacy) r)
    (harr : bsonArrayAsJson a = asJsonResult 91 93 r₂.stop r₂.data)
    (hran₁ : Ran a.len (printedFields a) (printedEnd a) (.init false .legacy) r₁)
    (hstart : SecondStart a r₁ fin) (hran₂ : Ran a.len (secondFields a) fin r₁.data r₂) :
    PrintersAgree a ↔
      TextsFit a ∧ (2 ≤ (refusedFields a).length ∨ seesCorruption a = true ∨
        endsInInvalidText a = true) := by
  have hstop : r.stop = true := hran.stop.trans hstops
  have hclosing : ∀ c, closingCalls a c = [] := fun c => by simp [closingCalls, hstops]
  have hd : bsonAsJson a = .null ↔ (bsonStringOpen 123).performAll (documentCalls a) ≠ none := by
    rw [hdoc, result_null_iff, document_str hran, hstop]
    simp
  have hs : bsonArrayAsJson a = .null ↔
      (2 ≤ (refusedFields a).length ∨ seesCorruption a = true ∨ endsInInvalidText a = true) ∧
        (bsonStringOpen 91).performAll (arrayCalls a) ≠ none := by
    rw [harr, result_null_iff, array_str hran₁ hran₂, array_null_iff hmax hran₁ hstart hran₂]
  constructor
  · intro h
    rcases h with ⟨h₁, h₂⟩ | ⟨d, -, h₁, -⟩
    · obtain ⟨hcond, hfit⟩ := hs.mp h₂
      refine ⟨⟨?_, ?_⟩, hcond⟩
      · rw [hclosing, List.append_nil]
        exact hd.mp h₁
      · rw [hclosing, List.append_nil]
        exact hfit
    · rw [hdoc] at h₁
      have hgo := result_text h₁
      rw [hstop] at hgo
      cases hgo
  · intro ⟨hfit, hcond⟩
    have hfd := hfit.document
    have hfs := hfit.array
    rw [hclosing, List.append_nil] at hfd hfs
    exact Or.inl ⟨hd.mpr hfd, hs.mpr ⟨hcond, hfs⟩⟩

/-- One that does not is printed by both, or corrupt for both. -/
theorem agree_of_unstopped (hmax : a.len ≤ maxLen) (hstops : stopsDocument a = false)
    (hdoc : bsonAsJson a = asJsonResult 123 125 r.stop r.data)
    (hran : Ran a.len (printedFields a) (printedEnd a) (.init true .legacy) r)
    (harr : bsonArrayAsJson a = asJsonResult 91 93 r₂.stop r₂.data)
    (hran₁ : Ran a.len (printedFields a) (printedEnd a) (.init false .legacy) r₁)
    (hstart : SecondStart a r₁ fin) (hran₂ : Ran a.len (secondFields a) fin r₁.data r₂) :
    PrintersAgree a ↔ TextsFit a := by
  have hnone : ∀ f ∈ printedFields a, fieldStops a.len true f = false := by
    simpa [stopsDocument] using hstops
  have hvalues : ∀ f ∈ printedFields a, refuses a.len f = false := by
    intro f hf
    have h := hnone f hf
    simp only [fieldStops, Bool.or_eq_false_iff] at h
    exact h.2
  obtain ⟨hstop, herr⟩ := unstopped_err hran hnone
  obtain ⟨hrefused, hends⟩ := unrefused hmax hvalues
  have hnull := array_null_iff hmax hran₁ hstart hran₂
  rw [hrefused, hends] at hnull
  cases hsees : seesCorruption a with
  | true =>
    have hclosing : ∀ c, closingCalls a c = [] := fun c => by simp [closingCalls, hsees]
    have hd : bsonAsJson a = .null ↔ (bsonStringOpen 123).performAll (documentCalls a) ≠ none := by
      rw [hdoc, result_null_iff, document_str hran, herr, hsees]
      simp
    have hs : bsonArrayAsJson a = .null ↔
        (bsonStringOpen 91).performAll (arrayCalls a) ≠ none := by
      rw [harr, result_null_iff, array_str hran₁ hran₂, hnull, hsees]
      simp
    constructor
    · intro h
      rcases h with ⟨h₁, h₂⟩ | ⟨d, -, h₁, -⟩
      · constructor
        · rw [hclosing, List.append_nil]
          exact hd.mp h₁
        · rw [hclosing, List.append_nil]
          exact hs.mp h₂
      · rw [hdoc] at h₁
        have hgo := result_text h₁
        rw [herr, hsees] at hgo
        simp at hgo
    · intro hfit
      have hfd := hfit.document
      have hfs := hfit.array
      rw [hclosing, List.append_nil] at hfd hfs
      exact Or.inl ⟨hd.mpr hfd, hs.mpr hfs⟩
  | false =>
    have hclosing : ∀ c, closingCalls a c = [.append [32, c]] := fun c => by
      simp [closingCalls, hstops, hsees]
    rw [hsees] at hnull herr
    have hstop₂ : (r₂.stop || r₂.data.errOffset.isSome) = false := by
      rw [Bool.eq_false_iff]
      intro h
      simp at hnull
      simp [hnull] at h
    simp only [Bool.or_eq_false_iff, Option.isSome_eq_false_iff, Option.isNone_iff_eq_none] at hstop₂
    have herr' : r.data.errOffset = none := by simpa using herr
    have hstop₁ : r₁.stop = false := by
      have h := hran₁.stop
      rw [show (BsonJsonState.init false .legacy).keys = false from rfl, fieldStops_values] at h
      rw [h]
      simpa using hvalues
    have hend : (printedEnd a).errOff = 0 := by
      simp only [seesCorruption, Bool.or_eq_false_iff] at hsees
      simpa using hsees.1
    have hsecond := (hstart.done hstop₁ hend).1
    constructor
    · intro h
      rcases h with ⟨h₁, -⟩ | ⟨d, s, h₁, h₂, -⟩
      · rw [hdoc, result_null_iff, hstop, herr'] at h₁
        simp at h₁
      · constructor
        · intro hnofit
          rw [hclosing, ← document_str hran] at hnofit
          rw [hdoc, result_unprinted hstop herr' hnofit] at h₁
          cases h₁
        · intro hnofit
          rw [hclosing, ← array_str hran₁ hran₂] at hnofit
          rw [harr, result_unprinted hstop₂.1 hstop₂.2 hnofit] at h₂
          cases h₂
    · intro hfit
      have hfd := hfit.document
      have hfs := hfit.array
      rw [hclosing, ← document_str hran] at hfd
      rw [hclosing, ← array_str hran₁ hran₂] at hfs
      have hd := result_printed (by decide) hran.plain hstop herr' hfd
      have hs := result_printed (by decide) hran₂.plain hstop₂.1 hstop₂.2 hfs
      refine Or.inr ⟨_, _, hdoc.trans hd, harr.trans hs, Or.inl ?_, Or.inl ?_⟩
      · rw [document_str hran, documentCalls_text hnone]
      · rw [array_str hran₁ hran₂, arrayCalls_text hvalues hsecond]

end Agreement

/-- The two printers agree on `a` exactly when both texts fit and the first visit is not
stopped, or the second is stopped too or comes to corruption. -/
theorem array_printer_agrees_iff (a : BsonRef) (h5 : 5 ≤ a.len) (hmax : a.len ≤ maxLen) :
    PrintersAgree a ↔
      TextsFit a ∧ (stopsDocument a = false ∨ 2 ≤ (refusedFields a).length ∨
        seesCorruption a = true ∨ endsInInvalidText a = true) := by
  cases hempty : bsonEmpty a with
  | true =>
    obtain ⟨hagree, hfit, hstops⟩ := agree_of_empty hmax hempty
    exact iff_of_true hagree ⟨hfit, Or.inl hstops⟩
  | false =>
    obtain ⟨r, hdoc, hran⟩ := document_visit h5 hmax hempty
    obtain ⟨r₁, r₂, fin, harr, hran₁, hstart, hran₂⟩ := array_visits h5 hmax hempty
    cases hstops : stopsDocument a with
    | true =>
      rw [agree_of_stopped hmax hstops hdoc hran harr hran₁ hstart hran₂]
      simp
    | false =>
      rw [agree_of_unstopped hmax hstops hdoc hran harr hran₁ hstart hran₂]
      simp

/-- `{"a": 1, "b": {"c": "x"}}` -/
def nestedRef : BsonRef where
  data := Mem.ofBytes [29, 0, 0, 0, 16, 97, 0, 1, 0, 0, 0, 3, 98, 0, 14, 0, 0, 0, 2, 99, 0, 2, 0, 0,
    0, 120, 0, 0, 0]
  len := 29

theorem array_printer_agrees_nested :
    PrintersAgree nestedRef ∧ bsonArrayAsJson nestedRef = .text (ascii "[ 1, \x7b \"c\" : \"x\" \x7d ]") :=
  ⟨(array_printer_agrees_iff nestedRef (by decide) (by decide)).mpr
    ⟨⟨by decide +kernel, by decide +kernel⟩, Or.inl (by decide +kernel)⟩, by decide +kernel⟩

/-- `{"a": "\xC0\x80", "b": 1}`, with a NUL in two octets. -/
def refusedRef : BsonRef where
  data := Mem.ofBytes [22, 0, 0, 0, 2, 97, 0, 3, 0, 0, 0, 192, 128, 0, 16, 98, 0, 1, 0, 0, 0, 0]
  len := 22

/-- Its first value is refused; the array printer goes on behind it. -/
theorem array_printer_disagrees :
    (bsonAsJson refusedRef = .null ∧ bsonArrayAsJson refusedRef = .text (ascii "[ , 1 ]")) ∧
      ¬ ∀ a : BsonRef, 5 ≤ a.len → a.len ≤ maxLen → PrintersAgree a := by
  have hd : bsonAsJson refusedRef = .null := by decide +kernel
  have hs : bsonArrayAsJson refusedRef = .text (ascii "[ , 1 ]") := by decide +kernel
  refine ⟨⟨hd, hs⟩, fun h => ?_⟩
  rcases h refusedRef (by decide) (by decide) with ⟨-, h₂⟩ | ⟨d, -, h₁, -⟩
  · rw [hs] at h₂
    cases h₂
  · rw [hd] at h₁
    cases h₁

end LibBson.Guarantees
