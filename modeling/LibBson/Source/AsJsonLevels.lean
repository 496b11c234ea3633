import LibBson.Source.AsJson
import LibBson.Source.ValidateLaws
import LibBson.Source.VisitWalk

/-!
# The bound on the nesting

A document in a document is shorter than it. Visitors for as many levels as a document
has octets print it as visitors for more do (`bsonAsJsonVisitAll_levels`), so the bound
in the definition of the printers cuts nothing off.
-/

set_option autoImplicit false

namespace LibBson.Source
open LibBson.Library

/-- The visits of all documents of at most `n` octets are the same. -/
def SameVisits (n : Nat) (v v' : Visitor BsonJsonState) : Prop :=
  ∀ (m : Mem) (len : Nat) (s : BsonJsonState), len ≤ n → len ≤ maxLen →
    bsonIterVisitAll v (BsonIter.start (some m) len) s =
      bsonIterVisitAll v' (BsonIter.start (some m) len) s

section Same

variable {n : Nat} {v v' : Visitor BsonJsonState}

theorem visitNested_same (h : SameVisits n v v') (keys : Bool) (bracket close : UInt8)
    {b : BsonRef} (hlen : b.len ≤ n) (hmax : b.len ≤ maxLen) (s : BsonJsonState) :
    visitNested v keys bracket close b s = visitNested v' keys bracket close b s := by
  unfold visitNested
  by_cases h5 : b.len < 5
  · rw [bsonIterInit, if_pos h5]
  · simp only [bsonIterInit_of_le (Nat.le_of_not_lt h5), h b.data b.len _ hlen hmax]

theorem bsonAsJsonVisitAll_same (h : SameVisits n v v') {b : BsonRef} (hlen : b.len ≤ n)
    (hmax : b.len ≤ maxLen) (mode : BsonJsonMode) :
    bsonAsJsonVisitAll v b mode = bsonAsJsonVisitAll v' b mode := by
  unfold bsonAsJsonVisitAll
  by_cases h5 : b.len < 5
  · rw [bsonIterInit, if_pos h5]
  · simp only [bsonIterInit_of_le (Nat.le_of_not_lt h5), h b.data b.len _ hlen hmax]

theorem visitCodewscope_same (h : SameVisits n v v') (code : Bytes) {b : BsonRef}
    (hlen : b.len ≤ n) (hmax : b.len ≤ maxLen) (s : BsonJsonState) :
    bsonAsJsonVisitCodewscope v (code, b) s = bsonAsJsonVisitCodewscope v' (code, b) s := by
  unfold bsonAsJsonVisitCodewscope
  rw [bsonAsJsonVisitAll_same h hlen hmax]

/-- A document in an element of `it` is shorter than `it`. -/
theorem visitStatic_same {it e : BsonIter} {p : Slice} (hin : Inside it e p) (hlen : it.len ≤ n + 1)
    (hmax : it.len ≤ maxLen) {call call' : BsonRef → Visited BsonJsonState}
    (hc : ∀ b : BsonRef, b.len ≤ n → b.len ≤ maxLen → call b = call' b) (s : BsonJsonState) :
    visitStatic e p s call = visitStatic e p s call' := by
  obtain ⟨hstart, hstop, hnext⟩ := hin
  unfold visitStatic
  rw [initStatic_eq ⟨hstart, hstop, hnext⟩ hmax]
  split
  · rfl
  · next b hb =>
    split at hb
    · cases hb
      exact hc _ (by dsimp only; omega) (by dsimp only; omega)
    · cases hb

end Same

section Levels

variable {n k k' : Nat}

theorem visitValue_same (h : SameVisits n (bsonAsJsonVisitors k) (bsonAsJsonVisitors k'))
    {it e : BsonIter} {m : Mem} {o : Nat} {t : BsonType} (he : Element m it e o t)
    (hlen : it.len ≤ n + 1) (hmax : it.len ≤ maxLen) (key : Bytes) (s : BsonJsonState) :
    visitValue (bsonAsJsonVisitors (k + 1)) e key s =
      visitValue (bsonAsJsonVisitors (k' + 1)) e key s := by
  unfold visitValue
  rw [he.iterType_eq]
  cases t
  case document =>
    cases hp : bsonIterDocument e with
    | none => rfl
    | some p =>
      refine visitStatic_same (inside_document he hp) hlen hmax (fun b hb hbmax => ?_) s
      simp only [Callback.call, bsonAsJsonVisitors, bsonAsJsonVisitDocument,
        visitNested_same h true 123 125 hb hbmax]
  case array =>
    cases hp : bsonIterArray e with
    | none => rfl
    | some p =>
      refine visitStatic_same (inside_array he hp) hlen hmax (fun b hb hbmax => ?_) s
      simp only [Callback.call, bsonAsJsonVisitors, bsonAsJsonVisitArray,
        visitNested_same h false 91 93 hb hbmax]
  case codewscope =>
    cases hp : bsonIterCodewscope e with
    | none => rfl
    | some p =>
      obtain ⟨p, q⟩ := p
      dsimp only
      congr 1
      refine visitStatic_same (inside_codewscope he hp) hlen hmax (fun b hb hbmax => ?_) s
      simp only [Callback.call, bsonAsJsonVisitors, visitCodewscope_same h _ hb hbmax]
  all_goals rfl

theorem visitElement_same (h : SameVisits n (bsonAsJsonVisitors k) (bsonAsJsonVisitors k'))
    {it e : BsonIter} {m : Mem} {o : Nat} {t : BsonType} (he : Element m it e o t)
    (hlen : it.len ≤ n + 1) (hmax : it.len ≤ maxLen) (key : Bytes) (s : BsonJsonState) :
    visitElement (bsonAsJsonVisitors (k + 1)) e key s =
      visitElement (bsonAsJsonVisitors (k' + 1)) e key s := by
  simp only [visitElement, visitValue_same h he hlen hmax]
  rfl

theorem visitLoop_same (h : SameVisits n (bsonAsJsonVisitors k) (bsonAsJsonVisitors k'))
    {fuel : Nat} {it : BsonIter} (hturns : Turns fuel it) (hlen : it.len ≤ n + 1)
    (s : BsonJsonState) :
    visitLoop (bsonAsJsonVisitors (k + 1)) fuel it s =
      visitLoop (bsonAsJsonVisitors (k' + 1)) fuel it s := by
  induction fuel generalizing it s with
  | zero => rfl
  | succ fuel ih =>
    simp only [visitLoop]
    split
    · rfl
    · next hok =>
      have hok' : (bsonIterNextInternal it).ok = true := by simpa using hok
      obtain ⟨m, hraw⟩ := raw_of_next_ok hok'
      have hmax := hturns.small m hraw
      obtain ⟨o, t, he⟩ := element_of_next hraw (hturns.start m hraw) hmax hok'
      split
      · rfl
      · rw [visitElement_same h he hlen hmax]
        split
        · rfl
        · next hgo =>
          have hstay := (stays_element (bsonAsJsonVisitors (k' + 1)) _ _ s).go (by simpa using hgo)
          rw [hstay]
          exact ih (hturns.next hok') (by rw [he.len]; exact hlen) _

end Levels

/-- Documents are printed alike by visitors for as many levels as they have octets. -/
theorem visits_same (n : Nat) {k k' : Nat} (hk : n ≤ k) (hk' : n ≤ k') :
    SameVisits n (bsonAsJsonVisitors k) (bsonAsJsonVisitors k') := by
  induction n generalizing k k' with
  | zero =>
    intro m len s hlen _
    obtain rfl : len = 0 := Nat.le_zero.mp hlen
    rfl
  | succ n ih =>
    obtain ⟨k, rfl⟩ : ∃ j, k = j + 1 := ⟨k - 1, by omega⟩
    obtain ⟨k', rfl⟩ : ∃ j, k' = j + 1 := ⟨k' - 1, by omega⟩
    intro m len s hlen hmax
    exact visitLoop_same (ih (by omega) (by omega)) (turns_start hmax) hlen s

theorem bsonAsJsonVisitAll_levels (a : BsonRef) (hmax : a.len ≤ maxLen) (mode : BsonJsonMode)
    {k : Nat} (hk : a.len ≤ k) :
    bsonAsJsonVisitAll (bsonAsJsonVisitors k) a mode =
      bsonAsJsonVisitAll (bsonAsJsonVisitors a.len) a mode :=
  bsonAsJsonVisitAll_same (visits_same a.len hk (Nat.le_refl _)) (Nat.le_refl _) hmax mode

end LibBson.Source
