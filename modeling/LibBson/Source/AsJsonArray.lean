import LibBson.Source.AsJsonFields

/-!
# Two visits with one iterator

`bson_array_as_json` visits its document twice. `secondWalk` is what the second visit
finds: the fields behind the first that was refused, with `err_off` still set where the
refused text was the last field, or what stands behind a key that is no UTF-8.
-/

set_option autoImplicit false

namespace LibBson.Source
open LibBson.Library

/-! ## The fields of a document -/

/-- The fields a printer comes to in `a`, each with its key. -/
def printedFields (a : BsonRef) : List (BsonIter × Bytes) :=
  (visitWalkAll (BsonIter.start (some a.data) a.len)).1

/-- The iterator behind them. -/
def printedEnd (a : BsonRef) : BsonIter := (visitWalkAll (BsonIter.start (some a.data) a.len)).2

/-- A key that cannot be escaped or a refused value ends the visit of `bson_as_json`. -/
def stopsDocument (a : BsonRef) : Bool := (printedFields a).any (fieldStops a.len true)

def refusedFields (a : BsonRef) : List (BsonIter × Bytes) :=
  (printedFields a).filter (refuses a.len)

/-- The bytes are corrupt, or those of a document in a field. -/
def seesCorruption (a : BsonRef) : Bool :=
  (printedEnd a).errOff != 0 || (printedFields a).any (corrupts a.len)

/-- The last field holds a text that is no UTF-8. -/
def endsInInvalidText (a : BsonRef) : Bool :=
  match (printedFields a).getLast? with
  | none => false
  | some f => (visitedValue a.len f).iter.errOff != 0

/-! ## What is left for the second visit -/

/-- What stands behind the first element with `p`. -/
def behind {α : Type} (p : α → Bool) : List α → Option (List α)
  | [] => none
  | f :: fs => if p f then some fs else behind p fs

theorem behind_of_none {α : Type} {p : α → Bool} {fs : List α} (h : ∀ f ∈ fs, p f = false) :
    behind p fs = none := by
  induction fs with
  | nil => rfl
  | cons f fs ih =>
    have hf := h f List.mem_cons_self
    simp only [behind, hf, Bool.false_eq_true, if_false]
    exact ih fun g hg => h g (List.mem_cons_of_mem f hg)

theorem behind_split {α : Type} {p : α → Bool} {pre post : List α} {f : α}
    (hpre : ∀ g ∈ pre, p g = false) (hf : p f = true) : behind p (pre ++ f :: post) = some post := by
  induction pre with
  | nil => simp [behind, hf]
  | cons g pre ih =>
    have hg := hpre g List.mem_cons_self
    simp only [List.cons_append, behind, hg, Bool.false_eq_true, if_false]
    exact ih fun g hg => hpre g (List.mem_cons_of_mem _ hg)

def secondFields (a : BsonRef) : List (BsonIter × Bytes) :=
  match behind (refuses a.len) (printedFields a) with
  | some post => post
  | none => (visitWalkAll (printedEnd a)).1

theorem fieldStops_values (n : Nat) : fieldStops n false = refuses n := by
  funext f
  simp [fieldStops, keyStops]

theorem fieldCorrupts_values (n : Nat) : fieldCorrupts n false = corrupts n := by
  funext f
  simp [fieldCorrupts, keyStops]

/-- What the second visit of the array printer starts from. -/
structure SecondStart (a : BsonRef) (r : Visited BsonJsonState) (fin : BsonIter) : Prop where
  walk : visitWalkAll r.iter = (secondFields a, fin)
  turns : ∃ k, Turns k r.iter
  errStopped : r.stop = true → (fin.errOff ≠ 0 ↔ (printedEnd a).errOff ≠ 0 ∨
    (secondFields a = [] ∧ endsInInvalidText a = true))
  done : r.stop = false → (printedEnd a).errOff = 0 → secondFields a = [] ∧ fin.errOff = 0

theorem turns_of_none {it : BsonIter} (h : it.raw = none) : Turns 1 it where
  pos := Nat.one_pos
  start := fun m hm => by simp [h] at hm
  small := fun m hm => by simp [h] at hm
  enough := fun m hm => by simp [h] at hm

/-- The iterator behind a walk can be used again. -/
theorem visitWalk_end_turns {fuel : Nat} {it : BsonIter} (h : Turns fuel it) :
    ∃ k, Turns k (visitWalk fuel it).2 := by
  induction fuel generalizing it with
  | zero => exact absurd h.pos (Nat.lt_irrefl 0)
  | succ fuel ih =>
    simp only [visitWalk]
    split
    · next hok => exact ⟨1, turns_of_none (raw_of_next_fail it hok)⟩
    · next hok =>
      have hok' : (bsonIterNextInternal it).ok = true := by simpa using hok
      split
      · have hnext := (h.next hok').all
        exact ⟨_, hnext.pos, hnext.start, hnext.small, hnext.enough⟩
      · exact ih (h.next hok')

theorem Turns.errOff {k : Nat} {it : BsonIter} (h : Turns k it) (x : Nat) :
    Turns k { it with errOff := x } := ⟨h.pos, h.start, h.small, h.enough⟩

/-- The first visit leaves the second its fields. -/
theorem second_start {a : BsonRef} (hmax : a.len ≤ maxLen) {n : Nat} (hn : a.len = n + 1)
    {s : BsonJsonState} (hs : Plain s) (hkeys : s.keys = false) :
    ∃ fin, SecondStart a
      (visitWalked (bsonAsJsonVisitors (n + 1)) (printedFields a) (printedEnd a) s) fin := by
  have hturns : Turns (a.len + 1) (BsonIter.start (some a.data) a.len) := turns_start hmax
  have hran := visitWalked_fields n (printedFields a) (printedEnd a) hs
  generalize visitWalked (bsonAsJsonVisitors (n + 1)) (printedFields a) (printedEnd a) s = r
    at hran ⊢
  cases hstop : r.stop with
  | false =>
    have hiter := hran.iter hstop
    have hnone : ∀ f ∈ printedFields a, refuses a.len f = false := by
      have h := hran.stop
      rw [hstop, hkeys, fieldStops_values, ← hn] at h
      simpa using h.symm
    have hsecond : secondFields a = (visitWalkAll (printedEnd a)).1 := by
      rw [secondFields, behind_of_none hnone]
    obtain ⟨k, hk⟩ := visitWalk_end_turns hturns
    refine ⟨(visitWalkAll (printedEnd a)).2, ?_, ⟨k, ?_⟩, fun h => (nomatch hstop.symm.trans h), ?_⟩
    · rw [hiter, hsecond]
    · rw [hiter]
      exact hk
    · intro _ herr
      have hraw := visitWalk_end hturns herr
      have hwalk : visitWalkAll (printedEnd a) = ([], printedEnd a) := visitWalkAll_none hraw
      rw [hsecond, hwalk]
      exact ⟨rfl, herr⟩
  | true =>
    obtain ⟨pre, f, post, hfs, hpre, hf, hiter⟩ := hran.stopIter hstop hkeys
    rw [← hn] at hpre hf hiter
    have hwalk : visitWalk (a.len + 1) (BsonIter.start (some a.data) a.len) =
        (pre ++ f :: post, printedEnd a) := Prod.ext hfs rfl
    obtain ⟨⟨k, hk⟩, hrest, herr, hoff⟩ := visitWalk_split hturns hwalk
    have hsecond : secondFields a = post := by
      rw [secondFields, hfs, behind_split hpre hf]
    have hlast : post = [] → endsInInvalidText a = ((visitedValue a.len f).iter.errOff != 0) := by
      intro hpost
      rw [endsInInvalidText, hfs, hpost, List.getLast?_append]
      rfl
    rcases stays_value (bsonAsJsonVisitors a.len) f.1 f.2 (.init false .legacy) with hstay | ⟨hstay, -⟩
    · have hsame : (visitedValue a.len f).iter = f.1 := hstay
      refine ⟨printedEnd a, ?_, ⟨k, ?_⟩, fun _ => ?_, fun h => (nomatch hstop.symm.trans h)⟩
      · rw [hiter, hsame, hrest, hsecond]
      · rw [hiter, hsame]
        exact hk
      · refine ⟨Or.inl, fun h => ?_⟩
        rcases h with h | ⟨hnil, hends⟩
        · exact h
        · rw [hsecond] at hnil
          rw [hlast hnil, hsame, herr] at hends
          simp at hends
    · have hmoved : (visitedValue a.len f).iter = { f.1 with errOff := f.1.off } := hstay
      have hinvalid : post = [] → endsInInvalidText a = true := by
        intro hpost
        rw [hlast hpost, hmoved]
        simpa using hoff
      have hturns' := hk.errOff f.1.off
      rw [← hmoved, ← hiter] at hturns'
      rcases visitWalkAll_errOff hk f.1.off with ⟨heq, hreport⟩ | ⟨hnil, hzero, heq⟩
      · rw [hrest] at hreport heq
        refine ⟨printedEnd a, ?_, ⟨k, hturns'⟩, fun _ => ?_, fun h => (nomatch hstop.symm.trans h)⟩
        · rw [hiter, hmoved, heq, hsecond]
        · refine ⟨Or.inl, fun h => ?_⟩
          rcases h with h | ⟨hnil, -⟩
          · exact h
          · rw [hsecond] at hnil
            exact hreport hnil
      · rw [hrest] at hnil hzero heq
        refine ⟨{ printedEnd a with errOff := f.1.off }, ?_, ⟨k, hturns'⟩, fun _ => ?_,
          fun h => (nomatch hstop.symm.trans h)⟩
        · rw [hiter, hmoved, heq, hsecond]
          exact Prod.ext hnil.symm rfl
        · rw [hsecond]
          exact ⟨fun _ => Or.inr ⟨hnil, hinvalid hnil⟩, fun _ => hoff⟩

end LibBson.Source
