import LibBson.Source.AsJsonLevels
import LibBson.Source.VisitBeside

/-!
# How many visits of the printer are active at once

The visitors of the printer with a count beside them: `active` is the number of
`bson_iter_visit_all` calls that have been entered and not left, `most` the largest it
has been. What the visitors print is not touched (`watched_visit`), and the bound on the
nesting cuts no level off (`activeAll_levels`). Source: bson.c:2956-2991, 3023-3150.
-/

set_option autoImplicit false

namespace LibBson.Source
open LibBson.Library

structure ActiveLevels where
  active : Nat
  most : Nat
  deriving DecidableEq

namespace ActiveLevels

/-- `bson_iter_visit_all` is called. -/
def enter (c : ActiveLevels) : ActiveLevels := ⟨c.active + 1, max c.most (c.active + 1)⟩

/-- It has returned and left `inner`. -/
def leave (c inner : ActiveLevels) : ActiveLevels := ⟨c.active, inner.most⟩

end ActiveLevels

section Active

variable (visitors : Visitor (BsonJsonState × ActiveLevels))

/-- `_bson_as_json_visit_document` and `_bson_as_json_visit_array` -/
def activeNested (keys : Bool) : Beside BsonJsonState ActiveLevels BsonRef := fun v s c =>
  if bsonMaxRecursion ≤ s.depth then c
  else
    match bsonIterInit v with
    | (false, _) => c
    | (true, child) => c.leave (bsonIterVisitAll visitors child (s.child keys, c.enter)).data.2

/-- `_bson_as_json_visit_all` -/
def activeAll (bson : BsonRef) (mode : BsonJsonMode) (c : ActiveLevels) : ActiveLevels :=
  if bsonEmpty bson then c
  else
    match bsonIterInit bson with
    | (false, _) => c
    | (true, it) => c.leave (bsonIterVisitAll visitors it (.init true mode, c.enter)).data.2

/-- `_bson_as_json_visit_codewscope` -/
def activeCodewscope : Beside BsonJsonState ActiveLevels (Bytes × BsonRef) := fun v s c =>
  match escapeText v.1 with
  | .lost => c
  | .null => c
  | .text _ => activeAll visitors v.2 s.mode c

end Active

/-- Beside the visitors for at most `depth` levels. -/
def activeCounts : Nat → Besides BsonJsonState ActiveLevels
  | 0 => { document := fun _ _ c => c, array := fun _ _ c => c, codewscope := fun _ _ c => c }
  | depth + 1 =>
    let visitors := (bsonAsJsonVisitors depth).beside (activeCounts depth)
    { document := activeNested visitors true
      array := activeNested visitors false
      codewscope := activeCodewscope visitors }

def watchedVisitors (depth : Nat) : Visitor (BsonJsonState × ActiveLevels) :=
  (bsonAsJsonVisitors depth).beside (activeCounts depth)

/-- The most levels that are active at once while `bson` is printed. -/
def activeLevels (bson : BsonRef) (mode : BsonJsonMode) : Nat :=
  (activeAll (watchedVisitors bson.len) bson mode ⟨0, 0⟩).most

theorem visitors_unsupported (n : Nat) : (bsonAsJsonVisitors n).unsupportedType = none := by
  cases n with
  | zero => rfl
  | succ n => rfl

/-- The printer is not changed by the count. -/
theorem watched_visit (n : Nat) {fuel : Nat} {it : BsonIter} (h : Turns fuel it) (s : BsonJsonState)
    (c : ActiveLevels) :
    bsonIterVisitAll (watchedVisitors n) it (s, c) =
      (bsonIterVisitAll (bsonAsJsonVisitors n) it s).beside
        ((activeCounts n).walked (bsonAsJsonVisitors n) (visitWalkAll it).1 s c) :=
  visitAll_beside (visitors_unsupported n) h s c

/-! ## The documents are shorter -/

theorem initStatic_len {e : BsonIter} {p : Slice} {b : BsonRef} (h : e.initStatic p = some b) :
    b.len = p.len ∧ 5 ≤ b.len ∧ b.len ≤ maxLen := by
  unfold BsonIter.initStatic bsonInitStatic at h
  split_ifs at h with h1
  cases h
  refine ⟨rfl, ?_, ?_⟩
  · dsimp only
    omega
  · unfold maxLen
    dsimp only
    omega

/-- The document in a field is what an accessor points to. -/
theorem nestedDocument_slice {e : BsonIter} {keys : Bool} {b : BsonRef}
    (h : nestedDocument e = some (keys, b)) :
    ∃ p, (bsonIterDocument e = some p ∨ bsonIterArray e = some p) ∧ e.initStatic p = some b := by
  unfold nestedDocument at h
  split at h
  · simp only [Option.map_eq_some_iff, Option.bind_eq_some_iff] at h
    obtain ⟨b', ⟨p, hp, hb⟩, heq⟩ := h
    cases heq
    exact ⟨p, Or.inl hp, hb⟩
  · simp only [Option.map_eq_some_iff, Option.bind_eq_some_iff] at h
    obtain ⟨b', ⟨p, hp, hb⟩, heq⟩ := h
    cases heq
    exact ⟨p, Or.inr hp, hb⟩
  · cases h

theorem scopeDocument_slice {e : BsonIter} {v : Bytes × BsonRef} (h : scopeDocument e = some v) :
    ∃ p q, bsonIterCodewscope e = some (p, q) ∧ e.initStatic q = some v.2 := by
  unfold scopeDocument at h
  split at h
  · cases hp : bsonIterCodewscope e with
    | none =>
      rw [hp] at h
      cases h
    | some p =>
      rw [hp] at h
      dsimp only at h
      split at h
      · simp only [Option.map_eq_some_iff] at h
        obtain ⟨b, hb, rfl⟩ := h
        exact ⟨p.1, p.2, rfl, hb⟩
      · cases h
  · cases h

section Shorter

variable {it e : BsonIter} {m : Mem} {o : Nat} {t : BsonType}

theorem nestedDocument_lt (he : Element m it e o t) {keys : Bool} {b : BsonRef}
    (h : nestedDocument e = some (keys, b)) : b.len < it.len := by
  obtain ⟨p, hp, hb⟩ := nestedDocument_slice h
  have hin : Inside it e p := by
    rcases hp with hp | hp
    · exact inside_document he hp
    · exact inside_array he hp
  obtain ⟨hstart, hstop, hnext⟩ := hin
  obtain ⟨hlen, -⟩ := initStatic_len hb
  omega

theorem scopeDocument_lt (he : Element m it e o t) {v : Bytes × BsonRef}
    (h : scopeDocument e = some v) : v.2.len < it.len := by
  obtain ⟨p, q, hp, hb⟩ := scopeDocument_slice h
  obtain ⟨hstart, hstop, hnext⟩ := inside_codewscope he hp
  obtain ⟨hlen, -⟩ := initStatic_len hb
  omega

theorem nestedDocument_len {keys : Bool} {b : BsonRef} (h : nestedDocument e = some (keys, b)) :
    5 ≤ b.len ∧ b.len ≤ maxLen := by
  obtain ⟨p, -, hb⟩ := nestedDocument_slice h
  exact (initStatic_len hb).2

theorem scopeDocument_len {v : Bytes × BsonRef} (h : scopeDocument e = some v) :
    5 ≤ v.2.len ∧ v.2.len ≤ maxLen := by
  obtain ⟨p, q, -, hb⟩ := scopeDocument_slice h
  exact (initStatic_len hb).2

end Shorter

/-! ## The bound on the nesting -/

/-- The visits of all documents of at most `n` octets count the same. -/
def SameActive (n : Nat) (v v' : Visitor (BsonJsonState × ActiveLevels)) : Prop :=
  ∀ (m : Mem) (len : Nat) (s : BsonJsonState) (c : ActiveLevels), len ≤ n → len ≤ maxLen →
    bsonIterVisitAll v (BsonIter.start (some m) len) (s, c) =
      bsonIterVisitAll v' (BsonIter.start (some m) len) (s, c)

section Same

variable {n k k' : Nat} {v v' : Visitor (BsonJsonState × ActiveLevels)}

theorem activeNested_same (h : SameActive n v v') (keys : Bool) {b : BsonRef} (hlen : b.len ≤ n)
    (hmax : b.len ≤ maxLen) (s : BsonJsonState) (c : ActiveLevels) :
    activeNested v keys b s c = activeNested v' keys b s c := by
  unfold activeNested
  by_cases h5 : b.len < 5
  · rw [bsonIterInit, if_pos h5]
  · simp only [bsonIterInit_of_le (Nat.le_of_not_lt h5), h b.data b.len _ _ hlen hmax]

theorem activeAll_same (h : SameActive n v v') {b : BsonRef} (hlen : b.len ≤ n)
    (hmax : b.len ≤ maxLen) (mode : BsonJsonMode) (c : ActiveLevels) :
    activeAll v b mode c = activeAll v' b mode c := by
  unfold activeAll
  by_cases h5 : b.len < 5
  · rw [bsonIterInit, if_pos h5]
  · simp only [bsonIterInit_of_le (Nat.le_of_not_lt h5), h b.data b.len _ _ hlen hmax]

theorem activeField_same (h : SameActive n (watchedVisitors k) (watchedVisitors k'))
    {it e : BsonIter} {m : Mem} {o : Nat} {t : BsonType} (he : Element m it e o t)
    (hlen : it.len ≤ n + 1) (s : BsonJsonState) (c : ActiveLevels) :
    (activeCounts (k + 1)).field e s c = (activeCounts (k' + 1)).field e s c := by
  unfold Besides.field
  cases hnested : nestedDocument e with
  | some b =>
    obtain ⟨keys, b⟩ := b
    have hlt := nestedDocument_lt he hnested
    obtain ⟨-, hsmall⟩ := nestedDocument_len hnested
    cases keys with
    | true => exact activeNested_same h true (by omega) hsmall s c
    | false => exact activeNested_same h false (by omega) hsmall s c
  | none =>
    cases hscope : scopeDocument e with
    | none => rfl
    | some v =>
      have hlt := scopeDocument_lt he hscope
      have hall := activeAll_same h (by omega) (scopeDocument_len hscope).2 s.mode c
      simp only [activeCounts, activeCodewscope]
      split
      · rfl
      · rfl
      · exact hall

theorem walked_same (h : SameVisits n (bsonAsJsonVisitors k) (bsonAsJsonVisitors k'))
    (hactive : SameActive n (watchedVisitors k) (watchedVisitors k')) {fuel : Nat} {it : BsonIter}
    (hturns : Turns fuel it) (hlen : it.len ≤ n + 1) (s : BsonJsonState) (c : ActiveLevels) :
    (activeCounts (k + 1)).walked (bsonAsJsonVisitors (k + 1)) (visitWalk fuel it).1 s c =
      (activeCounts (k' + 1)).walked (bsonAsJsonVisitors (k' + 1)) (visitWalk fuel it).1 s c := by
  induction fuel generalizing it s c with
  | zero => rfl
  | succ fuel ih =>
    simp only [visitWalk]
    split
    · rfl
    · next hok =>
      have hok' : (bsonIterNextInternal it).ok = true := by simpa using hok
      obtain ⟨m, hraw⟩ := raw_of_next_ok hok'
      have hmax := hturns.small m hraw
      obtain ⟨o, t, he⟩ := element_of_next hraw (hturns.start m hraw) hmax hok'
      split
      · rfl
      · have helement : ∀ key, (activeCounts (k + 1)).element (bsonAsJsonVisitors (k + 1))
            ((bsonIterNextInternal it).iter, key) s c =
            (activeCounts (k' + 1)).element (bsonAsJsonVisitors (k' + 1))
              ((bsonIterNextInternal it).iter, key) s c := by
          intro key
          simp only [Besides.element, activeField_same hactive he hlen]
          rfl
        simp only [Besides.walked, visitElement_same h he hlen hmax, helement]
        rw [ih (hturns.next hok') (by rw [he.len]; exact hlen)]

end Same

theorem active_same (n : Nat) {k k' : Nat} (hk : n ≤ k) (hk' : n ≤ k') :
    SameActive n (watchedVisitors k) (watchedVisitors k') := by
  induction n generalizing k k' with
  | zero =>
    intro m len s c hlen hmax
    obtain rfl : len = 0 := Nat.le_zero.mp hlen
    rw [watched_visit k (turns_start hmax), watched_visit k' (turns_start hmax)]
    rfl
  | succ n ih =>
    obtain ⟨k, rfl⟩ : ∃ j, k = j + 1 := ⟨k - 1, by omega⟩
    obtain ⟨k', rfl⟩ : ∃ j, k' = j + 1 := ⟨k' - 1, by omega⟩
    intro m len s c hlen hmax
    have hturns := turns_start (m := m) hmax
    rw [watched_visit _ hturns, watched_visit _ hturns,
      visits_same (n + 1) hk hk' m len s hlen hmax]
    congr 1
    exact walked_same (visits_same n (by omega) (by omega)) (ih (by omega) (by omega)) hturns hlen
      s c

/-- A bound beyond the octets of the document counts the same levels. -/
theorem activeAll_levels (bson : BsonRef) (hmax : bson.len ≤ maxLen) (mode : BsonJsonMode)
    (c : ActiveLevels) {k : Nat} (hk : bson.len ≤ k) :
    activeAll (watchedVisitors k) bson mode c = activeAll (watchedVisitors bson.len) bson mode c :=
  activeAll_same (active_same bson.len hk (Nat.le_refl _)) (Nat.le_refl _) hmax mode c

end LibBson.Source
