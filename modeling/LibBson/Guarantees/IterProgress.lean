import LibBson.Source.IterRuns
import LibBson.Source.ValidateLaws

/-!
# Iteration makes progress and stops

For every buffer of 5 to `2 ^ 31 - 1` octets, whatever lengths stand in it. Source:
bson-iter.c:42-67, 477-794.
-/

set_option autoImplicit false

namespace LibBson.Guarantees
open LibBson.Library LibBson.Source

/-- The iterator after `n` calls of `bson_iter_next` that all return true. -/
def afterNexts : Nat → BsonIter → Option BsonIter
  | 0, it => some it
  | n + 1, it => if (bsonIterNext it).1 then afterNexts n (bsonIterNext it).2 else none

/-- A successful step from `it` in a buffer of `len` octets. -/
structure Advances (len : Nat) (it it' : BsonIter) : Prop where
  off : it.off < it'.off
  nextOff : it'.nextOff < len

/-- Between the steps of a walk in a buffer of `len` octets. -/
structure Walking (len : Nat) (it : BsonIter) : Prop where
  raw : ∃ m, it.raw = some m
  size : it.len = len
  start : 4 ≤ it.nextOff
  ahead : it.off < it.nextOff
  inside : it.nextOff < len

section Walk

variable {len n : Nat} {it it' : BsonIter}

theorem walking_start (m : Mem) (h5 : 5 ≤ len) : Walking len (BsonIter.start (some m) len) :=
  ⟨⟨m, rfl⟩, rfl, Nat.le_refl 4, (by decide : 0 < 4), h5⟩

/-- One step: it goes on behind the element, at least two octets further. -/
theorem Walking.next (h : Walking len it) (hmax : len ≤ maxLen) (hok : (bsonIterNext it).1 = true) :
    Walking len (bsonIterNext it).2 ∧ Advances len it (bsonIterNext it).2 ∧
      it.nextOff + 2 ≤ (bsonIterNext it).2.nextOff := by
  obtain ⟨m, hraw⟩ := h.raw
  have hlen := h.size
  have hstart := h.start
  have hahead := h.ahead
  obtain ⟨o, t, he⟩ := element_of_next hraw h.start (by omega) hok
  obtain ⟨hprogress, hstop⟩ := he.progress
  have hoff : (bsonIterNext it).2.off = it.nextOff := he.off
  have hnext : (bsonIterNext it).2.nextOff = (bsonIterNextInternal it).iter.nextOff := rfl
  refine ⟨⟨⟨m, he.raw⟩, he.len.trans hlen, ?_, ?_, ?_⟩, ⟨?_, ?_⟩, hprogress⟩
  · omega
  · omega
  · omega
  · omega
  · omega

theorem Walking.afterNexts (h : Walking len it) (hmax : len ≤ maxLen)
    (hn : Guarantees.afterNexts n it = some it') :
    Walking len it' ∧ it.nextOff + 2 * n ≤ it'.nextOff := by
  induction n generalizing it with
  | zero =>
    cases hn
    exact ⟨h, Nat.le_refl _⟩
  | succ n ih =>
    rw [Guarantees.afterNexts] at hn
    split at hn
    · next hok =>
      obtain ⟨hwalking, -, hprogress⟩ := h.next hmax hok
      obtain ⟨hwalking', hmore⟩ := ih hwalking hn
      exact ⟨hwalking', by omega⟩
    · cases hn

theorem afterNexts_succ (n : Nat) (it : BsonIter) :
    afterNexts (n + 1) it =
      (afterNexts n it).bind fun it' =>
        if (bsonIterNext it').1 then some (bsonIterNext it').2 else none := by
  induction n generalizing it with
  | zero => rfl
  | succ n ih =>
    rw [afterNexts, ih]
    conv_rhs => rw [afterNexts]
    split
    · rfl
    · rfl

/-- A walk that cannot go on for `n` steps ends in a call that returns false. -/
theorem walk_ends (n : Nat) (h : afterNexts n it = none) :
    ∃ k < n, ∃ last, afterNexts k it = some last ∧ (bsonIterNext last).1 = false := by
  induction n with
  | zero => cases h
  | succ n ih =>
    cases hn : afterNexts n it with
    | none =>
      obtain ⟨k, hk, hlast⟩ := ih hn
      exact ⟨k, by omega, hlast⟩
    | some last =>
      rw [afterNexts_succ, hn, Option.bind_some] at h
      split at h
      · cases h
      · next hfalse => exact ⟨n, Nat.lt_succ_self n, last, hn, by simpa using hfalse⟩

end Walk

/-- Every successful step of a walk moves the element on and keeps `next_off` in the
buffer, and after at most half as many steps as there are octets a call returns
false. -/
theorem iter_progress (bson : BsonRef) (h5 : 5 ≤ bson.len) (hmax : bson.len ≤ 2147483647) :
    ∃ start, bsonIterInit bson = (true, start) ∧
      (∀ n it, afterNexts n start = some it →
        n ≤ bson.len / 2 ∧ it.nextOff < bson.len ∧
          ((bsonIterNext it).1 = true → Advances bson.len it (bsonIterNext it).2)) ∧
      ∃ n ≤ bson.len / 2, ∃ last, afterNexts n start = some last ∧
        (bsonIterNext last).1 = false := by
  have hsize : bson.len ≤ maxLen := Nat.le_trans hmax (by decide)
  have hstart := walking_start bson.data h5
  have hnext : (BsonIter.start (some bson.data) bson.len).nextOff = 4 := rfl
  refine ⟨_, bsonIterInit_of_le h5, fun n it hn => ?_, ?_⟩
  · obtain ⟨hwalking, hprogress⟩ := hstart.afterNexts hsize hn
    have hinside := hwalking.inside
    exact ⟨by omega, hinside, fun hok => (hwalking.next hsize hok).2.1⟩
  · have hnone : afterNexts (bson.len / 2 + 1) (BsonIter.start (some bson.data) bson.len) = none := by
      cases hn : afterNexts (bson.len / 2 + 1) (BsonIter.start (some bson.data) bson.len) with
      | none => rfl
      | some it =>
        obtain ⟨hwalking, hprogress⟩ := hstart.afterNexts hsize hn
        have hinside := hwalking.inside
        omega
    obtain ⟨n, hn, hlast⟩ := walk_ends _ hnone
    exact ⟨n, by omega, hlast⟩

/-- `{"a": null, "s": "xy", "n": 7, "d": {}}` and an element of a type that there is not. -/
def unknownTail : BsonRef where
  data := Mem.ofBytes [36, 0, 0, 0, 10, 97, 0, 2, 115, 0, 3, 0, 0, 0, 120, 121, 0,
    16, 110, 0, 7, 0, 0, 0, 3, 100, 0, 5, 0, 0, 0, 0, 32, 122, 0, 0]
  len := 36

/-- The walk yields the four elements and stops with an error at the tail. -/
theorem iter_progress_unknownTail :
    (afterNexts 4 (BsonIter.start (some unknownTail.data) 36)).map (fun it =>
        ((bsonIterNext it).1, (bsonIterNext it).2.errOff)) = some (false, 35) ∧
      ∃ start, bsonIterInit unknownTail = (true, start) ∧
        (∀ n it, afterNexts n start = some it →
          n ≤ 36 / 2 ∧ it.nextOff < 36 ∧
            ((bsonIterNext it).1 = true → Advances 36 it (bsonIterNext it).2)) ∧
        ∃ n ≤ 36 / 2, ∃ last, afterNexts n start = some last ∧ (bsonIterNext last).1 = false :=
  ⟨by decide, iter_progress unknownTail (by decide) (by decide)⟩

end LibBson.Guarantees
