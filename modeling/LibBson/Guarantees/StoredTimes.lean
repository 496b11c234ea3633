import LibBson.Guarantees.AppendExact
import LibBson.Guarantees.BuildExact
import LibBson.Source.IterTimes

/-!
# Times that come back from a document

A `time_t` is read with a division by an unsigned long, which is unsigned where `long` has
64 bits; a `timeval` is read with divisions that round towards zero. Both are exact for
dates from 1970 on. Source: bson.c:1679-1692, 1772-1787; bson-iter.h:390-418.
-/

set_option autoImplicit false

namespace LibBson.Guarantees
open LibBson.Library LibBson.Source LibBson.Spec

/-- `bson_iter_time_t` returns what `bson_append_time_t` was given, in every document. -/
def TimeTKept (w : CLong) (value : Int) : Prop :=
  ∀ fresh e, LastAppended fresh (.timeT value) e → bsonIterTimeT w e = value

/-- `bson_iter_timeval` returns what `bson_append_timeval` was given, down to the
milliseconds. -/
def TimevalKept (w : CLong) (tvSec tvUsec : Int) : Prop :=
  ∀ fresh e, LastAppended fresh (.timeval tvSec tvUsec) e →
    bsonIterTimeval w e = { tvSec := tvSec, tvUsec := tvUsec / 1000 * 1000 }

def FitsInt64 (n : Int) : Prop := -9223372036854775808 ≤ n ∧ n < 9223372036854775808

theorem toInt_ofInt {n : Int} (h : FitsInt64 n) : (BitVec.ofInt 64 n).toInt = n := by
  obtain ⟨hleast, hmost⟩ := h
  rw [BitVec.toInt_ofInt]
  apply Int.bmod_eq_of_le <;> omega

/-- A date can be appended to an empty document. -/
theorem exists_lastAppended {f : Field} {ms : BitVec 64} (hf : Means f (.dateTime ms)) :
    ∃ fresh e, LastAppended fresh f e := by
  have hcall : CallMeans (.field [116] 1 f) (.cons ⟨[116], by decide⟩ (.dateTime ms) .nil) :=
    .keyed _ [116] 1 f _ _ rfl rfl hf
  have hold : Holding (bsonInit fun _ => 0) Doc.nil.body := (start_bsonInit _).holding
  have hbody : (Doc.cons ⟨[116], by decide⟩ (.dateTime ms) .nil).body.length = 11 := by
    rw [Doc.body_cons, Doc.body_nil, List.append_nil, List.length_append, header_length,
      Value.encode, leBytes_length]
    rfl
  obtain ⟨c', hok, -⟩ := bsonAppendCall_success (fun _ _ => 0) hcall hold rfl
    (by rw [hbody, Doc.body_nil]; decide)
  obtain ⟨hold', -⟩ := bsonAppendCall_ok hcall hok hold (by rw [hbody, Doc.body_nil]; decide)
  have hlen' := hold'.len
  have hinit : bsonIterInit c'.ref = (true, BsonIter.start (some c'.ref.data) c'.ref.len) := by
    rw [bsonIterInit, if_neg (by rw [show c'.ref.len = c'.bson.len from rfl]; omega)]
  exact ⟨_, _, .intro _ c' .nil [116] 1 ⟨[116], by decide⟩ (start_open _) hold rfl (by decide) hok _
    hinit⟩

section Kept

variable {w : CLong}

/-- The `time_t` that is read of `value * 1000` milliseconds. -/
theorem timeT_kept_iff {value : Int} (hlong : w.Holds value) (hfits : FitsInt64 (value * 1000)) :
    TimeTKept w value ↔ (w = .bits64 → 0 ≤ value) := by
  have hmeans : Means (.timeT value) (.dateTime (BitVec.ofInt 64 (value * 1000))) :=
    .timeT value _ rfl
  have hread : ∀ fresh e, LastAppended fresh (.timeT value) e →
      bsonIterTimeT w e = bsonIterTimeTUnsafe w (value * 1000) := by
    intro fresh e he
    obtain ⟨htype, hdate⟩ := he.date hmeans
    rw [bsonIterTimeT_eq w htype, hdate, toInt_ofInt hfits]
  obtain ⟨hleast, hmost⟩ := hfits
  constructor
  · intro hkept hw
    subst hw
    obtain ⟨fresh, e, he⟩ := exists_lastAppended hmeans
    have heq := (hread fresh e he).symm.trans (hkept fresh e he)
    simp only [bsonIterTimeTUnsafe] at heq
    rw [CLong.cast_of_holds (by unfold CLong.Holds ofInt64; omega)] at heq
    omega
  · intro hsign fresh e he
    rw [hread fresh e he]
    cases w with
    | bits32 =>
      have hquot : (value * 1000).tdiv 1000 = value := Int.mul_tdiv_cancel value (by decide)
      simp only [bsonIterTimeTUnsafe]
      rw [hquot, CLong.cast_of_holds hlong]
    | bits64 =>
      have hpos := hsign rfl
      have hquot : ((ofInt64 (value * 1000) / 1000 : Nat) : Int) = value := by
        have hword : ((ofInt64 (value * 1000) : Nat) : Int) = value * 1000 := by
          rw [ofInt64, Int.toNat_of_nonneg (Int.emod_nonneg _ (by decide))]
          exact Int.emod_eq_of_lt (by omega) (by omega)
        rw [Int.natCast_ediv, hword]
        exact Int.mul_ediv_cancel value (by decide)
      simp only [bsonIterTimeTUnsafe]
      rw [hquot, CLong.cast_of_holds hlong]

theorem timeval_kept_iff {tvSec tvUsec : Int} (hlong : w.Holds tvSec) (h0 : 0 ≤ tvUsec)
    (hlt : tvUsec < 1000000) (hfits : FitsInt64 (tvSec * 1000 + tvUsec / 1000)) :
    TimevalKept w tvSec tvUsec ↔ (0 ≤ tvSec ∨ tvUsec < 1000) := by
  have hmeans : Means (.timeval tvSec tvUsec)
      (.dateTime (BitVec.ofInt 64 (tvSec * 1000 + tvUsec / 1000))) :=
    .timeval tvSec tvUsec _ h0 hlt rfl
  have hread : ∀ fresh e, LastAppended fresh (.timeval tvSec tvUsec) e →
      bsonIterTimeval w e = bsonIterTimevalUnsafe w (tvSec * 1000 + tvUsec / 1000) := by
    intro fresh e he
    obtain ⟨htype, hdate⟩ := he.date hmeans
    rw [bsonIterTimeval_eq w htype, hdate, toInt_ofInt hfits]
  constructor
  · intro hkept
    obtain ⟨fresh, e, he⟩ := exists_lastAppended hmeans
    have heq := (hread fresh e he).symm.trans (hkept fresh e he)
    have husec := congrArg Timeval.tvUsec heq
    simp only [bsonIterTimevalUnsafe] at husec
    -- The remainder takes the sign of the count of milliseconds.
    by_contra hneg
    have hmod := Int.tmod_nonneg (a := -(tvSec * 1000 + tvUsec / 1000)) 1000 (by omega)
    rw [Int.neg_tmod] at hmod
    omega
  · intro hsign fresh e he
    rw [hread fresh e he, bsonIterTimevalUnsafe]
    have hquot : (tvSec * 1000 + tvUsec / 1000).tdiv 1000 = tvSec := by
      rcases hsign with hpos | hsmall
      · rw [Int.tdiv_eq_ediv_of_nonneg (by omega)]
        omega
      · rw [show tvUsec / 1000 = 0 by omega, Int.add_zero]
        exact Int.mul_tdiv_cancel tvSec (by decide)
    have hrest := Int.mul_tdiv_add_tmod (tvSec * 1000 + tvUsec / 1000) 1000
    rw [hquot] at hrest
    rw [hquot, CLong.cast_of_holds hlong, Timeval.mk.injEq]
    exact ⟨rfl, by omega⟩

end Kept

/-- Times survive storage if and only if they are not before 1970, or a `time_t` is read
where `long` has 32 bits, or a `timeval` is of whole seconds and less than a millisecond. -/
theorem times_kept_iff (w : CLong) :
    (∀ value, w.Holds value → FitsInt64 (value * 1000) →
      (TimeTKept w value ↔ (w = .bits64 → 0 ≤ value))) ∧
    ∀ tvSec tvUsec, w.Holds tvSec → 0 ≤ tvUsec → tvUsec < 1000000 →
      FitsInt64 (tvSec * 1000 + tvUsec / 1000) →
      (TimevalKept w tvSec tvUsec ↔ (0 ≤ tvSec ∨ tvUsec < 1000)) :=
  ⟨fun _ hlong hfits => timeT_kept_iff hlong hfits,
    fun _ _ hlong h0 hlt hfits => timeval_kept_iff hlong h0 hlt hfits⟩

/-- One second before 1970, and half a second before it. -/
theorem times_not_kept :
    ¬ TimeTKept .bits64 (-1) ∧ bsonIterTimeTUnsafe .bits64 (-1000) = 18446744073709550 ∧
      ¬ TimevalKept .bits64 (-1) 500000 ∧
      bsonIterTimevalUnsafe .bits64 (-500) = { tvSec := 0, tvUsec := -500000 } := by
  refine ⟨fun h => ?_, by decide, fun h => ?_, by decide⟩
  · have hpos := (timeT_kept_iff (w := .bits64) ⟨by decide, by decide⟩
      ⟨by decide, by decide⟩).mp h rfl
    exact absurd hpos (by decide)
  · have hcases := (timeval_kept_iff (w := .bits64) ⟨by decide, by decide⟩ (by decide) (by decide)
      ⟨by decide, by decide⟩).mp h
    exact absurd hcases (by decide)

end LibBson.Guarantees
