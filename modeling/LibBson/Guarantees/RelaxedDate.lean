import LibBson.Source.Iso8601Laws

/-!
# A date printed in relaxed mode, parsed again

Source: bson.c:2702-2726, bson-iso8601.c:104-329.
-/

set_option autoImplicit false

namespace LibBson.Guarantees
open LibBson.Library LibBson.Source

/-- The relaxed printer writes the date as the string `iso`. -/
def PrintsDate (msec : Int) (iso : Bytes) : Prop :=
  givenText (asJsonVisitDateTime .relaxed msec) =
    ascii "\x7b \"$date\" : \"" ++ iso ++ ascii "\" \x7d"

theorem printsDate_iff (msec : Int) (iso : Bytes) :
    PrintsDate msec iso ↔ 0 ≤ msec ∧ iso = givenText (bsonIso8601DateFormat msec) := by
  rw [PrintsDate, asJsonVisitDateTime]
  by_cases hneg : msec < 0
  · have htext : givenText [.append (ascii "\x7b \"$date\" : \x7b \"$numberLong\" : \""),
        .append (printfD msec), .append (ascii "\" \x7d \x7d")] =
        ascii "\x7b \"$date\" : \x7b \"$numberLong\" : \"" ++ printfD msec ++
          ascii "\" \x7d \x7d" := by
      simp [givenText, StringCall.given]
    rw [if_pos (Or.inr ⟨rfl, hneg⟩), htext]
    constructor
    · intro h
      -- behind the colon stands a brace, not a quote
      have hchar := congrArg (·[12]?) h
      rw [List.append_assoc, List.append_assoc,
        List.getElem?_append_left
          (by decide : 12 < (ascii "\x7b \"$date\" : \x7b \"$numberLong\" : \"").length),
        List.getElem?_append_left (by decide : 12 < (ascii "\x7b \"$date\" : \"").length)] at hchar
      exact absurd hchar (by decide)
    · intro h
      have h0 := h.1
      omega
  · have htext : givenText (.append (ascii "\x7b \"$date\" : \"") ::
        (bsonIso8601DateFormat msec ++ [.append (ascii "\" \x7d")])) =
        ascii "\x7b \"$date\" : \"" ++ givenText (bsonIso8601DateFormat msec) ++
          ascii "\" \x7d" := by
      rw [← List.singleton_append, givenText_append, givenText_append, ← List.append_assoc]
      simp [givenText, StringCall.given]
    rw [if_neg (by simpa using hneg), if_pos rfl, htext, List.append_left_inj,
      List.append_right_inj]
    constructor
    · intro h
      exact ⟨by omega, h.symm⟩
    · intro h
      exact h.2.symm

/-- The seconds of a date by the calendar, which is what `_bson_timegm` computes. -/
def civilSeconds (tm : BsonTm) : Int :=
  dayNumber (tm.tmYear + 1900) (tm.tmMon + 1).toNat tm.tmMday * 86400 + tm.tmHour * 3600 +
    tm.tmMin * 60 + tm.tmSec

theorem civilSeconds_gmtime (t : Int) : civilSeconds (gmtime t) = t := by
  have hd := civil_dated (t / 86400)
  have hcount := hd.count
  obtain ⟨h1, -⟩ := hd.month
  have hyear : (gmtime t).tmYear + 1900 = (civil (t / 86400)).1 :=
    Int.sub_add_cancel (civil (t / 86400)).1 1900
  have hmon : ((gmtime t).tmMon + 1).toNat = (civil (t / 86400)).2.1 :=
    (by omega : (((civil (t / 86400)).2.1 : Int) - 1 + 1).toNat = (civil (t / 86400)).2.1)
  have hmday : (gmtime t).tmMday = (civil (t / 86400)).2.2 := rfl
  have hclock : (gmtime t).tmHour * 3600 + (gmtime t).tmMin * 60 + (gmtime t).tmSec = t % 86400 :=
    (by omega : t / 3600 % 24 * 3600 + t / 60 % 60 * 60 + t % 60 = t % 86400)
  rw [civilSeconds, hyear, hmon, hmday, hcount]
  omega

/-- The date comes back exactly when it has a year of four digits and no
milliseconds from 1 to 99, for any inverse of `gmtime`. -/
theorem iso8601_round_trip_iff (timegm : BsonTm → Int) (htimegm : ∀ t, timegm (gmtime t) = t)
    (msec : Int) (iso : Bytes) (hprint : PrintsDate msec iso) :
    bsonIso8601DateParse iso timegm = .ok msec ↔
      msec < 253402300800000 ∧ (msec % 1000 = 0 ∨ 100 ≤ msec % 1000) := by
  obtain ⟨h0, rfl⟩ := (printsDate_iff msec iso).mp hprint
  obtain ⟨hgood, hbad⟩ := parse_format timegm h0
  constructor
  · intro hok
    by_contra hnot
    obtain ⟨e, he⟩ := hbad hnot
    rw [he] at hok
    cases hok
  · intro hcond
    rw [hgood hcond, htimegm]
    congr 1
    omega

/-- `1971-02-03T04:05:06.789Z` -/
theorem iso8601_round_trip_february :
    bsonIso8601DateParse (givenText (bsonIso8601DateFormat 34401906789)) civilSeconds = .ok 34401906789 ↔
      (34401906789 : Int) < 253402300800000 ∧
        ((34401906789 : Int) % 1000 = 0 ∨ 100 ≤ (34401906789 : Int) % 1000) :=
  iso8601_round_trip_iff civilSeconds civilSeconds_gmtime 34401906789 _
    ((printsDate_iff 34401906789 _).mpr ⟨by decide, rfl⟩)

/-- Five milliseconds are printed with two spaces in front. -/
theorem iso8601_not_round_trip :
    ¬ ∀ (msec : Int) (iso : Bytes), PrintsDate msec iso →
      bsonIso8601DateParse iso civilSeconds = .ok msec := by
  intro h
  have hok := h 5 _ ((printsDate_iff 5 _).mpr ⟨by decide, rfl⟩)
  obtain ⟨e, he⟩ := (parse_format civilSeconds (by decide : (0 : Int) ≤ 5)).2 (by decide)
  rw [he] at hok
  cases hok

example : givenText (bsonIso8601DateFormat 5) = ascii "1970-01-01T00:00:00.  5Z" := by decide +kernel

end LibBson.Guarantees
