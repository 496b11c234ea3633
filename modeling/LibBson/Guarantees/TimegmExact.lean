import LibBson.Source.Iso8601Grammar
import LibBson.Source.TimegmSearch

/-!
# Seconds and dates

The date of every second, the second of every date, and the ISO 8601 parser on top of
them. Source: bson-timegm.c:303-790, bson-iso8601.c:104-297.
-/

set_option autoImplicit false

namespace LibBson.Guarantees
open LibBson.Library LibBson.Source LibBson.Spec

/-! ## The date of a second -/

/-- The date and the time of day of a second by the calendar. -/
structure DateOf (t : Int) (d : BsonTmDate) : Prop where
  month : 0 ≤ d.tmMon
  dated : Dated (t / 86400) (d.tmYear + 1900) (d.tmMon.toNat + 1) d.tmMday
  min : 0 ≤ d.tmMin ∧ d.tmMin < 60
  sec : 0 ≤ d.tmSec ∧ d.tmSec < 60
  clock : d.tmHour * 3600 + d.tmMin * 60 + d.tmSec = t % 86400
  /-- The first of January 1970 was a Thursday. -/
  wday : d.tmWday = (t / 86400 + 4) % 7
  yday : d.tmYday = t / 86400 - daysBeforeYear (d.tmYear + 1900)
  isdst : d.tmIsdst = 0

theorem dateOf_gmDate (t : Int) : DateOf t (gmDate t) := by
  have hcivil := civil_dated (t / 86400)
  obtain ⟨hclock, hsum⟩ := gmtime_clock t
  have hmonth := hcivil.month
  have hmon : (gmDate t).tmMon = ((civil (t / 86400)).2.1 : Int) - 1 := rfl
  have hyear : (gmDate t).tmYear + 1900 = (civil (t / 86400)).1 := Int.sub_add_cancel _ _
  have hnat : (gmDate t).tmMon.toNat + 1 = (civil (t / 86400)).2.1 := by omega
  refine ⟨by omega, ?_, ⟨hclock.1, hclock.2.1⟩, hclock.2.2, hsum, rfl, ?_, rfl⟩
  · rw [hyear, hnat]
    exact hcivil
  · rw [hyear]
    rfl

/-- A second has one date. -/
theorem DateOf.unique {t : Int} {d e : BsonTmDate} (hd : DateOf t d) (he : DateOf t e) : d = e := by
  obtain ⟨hmon, hdated, hmin, hsec, hclock, hwday, hyday, hisdst⟩ := hd
  obtain ⟨hmon', hdated', hmin', hsec', hclock', hwday', hyday', hisdst'⟩ := he
  obtain ⟨hyear, hmonth, hmday⟩ := hdated.unique hdated'
  cases d with
  | mk dtm =>
    cases e with
    | mk etm =>
      cases dtm
      cases etm
      simp only [BsonTmDate.mk.injEq, BsonTm.mk.injEq] at *
      refine ⟨⟨by omega, by omega, by omega, hmday, by omega, by omega⟩, by omega, ?_, by omega⟩
      rw [hyday, hyday', hyear]

/-- The date of a second is found exactly when `tm_year` and the year are an `int`, that is
from the year -2147481748 to the year 2147483647, whatever is in `*tmp`. -/
theorem gmtsub_date_iff (t : Int) (tmp d : BsonTmDate) :
    gmtsub t 0 tmp = .ok d ↔
      DateOf t d ∧ -67768040609740800 ≤ t ∧ t < 67767976233532800 := by
  have hfits : YearFits (civil (t / 86400)).1 ↔
      -67768040609740800 ≤ t ∧ t < 67767976233532800 := by
    have hmin : daysBeforeYear (intMin + 1900) = -784352321872 := by decide
    have hmax : daysBeforeYear (intMax + 1) = 784351576777 := by decide
    rw [yearFits_iff, hmin, hmax]
    omega
  obtain ⟨hok, herror⟩ := gmtsub_eq t tmp
  rw [← hfits]
  constructor
  · intro h
    by_cases hyear : YearFits (civil (t / 86400)).1
    · rw [hok hyear, Except.ok.injEq] at h
      exact ⟨h ▸ dateOf_gmDate t, hyear⟩
    · obtain ⟨left, hleft⟩ := herror hyear
      rw [hleft] at h
      cases h
  · rintro ⟨hdate, hyear⟩
    rw [hok hyear, (dateOf_gmDate t).unique hdate]

/-! ## The second of a date -/

/-- `_bson_timegm` counts the seconds of every date without a field beyond `2 ^ 30`, normal
or not, and leaves the date of that second, for `int_fast32_t` of 32 bits or more and
whatever the stack holds. -/
theorem timegm_exact (bits : Nat) (hbits : 32 ≤ bits) (mytm tmp : BsonTmDate)
    (small : TmSmall tmp.toBsonTm) :
    (bsonTimegm bits mytm tmp).1 = tmSeconds tmp.toBsonTm ∧
      DateOf (tmSeconds tmp.toBsonTm) (bsonTimegm bits mytm tmp).2 := by
  rw [bsonTimegm_eq hbits mytm small]
  exact ⟨rfl, dateOf_gmDate _⟩

/-- One second behind the end of February 2016, as its 59th day with 61 seconds. -/
theorem timegm_exact_february :
    (bsonTimegm 64 ⟨⟨7, 7, 7, 7, 7, 7⟩, 7, 7, 7⟩ ⟨⟨61, 59, 23, 59, 0, 116⟩, 0, 0, 0⟩).1 =
        tmSeconds ⟨61, 59, 23, 59, 0, 116⟩ ∧
      DateOf (tmSeconds ⟨61, 59, 23, 59, 0, 116⟩)
        (bsonTimegm 64 ⟨⟨7, 7, 7, 7, 7, 7⟩, 7, 7, 7⟩ ⟨⟨61, 59, 23, 59, 0, 116⟩, 0, 0, 0⟩).2 :=
  timegm_exact 64 (by decide) ⟨⟨7, 7, 7, 7, 7, 7⟩, 7, 7, 7⟩ ⟨⟨61, 59, 23, 59, 0, 116⟩, 0, 0, 0⟩
    ⟨by decide, by decide, by decide, by decide, by decide, by decide⟩

/-! ## The parser of dates -/

/-- What `_bson_iso8601_date_parse` gives `_bson_timegm`: the other fields are zero. -/
def posixTimegm (bits : Nat) (mytm : BsonTmDate) (tm : BsonTm) : Int :=
  (bsonTimegm bits mytm { tm with tmWday := 0, tmYday := 0, tmIsdst := 0 }).1

/-- The milliseconds of a date by the calendar: days of the month that are not there and
the 60th second count on. -/
def isoMillis (d : IsoDate) : Int :=
  1000 * (dayNumber d.year (d.month + 1) ((d.day : Nat) + 1) * 86400 + (d.hour : Nat) * 3600 +
    (d.minute : Nat) * 60 + d.second) + d.millis - 1000 * d.zone.seconds

theorem isoTm_small (d : IsoDate) : TmSmall (isoTm d) := by
  have hsecond : d.second ≤ 60 := by
    unfold IsoDate.second
    cases d.seconds with
    | none => decide
    | some s => exact Nat.le_of_lt_succ s.second.isLt
  have hminute := d.minute.isLt
  have hhour := d.hour.isLt
  have hday := d.day.isLt
  have hmonth := d.month.isLt
  have hyear := d.year.isLt
  unfold isoTm
  constructor <;> constructor <;> dsimp only <;> omega

theorem isoValue_posixTimegm {bits : Nat} (hbits : 32 ≤ bits) (mytm : BsonTmDate) (d : IsoDate) :
    isoValue (posixTimegm bits mytm) d = isoMillis d := by
  have hmonth := d.month.isLt
  have hmon : (((d.month : Nat) : Int) % 12).toNat = (d.month : Nat) := by omega
  have hyear : ((d.year : Nat) : Int) - 1900 + 1900 + ((d.month : Nat) : Int) / 12 =
      (d.year : Nat) := by omega
  rw [isoValue, posixTimegm, bsonTimegm_eq hbits mytm (isoTm_small d), isoMillis]
  simp only [isoTm, tmSeconds, hmon, hyear]

/-- With the library's own `_bson_timegm`, the texts that are dates are read, each as its
milliseconds by the calendar, and no other text is. -/
theorem iso8601_timegm_iff (bits : Nat) (hbits : 32 ≤ bits) (mytm : BsonTmDate) (str : Bytes)
    (v : Int) :
    bsonIso8601DateParse str (posixTimegm bits mytm) = .ok v ↔
      ∃ d : IsoDate, d.text = str ∧ isoMillis d = v := by
  constructor
  · intro h
    obtain ⟨d, rfl⟩ := parse_ok (posixTimegm bits mytm) h
    rw [parse_text, Except.ok.injEq, isoValue_posixTimegm hbits] at h
    exact ⟨d, rfl, h⟩
  · rintro ⟨d, rfl, rfl⟩
    rw [parse_text, isoValue_posixTimegm hbits]

/-- The thirtieth of February 2023 is the second of March. -/
theorem iso8601_timegm_march :
    bsonIso8601DateParse (ascii "2023-02-30T00:00Z") (posixTimegm 32 ⟨⟨0, 0, 0, 0, 0, 0⟩, 0, 0, 0⟩) =
        .ok 1677715200000 ↔
      ∃ d : IsoDate, d.text = ascii "2023-02-30T00:00Z" ∧ isoMillis d = 1677715200000 :=
  iso8601_timegm_iff 32 (by decide) _ _ _

end LibBson.Guarantees
