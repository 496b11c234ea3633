import LibBson.Source.Iso8601
import LibBson.Source.Strtoll

/-!
# The seconds of a date

Source: bson-timegm.c:60-790. `gmtmem` has one time type, of offset 0 and without
daylight saving, no transitions and no leap seconds: the leap second loop of `timesub`
and the loops over types and transitions do not turn. A `NULL` result is an error that
carries what is left in `*tmp`. `int_fast32_t` is of `bits` bits.
-/

set_option autoImplicit false

namespace LibBson.Source
open LibBson.Library

/-- `struct bson_tm` as a date gets it; the zone is not set. -/
structure BsonTmDate extends BsonTm where
  tmWday : Int
  tmYday : Int
  tmIsdst : Int
  deriving DecidableEq

def intMax : Int := 2147483647
def intMin : Int := -2147483648

/-- `isleap` -/
def isleap (y : Int) : Bool := y.tmod 4 == 0 && (y.tmod 100 != 0 || y.tmod 400 == 0)

/-- `year_lengths[isleap (y)]` -/
def yearLengths (leap : Bool) : Int := if leap then 366 else 365

/-- `mon_lengths[isleap (y)]` -/
def monLengths (leap : Bool) : List Int :=
  if leap then [31, 29, 31, 30, 31, 30, 31, 31, 30, 31, 30, 31]
  else [31, 28, 31, 30, 31, 30, 31, 31, 30, 31, 30, 31]

/-- `leaps_thru_end_of`, whose recursive call is of a number that is not negative. -/
def leapsThruEndOf (y : Int) : Int :=
  let leaps := fun y : Int => y.tdiv 4 - y.tdiv 100 + y.tdiv 400
  if y ≥ 0 then leaps y else -(leaps (-(y + 1)) + 1)

def incrementOverflow (i j : Int) : Option Int :=
  if if i ≥ 0 then j > intMax - i else j < intMin - i then none else some (i + j)

/-! ## From seconds to a date -/

/-- The loop over years. -/
def timesubYears : Nat → Int → Int → Option (Int × Int)
  | 0, _, _ => none
  | fuel + 1, tdays, y =>
    if tdays < 0 ∨ tdays ≥ yearLengths (isleap y) then
      let tdelta := tdays.tdiv 366
      let idelta := if tdelta = 0 then if tdays < 0 then -1 else 1 else tdelta
      match incrementOverflow y idelta with
      | none => none
      | some newy =>
        let leapdays := leapsThruEndOf (newy - 1) - leapsThruEndOf (y - 1)
        timesubYears fuel (tdays - (newy - y) * 365 - leapdays) newy
    else some (tdays, y)

/-- `while (rem < 0)` -/
def timesubBorrow : Nat → Int → Int → Int × Int
  | 0, rem, idays => (rem, idays)
  | fuel + 1, rem, idays =>
    if rem < 0 then timesubBorrow fuel (rem + 86400) (idays - 1) else (rem, idays)

/-- `while (rem >= SECSPERDAY)` -/
def timesubCarry : Nat → Int → Int → Int × Int
  | 0, rem, idays => (rem, idays)
  | fuel + 1, rem, idays =>
    if rem ≥ 86400 then timesubCarry fuel (rem - 86400) (idays + 1) else (rem, idays)

/-- `while (idays < 0)` -/
def timesubYearsDown : Nat → Int → Int → Option (Int × Int)
  | 0, _, _ => none
  | fuel + 1, idays, y =>
    if idays < 0 then
      match incrementOverflow y (-1) with
      | none => none
      | some y => timesubYearsDown fuel (idays + yearLengths (isleap y)) y
    else some (idays, y)

/-- `while (idays >= year_lengths[isleap (y)])` -/
def timesubYearsUp : Nat → Int → Int → Option (Int × Int)
  | 0, _, _ => none
  | fuel + 1, idays, y =>
    if idays ≥ yearLengths (isleap y) then
      match incrementOverflow y 1 with
      | none => none
      | some newy => timesubYearsUp fuel (idays - yearLengths (isleap y)) newy
    else some (idays, y)

/-- The loop over `ip`, from the month `mon` on. -/
def timesubMonths : List Int → Int → Int → Int × Int
  | [], mon, idays => (mon, idays)
  | length :: ip, mon, idays =>
    if idays ≥ length then timesubMonths ip (mon + 1) (idays - length) else (mon, idays)

/-- The fields of a day of a year, and of a second of it. -/
def timesubFields (y idays rem : Int) : BsonTmDate :=
  let wday :=
    (4 + (y - 1970).tmod 7 * (365 : Int).tmod 7 + leapsThruEndOf (y - 1) -
      leapsThruEndOf (1970 - 1) + idays).tmod 7
  let months := timesubMonths (monLengths (isleap y)) 0 idays
  { tmSec := (rem.tmod 3600).tmod 60
    tmMin := (rem.tmod 3600).tdiv 60
    tmHour := rem.tdiv 3600
    tmMday := months.2 + 1
    tmMon := months.1
    tmYear := y - 1900
    tmWday := if wday < 0 then wday + 7 else wday
    tmYday := idays
    tmIsdst := 0 }

/-- From `while (idays >= year_lengths[isleap (y)])` on. -/
def timesubEnd (tmp : BsonTmDate) (idays y rem : Int) : Except BsonTmDate BsonTmDate :=
  match timesubYearsUp (idays.natAbs + 1) idays y with
  | none => .error tmp
  | some (idays, y) =>
    match incrementOverflow y (-1900) with
    | none => .error { tmp with tmYear := y }
    | some _ => .ok (timesubFields y idays rem)

def timesub (timep offset : Int) (tmp : BsonTmDate) : Except BsonTmDate BsonTmDate :=
  let tdays := timep.tdiv 86400
  let rem := timep - tdays * 86400
  match timesubYears (tdays.natAbs + 1) tdays 1970 with
  | none => .error tmp
  | some (tdays, y) =>
    let seconds := tdays * 86400
    let tdays := seconds.tdiv 86400
    let rem := rem + (seconds - tdays * 86400) + offset
    let (rem, idays) := timesubBorrow (rem.natAbs + 1) rem tdays
    let (rem, idays) := timesubCarry (rem.natAbs + 1) rem idays
    match timesubYearsDown (idays.natAbs + 1) idays y with
    | none => .error tmp
    | some (idays, y) => timesubEnd tmp idays y rem

def gmtsub (timep offset : Int) (tmp : BsonTmDate) : Except BsonTmDate BsonTmDate :=
  timesub timep offset tmp

/-! ## From a date to seconds -/

section Time

variable (bits : Nat)

def intFast32Max : Int := 2 ^ (bits - 1) - 1
def intFast32Min : Int := -2 ^ (bits - 1)

/-- The conversion to `int_fast32_t`. -/
def toIntFast32 (x : Int) : Int := (x + 2 ^ (bits - 1)) % 2 ^ bits - 2 ^ (bits - 1)

def incrementOverflow32 (l m : Int) : Option Int :=
  if if l ≥ 0 then m > intFast32Max bits - l else m < intFast32Min bits - l then none
  else some (l + m)

/-- `tensdelta` of the two normalizers. -/
def tensDelta (units base : Int) : Int :=
  if units ≥ 0 then units.tdiv base else -1 - (-1 - units).tdiv base

/-- The tens and the units. -/
def normalizeOverflow (tens units base : Int) : Option (Int × Int) :=
  (incrementOverflow tens (tensDelta units base)).map fun tens =>
    (tens, units - tensDelta units base * base)

def normalizeOverflow32 (tens units base : Int) : Option (Int × Int) :=
  (incrementOverflow32 bits tens (tensDelta units base)).map fun tens =>
    (tens, units - tensDelta units base * base)

def tmcomp (atmp btmp : BsonTm) : Int :=
  if atmp.tmYear ≠ btmp.tmYear then if atmp.tmYear < btmp.tmYear then -1 else 1
  else if atmp.tmMon - btmp.tmMon ≠ 0 then atmp.tmMon - btmp.tmMon
  else if atmp.tmMday - btmp.tmMday ≠ 0 then atmp.tmMday - btmp.tmMday
  else if atmp.tmHour - btmp.tmHour ≠ 0 then atmp.tmHour - btmp.tmHour
  else if atmp.tmMin - btmp.tmMin ≠ 0 then atmp.tmMin - btmp.tmMin
  else atmp.tmSec - btmp.tmSec

/-- `li` of the two loops over years: the year whose February lies ahead. -/
def februaryYear (y mon : Int) : Int := y + if 1 < mon then 1 else 0

/-- `while (yourtm.tm_mday <= 0)` -/
def time2subYearsDown (mon : Int) : Nat → Int → Int → Option (Int × Int)
  | 0, _, _ => none
  | fuel + 1, mday, y =>
    if mday ≤ 0 then
      match incrementOverflow32 bits y (-1) with
      | none => none
      | some y => time2subYearsDown mon fuel (mday + yearLengths (isleap (februaryYear y mon))) y
    else some (mday, y)

/-- `while (yourtm.tm_mday > DAYSPERLYEAR)` -/
def time2subYearsUp (mon : Int) : Nat → Int → Int → Option (Int × Int)
  | 0, _, _ => none
  | fuel + 1, mday, y =>
    if mday > 366 then
      match incrementOverflow32 bits y 1 with
      | none => none
      | some newy =>
        time2subYearsUp mon fuel (mday - yearLengths (isleap (februaryYear y mon))) newy
    else some (mday, y)

/-- The loop over months. -/
def time2subMonths : Nat → Int → Int → Int → Option (Int × Int × Int)
  | 0, _, _, _ => none
  | fuel + 1, mday, mon, y =>
    let i := (monLengths (isleap y)).getD mon.toNat 0
    if mday ≤ i then some (mday, mon, y)
    else if mon + 1 ≥ 12 then
      match incrementOverflow32 bits y 1 with
      | none => none
      | some y => time2subMonths fuel (mday - i) 0 y
    else time2subMonths fuel (mday - i) (mon + 1) y

/-- `yourtm` in front of the search, its seconds apart. -/
def time2subNormal (tmp : BsonTm) (doNormSecs : Bool) : Option BsonTm := do
  let (min, sec) ←
    if doNormSecs then normalizeOverflow tmp.tmMin tmp.tmSec 60 else some (tmp.tmMin, tmp.tmSec)
  let (hour, min) ← normalizeOverflow tmp.tmHour min 60
  let (mday, hour) ← normalizeOverflow tmp.tmMday hour 24
  let (y, mon) ← normalizeOverflow32 bits (toIntFast32 bits tmp.tmYear) tmp.tmMon 12
  let y ← incrementOverflow32 bits y 1900
  let (mday, y) ← time2subYearsDown bits mon (mday.natAbs + 2) mday y
  let (mday, y) ← time2subYearsUp bits mon (mday.natAbs + 1) mday y
  let (mday, mon, y) ← time2subMonths bits (mday.natAbs + 1) mday mon y
  let y ← incrementOverflow32 bits y (-1900)
  some { tmSec := sec, tmMin := min, tmHour := hour, tmMday := mday, tmMon := mon, tmYear := y }

/-- `saved_seconds`, and the seconds that are searched for. -/
def time2subSeconds (yourtm : BsonTm) : Option (Int × BsonTm) :=
  if yourtm.tmSec ≥ 0 ∧ yourtm.tmSec < 60 then some (0, yourtm)
  else if yourtm.tmYear + 1900 < 1970 then
    (incrementOverflow yourtm.tmSec (1 - 60)).map fun sec => (sec, { yourtm with tmSec := 60 - 1 })
  else some (yourtm.tmSec, { yourtm with tmSec := 0 })

/-- `t` at the head of the search loop. -/
def searchMiddle (lo hi : Int) : Int :=
  let t := lo.tdiv 2 + hi.tdiv 2
  if t < lo then lo else if t > hi then hi else t

/-- `dir` -/
def searchDir (funcp : Int → Int → BsonTmDate → Except BsonTmDate BsonTmDate) (offset : Int)
    (mytm : BsonTmDate) (yourtm : BsonTm) (t : Int) : Int :=
  match funcp t offset mytm with
  | .error _ => if t > 0 then 1 else -1
  | .ok mytm => tmcomp mytm.toBsonTm yourtm

/-- The bounds behind a turn that did not find its time, and `t` between them. -/
def searchNext (dir lo hi : Int) : Option (Int × Int) :=
  let t := searchMiddle lo hi
  let bounds :=
    if t = lo then if t = int64Max then none else some (t + 1, lo + 1, hi)
    else if t = hi then if t = int64Min then none else some (t - 1, lo, hi - 1)
    else some (t, lo, hi)
  match bounds with
  | none => none
  | some (t, lo, hi) =>
    if lo > hi then none else if dir > 0 then some (lo, t) else some (t, hi)

/-- The search, in at most `fuel` turns. With `tm_isdst` 0 in both there is no right time
of the wrong type. -/
def time2subSearch (funcp : Int → Int → BsonTmDate → Except BsonTmDate BsonTmDate)
    (offset : Int) (mytm : BsonTmDate) (yourtm : BsonTm) : Nat → Int → Int → Option Int
  | 0, _, _ => none
  | fuel + 1, lo, hi =>
    let t := searchMiddle lo hi
    let dir := searchDir funcp offset mytm yourtm t
    if dir ≠ 0 then
      match searchNext dir lo hi with
      | none => none
      | some (lo, hi) => time2subSearch funcp offset mytm yourtm fuel lo hi
    else some t

/-- The result, `*okayp` and `*tmp`. `WRONG` is -1. -/
structure Time2Result where
  t : Int
  okay : Bool
  tmp : BsonTmDate

/-- The turns of the search are enough for 64-bit times. -/
def searchTurns : Nat := 67

/-- `mytm` is not initialized. -/
def time2sub (funcp : Int → Int → BsonTmDate → Except BsonTmDate BsonTmDate) (mytm : BsonTmDate)
    (tmp : BsonTmDate) (offset : Int) (doNormSecs : Bool) : Time2Result :=
  let found : Option (Int × Int) := do
    let yourtm ← time2subNormal bits tmp.toBsonTm doNormSecs
    let (savedSeconds, yourtm) ← time2subSeconds yourtm
    let t ← time2subSearch funcp offset mytm yourtm searchTurns int64Min int64Max
    some (t, savedSeconds)
  match found with
  | none => { t := -1, okay := false, tmp := tmp }
  | some (t, savedSeconds) =>
    let newt := i64 (ofInt64 (t + savedSeconds))
    if decide (newt < t) ≠ decide (savedSeconds < 0) then { t := -1, okay := false, tmp := tmp }
    else
      match funcp newt offset tmp with
      | .ok tmp => { t := newt, okay := true, tmp := tmp }
      | .error tmp => { t := newt, okay := false, tmp := tmp }

def time2 (funcp : Int → Int → BsonTmDate → Except BsonTmDate BsonTmDate) (mytm : BsonTmDate)
    (tmp : BsonTmDate) (offset : Int) : Time2Result :=
  let r := time2sub bits funcp mytm tmp offset false
  if r.okay then r else time2sub bits funcp mytm r.tmp offset true

/-- There are no transitions to try behind a time that is not okay. -/
def time1 (funcp : Int → Int → BsonTmDate → Except BsonTmDate BsonTmDate) (mytm : BsonTmDate)
    (tmp : BsonTmDate) (offset : Int) : Int × BsonTmDate :=
  let tmp := if tmp.tmIsdst > 1 then { tmp with tmIsdst := 1 } else tmp
  let r := time2 bits funcp mytm tmp offset
  if r.okay then (r.t, r.tmp) else if r.tmp.tmIsdst < 0 then (r.t, r.tmp) else (-1, r.tmp)

/-- `_bson_timegm`: the result and `*tmp`. -/
def bsonTimegm (mytm : BsonTmDate) (tmp : BsonTmDate) : Int × BsonTmDate :=
  time1 bits gmtsub mytm { tmp with tmIsdst := 0 } 0

end Time

end LibBson.Source
