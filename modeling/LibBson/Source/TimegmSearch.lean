import LibBson.Source.TimegmLaws

/-!
# The search for the second of a date

The comparison of the fields is that of the seconds, so that the search closes in on the
second of the date. An interval of `2 ^ k + 1` is halved `k` times, and then it is done in
three turns.
-/

set_option autoImplicit false

namespace LibBson.Source
open LibBson.Library

/-! ## The comparison -/

theorem tmcomp_swap (a b : BsonTm) : tmcomp a b = -tmcomp b a := by
  unfold tmcomp
  split_ifs <;> omega

theorem tmcomp_self (a : BsonTm) : tmcomp a a = 0 := by
  simp [tmcomp]

theorem tmcomp_neg {a b : BsonTm}
    (h : a.tmYear < b.tmYear ∨ a.tmYear = b.tmYear ∧ (a.tmMon < b.tmMon ∨ a.tmMon = b.tmMon ∧
      (a.tmMday < b.tmMday ∨ a.tmMday = b.tmMday ∧ a.tmHour * 3600 + a.tmMin * 60 + a.tmSec <
        b.tmHour * 3600 + b.tmMin * 60 + b.tmSec)))
    (ha : 0 ≤ a.tmMin ∧ a.tmMin < 60 ∧ 0 ≤ a.tmSec ∧ a.tmSec < 60)
    (hb : 0 ≤ b.tmMin ∧ b.tmMin < 60 ∧ 0 ≤ b.tmSec ∧ b.tmSec < 60) : tmcomp a b < 0 := by
  unfold tmcomp
  split_ifs <;> omega

theorem gmtime_clock (t : Int) :
    (0 ≤ (gmtime t).tmMin ∧ (gmtime t).tmMin < 60 ∧ 0 ≤ (gmtime t).tmSec ∧
      (gmtime t).tmSec < 60) ∧
    (gmtime t).tmHour * 3600 + (gmtime t).tmMin * 60 + (gmtime t).tmSec = t % 86400 := by
  have hhour : (gmtime t).tmHour = t / 3600 % 24 := rfl
  have hmin : (gmtime t).tmMin = t / 60 % 60 := rfl
  have hsec : (gmtime t).tmSec = t % 60 := rfl
  omega

/-- An earlier second has the smaller fields. -/
theorem tmcomp_gmtime_lt {a b : Int} (h : a < b) : tmcomp (gmtime a) (gmtime b) < 0 := by
  obtain ⟨hclock, hsum⟩ := gmtime_clock a
  obtain ⟨hclock', hsum'⟩ := gmtime_clock b
  refine tmcomp_neg ?_ hclock hclock'
  rw [hsum, hsum']
  have hyear (t : Int) : (gmtime t).tmYear = (civil (t / 86400)).1 - 1900 := rfl
  have hmon (t : Int) : (gmtime t).tmMon = ((civil (t / 86400)).2.1 : Int) - 1 := rfl
  have hmday (t : Int) : (gmtime t).tmMday = (civil (t / 86400)).2.2 := rfl
  rw [hyear, hyear, hmon, hmon, hmday, hmday]
  rcases lt_or_ge (a / 86400) (b / 86400) with hday | hday
  · have hcases := (civil_dated (a / 86400)).lt_cases (civil_dated (b / 86400)) hday
    omega
  · have hsame : a / 86400 = b / 86400 := by omega
    rw [hsame]
    omega

/-- What the search learns from a second: on which side of the date it lies. -/
structure Directs (dir : Int → Int) (target : Int) : Prop where
  before : ∀ t, t < target → dir t < 0
  at_target : dir target = 0
  behind : ∀ t, target < t → 0 < dir t

theorem year_le_of_le {s t : Int} (h : s ≤ t) :
    (civil (s / 86400)).1 ≤ (civil (t / 86400)).1 := by
  rw [(inYear_civil (t / 86400)).le_iff]
  have hstart := (inYear_civil (s / 86400)).1
  omega

theorem civil_epoch : (civil (0 / 86400)).1 = 1970 := by decide

theorem searchDir_directs (mytm : BsonTmDate) {target : Int}
    (hfits : YearFits (civil (target / 86400)).1) :
    Directs (searchDir gmtsub 0 mytm (gmtime target)) target := by
  have hdir {t : Int} (ht : YearFits (civil (t / 86400)).1) :
      searchDir gmtsub 0 mytm (gmtime target) t = tmcomp (gmtime t) (gmtime target) := by
    rw [searchDir, (gmtsub_eq t mytm).1 ht]
    rfl
  have hextreme {t : Int} (ht : ¬ YearFits (civil (t / 86400)).1) :
      searchDir gmtsub 0 mytm (gmtime target) t = if t > 0 then 1 else -1 := by
    obtain ⟨left, hleft⟩ := (gmtsub_eq t mytm).2 ht
    rw [searchDir, hleft]
  have hmin : intMin + 1900 ≤ 1970 := by decide
  have hmax : 1970 ≤ intMax := by decide
  obtain ⟨hlo, hhi⟩ := hfits
  refine ⟨fun t hlt => ?_, ?_, fun t hgt => ?_⟩
  · by_cases ht : YearFits (civil (t / 86400)).1
    · rw [hdir ht]
      exact tmcomp_gmtime_lt hlt
    · rw [hextreme ht, if_neg]
      · decide
      · intro hpos
        have hepoch := year_le_of_le (show 0 ≤ t by omega)
        have htarget := year_le_of_le (show t ≤ target by omega)
        rw [civil_epoch] at hepoch
        exact ht ⟨by omega, by omega⟩
  · rw [hdir ⟨hlo, hhi⟩, tmcomp_self]
  · by_cases ht : YearFits (civil (t / 86400)).1
    · rw [hdir ht, tmcomp_swap]
      have hlt := tmcomp_gmtime_lt hgt
      omega
    · rw [hextreme ht, if_pos]
      · decide
      · by_contra hneg
        have hepoch := year_le_of_le (show t ≤ 0 by omega)
        have htarget := year_le_of_le (show target ≤ t by omega)
        rw [civil_epoch] at hepoch
        exact ht ⟨by omega, by omega⟩

/-! ## The search -/

theorem tdiv_two (x : Int) : x ≤ 2 * x.tdiv 2 + 1 ∧ 2 * x.tdiv 2 ≤ x + 1 := by
  rcases le_total 0 x with h | h
  · rw [tdiv_of_nonneg 2 h]
    omega
  · rw [tdiv_of_nonpos 2 h]
    omega

/-- The middle lies in the interval, and neither half is much longer than the other. -/
theorem searchMiddle_bounds {lo hi : Int} (h : lo ≤ hi) :
    lo ≤ searchMiddle lo hi ∧ searchMiddle lo hi ≤ hi ∧
      2 * (searchMiddle lo hi - lo) ≤ hi - lo + 2 ∧ 2 * (hi - searchMiddle lo hi) ≤ hi - lo + 2 := by
  have hlo := tdiv_two lo
  have hhi := tdiv_two hi
  unfold searchMiddle
  dsimp only
  split_ifs <;> omega

/-- A turn that misses keeps the target between the bounds and halves the interval. -/
theorem searchNext_narrows {dir lo hi target : Int} (hlo : lo ≤ target) (hhi : target ≤ hi)
    (hmin : int64Min ≤ lo) (hmax : hi ≤ int64Max)
    (hbefore : searchMiddle lo hi < target → dir < 0)
    (hbehind : target < searchMiddle lo hi → 0 < dir) (hmiss : searchMiddle lo hi ≠ target) :
    ∃ lo' hi', searchNext dir lo hi = some (lo', hi') ∧ lo' ≤ target ∧ target ≤ hi' ∧
      lo ≤ lo' ∧ hi' ≤ hi ∧ hi' - lo' < hi - lo ∧ 2 * (hi' - lo') ≤ hi - lo + 2 := by
  obtain ⟨h1, h2, h3, h4⟩ := searchMiddle_bounds (hlo.trans hhi)
  unfold searchNext
  dsimp only
  generalize searchMiddle lo hi = t at *
  rcases lt_or_gt_of_ne hmiss with hlt | hgt
  · have hdir := hbefore hlt
    by_cases hleft : t = lo
    · rw [if_pos hleft, if_neg (by omega)]
      dsimp only
      rw [if_neg (by omega), if_neg (by omega)]
      exact ⟨t + 1, hi, rfl, by omega, hhi, by omega, by omega, by omega, by omega⟩
    · rw [if_neg hleft, if_neg (by omega)]
      dsimp only
      rw [if_neg (by omega), if_neg (by omega)]
      exact ⟨t, hi, rfl, by omega, hhi, by omega, by omega, by omega, by omega⟩
  · have hdir := hbehind hgt
    by_cases hright : t = hi
    · rw [if_neg (by omega), if_pos hright, if_neg (by omega)]
      dsimp only
      rw [if_neg (by omega), if_pos hdir]
      exact ⟨lo, t - 1, rfl, hlo, by omega, by omega, by omega, by omega, by omega⟩
    · rw [if_neg (by omega), if_neg hright]
      dsimp only
      rw [if_neg (by omega), if_pos hdir]
      exact ⟨lo, t, rfl, hlo, by omega, by omega, by omega, by omega, by omega⟩

section Search

variable {funcp : Int → Int → BsonTmDate → Except BsonTmDate BsonTmDate} {offset target : Int}
  {mytm : BsonTmDate} {yourtm : BsonTm}

/-- One turn: the target, or a shorter interval around it. -/
theorem time2subSearch_turn (hdir : Directs (searchDir funcp offset mytm yourtm) target)
    {lo hi : Int} (hlo : lo ≤ target) (hhi : target ≤ hi) (hmin : int64Min ≤ lo)
    (hmax : hi ≤ int64Max) (fuel : Nat) :
    time2subSearch funcp offset mytm yourtm (fuel + 1) lo hi = some target ∨
      ∃ lo' hi', time2subSearch funcp offset mytm yourtm (fuel + 1) lo hi =
          time2subSearch funcp offset mytm yourtm fuel lo' hi' ∧
        lo' ≤ target ∧ target ≤ hi' ∧ int64Min ≤ lo' ∧ hi' ≤ int64Max ∧
        hi' - lo' < hi - lo ∧ 2 * (hi' - lo') ≤ hi - lo + 2 := by
  rw [time2subSearch]
  by_cases hfound : searchMiddle lo hi = target
  · left
    rw [hfound, if_neg (by simp [hdir.at_target])]
  · right
    have hmissed : searchDir funcp offset mytm yourtm (searchMiddle lo hi) ≠ 0 := by
      rcases lt_or_gt_of_ne hfound with hlt | hgt
      · have hneg := hdir.before _ hlt
        omega
      · have hpos := hdir.behind _ hgt
        omega
    obtain ⟨lo', hi', hnext, h1, h2, h3, h4, h5, h6⟩ := searchNext_narrows hlo hhi hmin hmax
      (hdir.before _) (hdir.behind _) hfound
    refine ⟨lo', hi', ?_, h1, h2, by omega, by omega, h5, h6⟩
    rw [if_pos hmissed, hnext]

/-- The interval is not left without the target, so turns for its length are enough. -/
theorem time2subSearch_short (hdir : Directs (searchDir funcp offset mytm yourtm) target)
    (fuel : Nat) {lo hi : Int} (hlo : lo ≤ target) (hhi : target ≤ hi) (hmin : int64Min ≤ lo)
    (hmax : hi ≤ int64Max) (hfuel : hi - lo < fuel) :
    time2subSearch funcp offset mytm yourtm fuel lo hi = some target := by
  induction fuel generalizing lo hi with
  | zero => omega
  | succ fuel ih =>
    rcases time2subSearch_turn hdir hlo hhi hmin hmax fuel with
      hfound | ⟨lo', hi', hturn, h1, h2, h3, h4, h5, -⟩
    · exact hfound
    · rw [hturn]
      exact ih h1 h2 h3 h4 (by omega)

theorem time2subSearch_finds (hdir : Directs (searchDir funcp offset mytm yourtm) target)
    (k : Nat) {lo hi : Int} (hlo : lo ≤ target) (hhi : target ≤ hi) (hmin : int64Min ≤ lo)
    (hmax : hi ≤ int64Max) (hlength : hi - lo ≤ 2 ^ k + 1) :
    time2subSearch funcp offset mytm yourtm (k + 3) lo hi = some target := by
  induction k generalizing lo hi with
  | zero => exact time2subSearch_short hdir 3 hlo hhi hmin hmax (by omega)
  | succ k ih =>
    rcases time2subSearch_turn hdir hlo hhi hmin hmax (k + 3) with
      hfound | ⟨lo', hi', hturn, h1, h2, h3, h4, -, h6⟩
    · rwa [Nat.add_right_comm]
    · rw [Nat.add_right_comm, hturn]
      refine ih h1 h2 h3 h4 ?_
      rw [pow_succ] at hlength
      omega

theorem time2subSearch_all (hdir : Directs (searchDir funcp offset mytm yourtm) target)
    (hmin : int64Min ≤ target) (hmax : target ≤ int64Max) :
    time2subSearch funcp offset mytm yourtm searchTurns int64Min int64Max = some target :=
  time2subSearch_finds hdir 64 hmin hmax (le_refl _) (le_refl _) (by decide)

end Search

/-! ## The normal form of a date -/

theorem tensDelta_eq (units : Int) {base : Int} (hbase : base = 60 ∨ base = 24 ∨ base = 12) :
    tensDelta units base = units / base := by
  unfold tensDelta
  split
  · rename_i h
    exact tdiv_of_nonneg base h
  · rename_i h
    rw [tdiv_of_nonneg base (by omega)]
    rcases hbase with rfl | rfl | rfl <;> omega

theorem normalizeOverflow_some {tens units base : Int} (hbase : base = 60 ∨ base = 24 ∨ base = 12)
    (lo : intMin ≤ tens + units / base) (hi : tens + units / base ≤ intMax) :
    normalizeOverflow tens units base = some (tens + units / base, units % base) := by
  rw [normalizeOverflow, tensDelta_eq units hbase, incrementOverflow_some lo hi, Option.map_some]
  congr 2
  rcases hbase with rfl | rfl | rfl <;> omega

/-- The day of the fields is the same a year on, and the year ahead is the one of the
next February. -/
theorem dayNumber_years (y mday : Int) {mon : Nat} (hmon : mon < 12) :
    dayNumber (y + 1) (mon + 1) mday =
      dayNumber y (mon + 1) (mday + yearLengths (isleap (februaryYear y mon))) := by
  have hyear := dayNumber_year y mday (m := mon + 1) (by omega) (by omega)
  have hfebruary : (februaryYear y mon) = y + if 2 < mon + 1 then 1 else 0 := by
    unfold februaryYear
    split_ifs <;> omega
  rw [hyear, hfebruary, dayNumber_add, yearLengths_isleap]

section Fast

variable {bits : Nat} (hbits : 32 ≤ bits)

include hbits

/-- `int_fast32_t` has 32 bits at least. -/
theorem intFast32_wide : (2147483648 : Int) ≤ 2 ^ (bits - 1) := by
  have hpow : 2 ^ 31 ≤ 2 ^ (bits - 1) := Nat.pow_le_pow_right (by decide) (by omega)
  exact_mod_cast hpow

theorem incrementOverflow32_some {l m : Int} (lo : intMin ≤ l + m) (hi : l + m ≤ intMax) :
    incrementOverflow32 bits l m = some (l + m) := by
  have hwide := intFast32_wide hbits
  unfold intMin at lo
  unfold intMax at hi
  rw [incrementOverflow32, intFast32Max, intFast32Min, if_neg]
  split_ifs <;> omega

theorem toIntFast32_eq {x : Int} (lo : intMin ≤ x) (hi : x ≤ intMax) :
    toIntFast32 bits x = x := by
  have hwide := intFast32_wide hbits
  unfold intMin at lo
  unfold intMax at hi
  have hdouble : (2 : Int) ^ bits = 2 * 2 ^ (bits - 1) := by
    obtain ⟨k, rfl⟩ : ∃ k, bits = k + 1 := ⟨bits - 1, by omega⟩
    rw [Nat.add_sub_cancel, pow_succ, Int.mul_comm]
  rw [toIntFast32, hdouble, Int.emod_eq_of_lt (by omega) (by omega)]
  omega

theorem normalizeOverflow32_some {tens units : Int} (lo : intMin ≤ tens + units / 12)
    (hi : tens + units / 12 ≤ intMax) :
    normalizeOverflow32 bits tens units 12 = some (tens + units / 12, units % 12) := by
  rw [normalizeOverflow32, tensDelta_eq units (Or.inr (Or.inr rfl)),
    incrementOverflow32_some hbits lo hi, Option.map_some]
  congr 2
  omega

theorem time2subYearsDown_spec (fuel : Nat) {mon : Nat} (hmon : mon < 12) (mday y : Int)
    (h0 : 0 < fuel) (hfuel : mday ≤ 0 → mday.natAbs + 1 < fuel)
    (hmin : mday ≤ 0 → intMin ≤ y - -mday / 365 - 1)
    (hmax : y ≤ intMax) :
    ∃ mday' y', time2subYearsDown bits mon fuel mday y = some (mday', y') ∧
      dayNumber y' (mon + 1) mday' = dayNumber y (mon + 1) mday ∧ 0 < mday' ∧
      (mday' = mday ∨ mday' ≤ 366) ∧ y' ≤ y ∧ (y' = y ∨ y - -mday / 365 - 1 ≤ y') := by
  induction fuel generalizing mday y with
  | zero => omega
  | succ fuel ih =>
    rw [time2subYearsDown]
    split
    · rename_i hneg
      have hlength := yearLength_bounds (februaryYear (y - 1) mon)
      have hyear := dayNumber_years (y - 1) mday hmon
      rw [yearLengths_isleap, Int.sub_add_cancel] at hyear
      rw [incrementOverflow32_some hbits (by omega) (by omega), ← Int.sub_eq_add_neg]
      dsimp only
      rw [yearLengths_isleap]
      obtain ⟨mday', y', hrun, hday, hpos, hshort, hle, hfar⟩ := ih
        (mday + yearLength (februaryYear (y - 1) mon)) (y - 1) (by omega)
        (fun h => by omega) (fun h => by omega) (by omega)
      exact ⟨mday', y', hrun, hday.trans hyear.symm, hpos, by omega, by omega, by omega⟩
    · rename_i hpos
      exact ⟨mday, y, rfl, rfl, by omega, Or.inl rfl, le_refl _, Or.inl rfl⟩

theorem time2subYearsUp_spec (fuel : Nat) {mon : Nat} (hmon : mon < 12) (mday y : Int)
    (hpos : 0 < mday) (hfuel : mday.natAbs < fuel) (hmin : intMin ≤ y)
    (hmax : mday / 365 + y + 1 ≤ intMax) :
    ∃ mday' y', time2subYearsUp bits mon fuel mday y = some (mday', y') ∧
      dayNumber y' (mon + 1) mday' = dayNumber y (mon + 1) mday ∧ 0 < mday' ∧ mday' ≤ 366 ∧
      y ≤ y' ∧ y' ≤ mday / 365 + y + 1 := by
  induction fuel generalizing mday y with
  | zero => omega
  | succ fuel ih =>
    rw [time2subYearsUp]
    split
    · rename_i hlong
      have hlength := yearLength_bounds (februaryYear y mon)
      have hyear := dayNumber_years y (mday - yearLength (februaryYear y mon)) hmon
      rw [yearLengths_isleap, Int.sub_add_cancel] at hyear
      rw [incrementOverflow32_some hbits (by omega) (by omega)]
      dsimp only
      rw [yearLengths_isleap]
      obtain ⟨mday', y', hrun, hday, hpos', hshort, hle, hfar⟩ := ih
        (mday - yearLength (februaryYear y mon)) (y + 1) (by omega) (by omega)
        (by omega) (by omega)
      exact ⟨mday', y', hrun, hday.trans hyear, hpos', hshort, by omega, by omega⟩
    · rename_i hshort
      exact ⟨mday, y, rfl, rfl, hpos, by omega, le_refl _, by omega⟩

/-- The loop over months ends with the date of the day. -/
theorem time2subMonths_spec (fuel mon : Nat) (hmon : mon < 12) (mday y : Int)
    (hpos : 0 < mday) (hfuel : mday.natAbs < fuel) (hmin : intMin ≤ y) (hmax : y + mday ≤ intMax) :
    ∃ (mon' : Nat) (mday' y' : Int), time2subMonths bits fuel mday mon y =
        some (mday', (mon' : Int), y') ∧
      Dated (dayNumber y (mon + 1) mday) y' (mon' + 1) mday' ∧ y ≤ y' ∧ y' ≤ y + mday := by
  induction fuel generalizing mon mday y with
  | zero => omega
  | succ fuel ih =>
    have hget := monLengths_isleap y hmon
    have hlength := monthLength_bounds y (mon + 1)
    have hi : (monLengths (isleap y)).getD ((mon : Int)).toNat 0 = monthLength y (mon + 1) := by
      rw [Int.toNat_natCast, List.getD_eq_getElem?_getD, hget, Option.getD_some]
    rw [time2subMonths, hi]
    split
    · exact ⟨mon, mday, y, rfl, ⟨⟨by omega, by omega⟩, ⟨by omega, by omega⟩, rfl⟩, le_refl _,
        by omega⟩
    · rename_i hlong
      have hback := Int.sub_add_cancel mday (monthLength y (mon + 1))
      split
      · rename_i hlast
        obtain rfl : mon = 11 := by omega
        have hdecember : monthLength y (11 + 1) = monthLength y 12 := rfl
        rw [incrementOverflow32_some hbits (by omega) (by omega)]
        obtain ⟨mon', mday', y', hrun, hdated, hle, hfar⟩ := ih 0 (by decide)
          (mday - monthLength y 12) (y + 1) (by omega) (by omega) (by omega) (by omega)
        rw [Nat.zero_add, dayNumber_december, hback] at hdated
        exact ⟨mon', mday', y', hrun, hdated, by omega, by omega⟩
      · obtain ⟨mon', mday', y', hrun, hdated, hle, hfar⟩ := ih (mon + 1) (by omega)
          (mday - monthLength y (mon + 1)) y (by omega) (by omega) (by omega) (by omega)
        rw [dayNumber_month, hback] at hdated
        exact ⟨mon', mday', y', hrun, hdated, by omega, by omega⟩

end Fast

/-- The seconds of a date since 1970, whatever its fields: minutes above 59, months below
zero and the like count on. -/
def tmSeconds (tm : BsonTm) : Int :=
  dayNumber (tm.tmYear + 1900 + tm.tmMon / 12) ((tm.tmMon % 12).toNat + 1) tm.tmMday * 86400 +
    tm.tmHour * 3600 + tm.tmMin * 60 + tm.tmSec

/-- No field is beyond `2 ^ 30`. -/
structure TmSmall (tm : BsonTm) : Prop where
  sec : -1073741824 ≤ tm.tmSec ∧ tm.tmSec ≤ 1073741824
  min : -1073741824 ≤ tm.tmMin ∧ tm.tmMin ≤ 1073741824
  hour : -1073741824 ≤ tm.tmHour ∧ tm.tmHour ≤ 1073741824
  mday : -1073741824 ≤ tm.tmMday ∧ tm.tmMday ≤ 1073741824
  mon : -1073741824 ≤ tm.tmMon ∧ tm.tmMon ≤ 1073741824
  year : -1073741824 ≤ tm.tmYear ∧ tm.tmYear ≤ 1073741824

/-- A date in its normal form, but for the seconds. -/
structure TmNormal (tm : BsonTm) (day : Int) (mon : Nat) : Prop where
  min : 0 ≤ tm.tmMin ∧ tm.tmMin < 60
  hour : 0 ≤ tm.tmHour ∧ tm.tmHour < 24
  month : tm.tmMon = mon
  dated : Dated day (tm.tmYear + 1900) (mon + 1) tm.tmMday
  year : -1200000000 ≤ tm.tmYear ∧ tm.tmYear ≤ 1200000000

theorem time2subNormal_spec {bits : Nat} (hbits : 32 ≤ bits) {tm : BsonTm} (h : TmSmall tm) :
    ∃ (n : BsonTm) (day : Int) (mon : Nat), time2subNormal bits tm false = some n ∧
      TmNormal n day mon ∧ n.tmSec = tm.tmSec ∧
      day * 86400 + n.tmHour * 3600 + n.tmMin * 60 + n.tmSec = tmSeconds tm := by
  obtain ⟨hsec, hmin, hhour, hmday, hmon, hyear⟩ := h
  have himin : intMin = -2147483648 := rfl
  have himax : intMax = 2147483647 := rfl
  unfold time2subNormal
  simp only [Bool.false_eq_true, if_false, Option.bind_eq_bind, Option.bind_some]
  rw [normalizeOverflow_some (Or.inl rfl) (by omega) (by omega), Option.bind_some]
  dsimp only
  rw [normalizeOverflow_some (Or.inr (Or.inl rfl)) (by omega) (by omega), Option.bind_some]
  dsimp only
  rw [toIntFast32_eq hbits (by omega) (by omega),
    normalizeOverflow32_some hbits (by omega) (by omega), Option.bind_some]
  dsimp only
  rw [incrementOverflow32_some hbits (by omega) (by omega), Option.bind_some]
  obtain ⟨m, hm⟩ := Int.eq_ofNat_of_zero_le (show 0 ≤ tm.tmMon % 12 by omega)
  obtain ⟨hour, hhours⟩ : ∃ hour, hour = tm.tmHour + tm.tmMin / 60 := ⟨_, rfl⟩
  obtain ⟨y, hy⟩ : ∃ y, y = tm.tmYear + tm.tmMon / 12 + 1900 := ⟨_, rfl⟩
  rw [hm, ← hhours, ← hy]
  obtain ⟨d1, y1, hrun1, hday1, hpos1, hshort1, hle1, hfar1⟩ := time2subYearsDown_spec hbits
    ((tm.tmMday + hour / 24).natAbs + 2) (show m < 12 by omega) (tm.tmMday + hour / 24)
    y (by omega) (by omega) (by omega) (by omega)
  rw [hrun1, Option.bind_some]
  dsimp only
  obtain ⟨d2, y2, hrun2, hday2, hpos2, hshort2, hle2, hfar2⟩ := time2subYearsUp_spec hbits
    (d1.natAbs + 1) (show m < 12 by omega) d1 y1 hpos1 (by omega) (by omega)
    (by omega)
  rw [hrun2, Option.bind_some]
  dsimp only
  obtain ⟨m3, d3, y3, hrun3, hdated, hle3, hfar3⟩ := time2subMonths_spec hbits
    (d2.natAbs + 1) m (by omega) d2 y2 hpos2 (by omega) (by omega)
    (by omega)
  rw [hrun3, Option.bind_some]
  dsimp only
  rw [incrementOverflow32_some hbits (by omega) (by omega), Option.bind_some]
  rw [hday2, hday1] at hdated
  have hyear' : tm.tmYear + 1900 + tm.tmMon / 12 = y := by omega
  refine ⟨_, dayNumber y (m + 1) (tm.tmMday + hour / 24), m3, rfl,
    ⟨⟨Int.emod_nonneg _ (by decide), Int.emod_lt_of_pos _ (by decide)⟩,
    ⟨Int.emod_nonneg _ (by decide), Int.emod_lt_of_pos _ (by decide)⟩, rfl, ?_, ?_⟩, rfl, ?_⟩
  · rwa [Int.neg_add_cancel_right]
  · dsimp only
    omega
  · rw [dayNumber_add, tmSeconds, hm, Int.toNat_natCast, hyear']
    dsimp only
    omega

/-- A date in its normal form is the one of its second. -/
theorem TmNormal.gmtime_eq {tm : BsonTm} {day : Int} {mon : Nat} (h : TmNormal tm day mon)
    (hsec : 0 ≤ tm.tmSec ∧ tm.tmSec < 60) {t : Int}
    (ht : day * 86400 + tm.tmHour * 3600 + tm.tmMin * 60 + tm.tmSec = t) : gmtime t = tm := by
  obtain ⟨hmin, hhour, hmon, hdated, -⟩ := h
  have hday : t / 86400 = day := by omega
  have hcivil := hdated.civil_eq
  rw [← hday] at hcivil
  cases tm
  simp only [gmtime, hcivil, BsonTm.mk.injEq] at *
  refine ⟨by omega, by omega, by omega, trivial, by omega, by omega⟩

/-- The seconds of the date are taken apart, so that the rest is in its normal form. -/
theorem time2subSeconds_spec {n : BsonTm} {day : Int} {mon : Nat} (h : TmNormal n day mon)
    (hsec : -1073741824 ≤ n.tmSec ∧ n.tmSec ≤ 1073741824) :
    ∃ (saved : Int) (n' : BsonTm), time2subSeconds n = some (saved, n') ∧ TmNormal n' day mon ∧
      (0 ≤ n'.tmSec ∧ n'.tmSec < 60) ∧ n'.tmSec + saved = n.tmSec ∧ n'.tmYear = n.tmYear ∧
      n'.tmHour = n.tmHour ∧ n'.tmMin = n.tmMin := by
  obtain ⟨hmin, hhour, hmon, hdated, hyear⟩ := h
  have himin : intMin = -2147483648 := rfl
  have himax : intMax = 2147483647 := rfl
  unfold time2subSeconds
  split
  · rename_i hnormal
    exact ⟨0, n, rfl, ⟨hmin, hhour, hmon, hdated, hyear⟩, by omega, by omega, rfl, rfl, rfl⟩
  · split
    · rw [incrementOverflow_some (by omega) (by omega)]
      refine ⟨n.tmSec + (1 - 60), { n with tmSec := 60 - 1 }, rfl,
        ⟨hmin, hhour, hmon, hdated, hyear⟩, ⟨by simp, by simp⟩, ?_, rfl, rfl, rfl⟩
      dsimp only
      omega
    · refine ⟨n.tmSec, { n with tmSec := 0 }, rfl, ⟨hmin, hhour, hmon, hdated, hyear⟩,
        ⟨by simp, by simp⟩, ?_, rfl, rfl, rfl⟩
      dsimp only
      omega

/-! ## The seconds of a date -/

/-- The first and the last day whose year fits. -/
theorem yearFits_iff (day : Int) :
    YearFits (civil day).1 ↔
      daysBeforeYear (intMin + 1900) ≤ day ∧ day < daysBeforeYear (intMax + 1) := by
  have hyear := inYear_civil day
  have hlast := hyear.le_iff (intMax + 1)
  rw [YearFits, ← hyear.le_iff]
  omega

theorem yearFits_of_normal {n : BsonTm} {day : Int} {mon : Nat} (h : TmNormal n day mon)
    {t : Int} (hlo : (day - 20000) * 86400 ≤ t) (hhi : t ≤ (day + 20000) * 86400) :
    YearFits (civil (t / 86400)).1 ∧ int64Min ≤ t ∧ t ≤ int64Max := by
  obtain ⟨hstart, hend⟩ := h.dated.in_year
  have hyear := h.year
  have hlow := daysBeforeYear_mono (show -1200000000 + 1900 ≤ n.tmYear + 1900 by omega)
  have hhigh := daysBeforeYear_mono (show n.tmYear + 1900 + 1 ≤ 1200000000 + 1900 + 1 by omega)
  have h1 : daysBeforeYear (-1200000000 + 1900) = -438291025567 := by decide
  have h2 : daysBeforeYear (1200000000 + 1900 + 1) = 438290974798 := by decide
  have h3 : daysBeforeYear (intMin + 1900) = -784352321872 := by decide
  have h4 : daysBeforeYear (intMax + 1) = 784351576777 := by decide
  rw [yearFits_iff, int64Min, int64Max]
  omega

/-- `time2sub` gives the seconds of the date, and the date in its normal form. -/
theorem time2sub_eq {bits : Nat} (hbits : 32 ≤ bits) (mytm : BsonTmDate) {tmp : BsonTmDate}
    (h : TmSmall tmp.toBsonTm) :
    time2sub bits gmtsub mytm tmp 0 false =
      { t := tmSeconds tmp.toBsonTm, okay := true, tmp := gmDate (tmSeconds tmp.toBsonTm) } := by
  obtain ⟨n, day, mon, hnormal, hn, hsec, hseconds⟩ := time2subNormal_spec hbits h
  have hsmall := h.sec
  obtain ⟨saved, n', hsaved, hn', hsec', hsum, -, hhour', hmin'⟩ :=
    time2subSeconds_spec hn (by omega)
  have hhour := hn.hour
  have hmin := hn.min
  obtain ⟨target, htarget⟩ : ∃ target,
      day * 86400 + n'.tmHour * 3600 + n'.tmMin * 60 + n'.tmSec = target := ⟨_, rfl⟩
  obtain ⟨hfits, hlo, hhi⟩ := yearFits_of_normal hn (t := target) (by omega) (by omega)
  obtain ⟨hfits', hlo', hhi'⟩ := yearFits_of_normal hn (t := tmSeconds tmp.toBsonTm) (by omega)
    (by omega)
  have hfound := time2subSearch_all (searchDir_directs mytm hfits) hlo hhi
  rw [hn'.gmtime_eq hsec' htarget] at hfound
  have hresult : target + saved = tmSeconds tmp.toBsonTm := by omega
  have hwrap : i64 (ofInt64 (target + saved)) = tmSeconds tmp.toBsonTm := by
    unfold int64Min at hlo'
    unfold int64Max at hhi'
    rw [hresult, i64_ofInt64 hlo' (by omega)]
  have hcheck : ¬ decide (tmSeconds tmp.toBsonTm < target) ≠ decide (saved < 0) := by
    rw [not_not, decide_eq_decide]
    omega
  simp only [time2sub, hnormal, hsaved, hfound, hwrap, Option.bind_eq_bind, Option.bind_some]
  rw [if_neg hcheck, (gmtsub_eq _ tmp).1 hfits']

/-- `_bson_timegm` of any date without a field beyond `2 ^ 30`. -/
theorem bsonTimegm_eq {bits : Nat} (hbits : 32 ≤ bits) (mytm : BsonTmDate) {tmp : BsonTmDate}
    (h : TmSmall tmp.toBsonTm) :
    bsonTimegm bits mytm tmp =
      (tmSeconds tmp.toBsonTm, gmDate (tmSeconds tmp.toBsonTm)) := by
  have hfirst := time2sub_eq hbits mytm (show TmSmall { tmp with tmIsdst := 0 }.toBsonTm from h)
  rw [bsonTimegm, time1]
  dsimp only
  rw [if_neg (by decide : ¬ (0 : Int) > 1), time2, hfirst]
  rfl

end LibBson.Source
