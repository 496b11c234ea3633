import LibBson.Library.CalendarOrder
import LibBson.Source.Timegm

/-!
# The date of a second

The loop over years of `timesub` never passes the year it looks for, and the fields it
ends with are the date of the calendar.
-/

set_option autoImplicit false

namespace LibBson.Source
open LibBson.Library

/-! ## Truncating division -/

theorem tdiv_of_nonneg {x : Int} (n : Int) (h : 0 ≤ x) : x.tdiv n = x / n :=
  Int.tdiv_eq_ediv_of_nonneg h

theorem tdiv_of_nonpos {x : Int} (n : Int) (h : x ≤ 0) : x.tdiv n = -(-x / n) := by
  rw [← tdiv_of_nonneg n (by omega : 0 ≤ -x), Int.neg_tdiv, Int.neg_neg]

theorem tmod_eq_zero_iff (x n : Int) : x.tmod n = 0 ↔ x % n = 0 := by
  rw [← Int.dvd_iff_tmod_eq_zero, Int.dvd_iff_emod_eq_zero]

/-! ## Years -/

theorem isleap_iff (y : Int) : isleap y = true ↔ leapYear y := by
  simp [isleap, leapYear, tmod_eq_zero_iff]

theorem yearLengths_isleap (y : Int) : yearLengths (isleap y) = yearLength y := by
  by_cases h : leapYear y
  · rw [(isleap_iff y).mpr h, yearLength, if_pos h]
    rfl
  · rw [Bool.eq_false_iff.mpr fun hleap => h ((isleap_iff y).mp hleap), yearLength, if_neg h]
    rfl

theorem monLengths_isleap (y : Int) {mon : Nat} (h : mon < 12) :
    (monLengths (isleap y))[mon]? = some (monthLength y (mon + 1)) := by
  by_cases hleap : leapYear y
  · rw [(isleap_iff y).mpr hleap]
    interval_cases mon <;> simp [monLengths, monthLength, hleap]
  · rw [Bool.eq_false_iff.mpr fun hl => hleap ((isleap_iff y).mp hl)]
    interval_cases mon <;> simp [monLengths, monthLength, hleap]

/-- The leap years up to a year, as the calendar counts them. -/
theorem leapsThruEndOf_eq (y : Int) : leapsThruEndOf y = y / 4 - y / 100 + y / 400 := by
  unfold leapsThruEndOf
  split
  · rename_i h
    simp only [tdiv_of_nonneg _ h]
  · simp only [tdiv_of_nonneg _ (by omega : 0 ≤ -(y + 1))]
    omega

theorem daysBeforeYear_leaps (y newy : Int) :
    daysBeforeYear newy = daysBeforeYear y + (newy - y) * 365 +
      (leapsThruEndOf (newy - 1) - leapsThruEndOf (y - 1)) := by
  rw [leapsThruEndOf_eq, leapsThruEndOf_eq]
  unfold daysBeforeYear
  omega

theorem incrementOverflow_nonneg {i : Int} (j : Int) (h : 0 ≤ i) :
    incrementOverflow i j = if j > intMax - i then none else some (i + j) := by
  simp only [incrementOverflow, ge_iff_le, if_pos h]

theorem incrementOverflow_neg {i : Int} (j : Int) (h : i < 0) :
    incrementOverflow i j = if j < intMin - i then none else some (i + j) := by
  simp only [incrementOverflow, ge_iff_le, if_neg (Int.not_le.mpr h)]

theorem incrementOverflow_some {i j : Int} (lo : intMin ≤ i + j) (hi : i + j ≤ intMax) :
    incrementOverflow i j = some (i + j) := by
  rcases lt_or_ge i 0 with h | h
  · rw [incrementOverflow_neg j h, if_neg (by omega)]
  · rw [incrementOverflow_nonneg j h, if_neg (by omega)]

/-- Of a number that is not negative only the upper bound is checked, of another one
only the lower. -/
theorem incrementOverflow_eq_some {i j k : Int} (h : incrementOverflow i j = some k) :
    k = i + j ∧ (0 ≤ i → k ≤ intMax) ∧ (i < 0 → intMin ≤ k) := by
  rcases lt_or_ge i 0 with hi | hi
  · rw [incrementOverflow_neg j hi] at h
    split at h
    · cases h
    · cases h
      exact ⟨rfl, by omega, by omega⟩
  · rw [incrementOverflow_nonneg j hi] at h
    split at h
    · cases h
    · cases h
      exact ⟨rfl, by omega, by omega⟩

/-! ## The loop over years -/

/-- `idelta` of the loop over years. -/
def yearDelta (tdays : Int) : Int :=
  if tdays.tdiv 366 = 0 then if tdays < 0 then -1 else 1 else tdays.tdiv 366

/-- In front of the year of a day, the step goes towards it and not past it. -/
theorem yearDelta_up {day year y : Int} (hyear : InYear day year)
    (hlong : yearLength y ≤ day - daysBeforeYear y) :
    y < y + yearDelta (day - daysBeforeYear y) ∧
      y + yearDelta (day - daysBeforeYear y) ≤ year := by
  have hbounds := yearLength_bounds y
  unfold yearDelta
  rw [tdiv_of_nonneg 366 (by omega), hyear.le_iff]
  split
  · rw [if_neg (by omega), daysBeforeYear_next]
    omega
  · obtain ⟨k, hk⟩ := Int.eq_ofNat_of_zero_le
      (show 0 ≤ (day - daysBeforeYear y) / 366 by omega)
    have hyears := (daysBeforeYear_bounds y k).2
    rw [hk]
    omega

/-- Behind it, the step goes back towards it. -/
theorem yearDelta_down {day year y : Int} (hyear : InYear day year)
    (hneg : day - daysBeforeYear y < 0) :
    year ≤ y + yearDelta (day - daysBeforeYear y) ∧
      y + yearDelta (day - daysBeforeYear y) < y := by
  have hbefore : year < y := by
    by_contra hle
    have hday := (hyear.le_iff y).mp (by omega)
    omega
  unfold yearDelta
  rw [tdiv_of_nonpos 366 (by omega)]
  split_ifs
  · omega
  · obtain ⟨k, hk⟩ : ∃ k : Nat, -(day - daysBeforeYear y) / 366 = (k : Int) + 1 :=
      ⟨(-(day - daysBeforeYear y) / 366 - 1).toNat, by omega⟩
    rw [hk]
    refine ⟨?_, by omega⟩
    by_contra hpast
    -- the year behind the new one is still behind the day
    have hyears := (daysBeforeYear_bounds (y - k) k).2
    have hday := (hyear.le_iff (y - k)).mp (by omega)
    rw [Int.sub_add_cancel] at hyears
    omega

/-- What a run of the loop ends with. -/
structure YearsEnd (day year : Int) (r : Option (Int × Int)) : Prop where
  /-- In the range of `int` the loop ends with the year of the day. -/
  found : intMin ≤ year → year ≤ intMax → r = some (day - daysBeforeYear year, year)
  /-- It ends with no other one. -/
  only : ∀ end', r = some end' → end' = (day - daysBeforeYear year, year) ∧ year ≤ intMax

/-- A turn of the loop, in terms of the day that it keeps. -/
theorem timesubYears_succ (day y : Int) (fuel : Nat) :
    timesubYears (fuel + 1) (day - daysBeforeYear y) y =
      if day - daysBeforeYear y < 0 ∨ yearLength y ≤ day - daysBeforeYear y then
        (incrementOverflow y (yearDelta (day - daysBeforeYear y))).bind fun newy =>
          timesubYears fuel (day - daysBeforeYear newy) newy
      else some (day - daysBeforeYear y, y) := by
  have hnext (newy : Int) : day - daysBeforeYear y - (newy - y) * 365 -
      (leapsThruEndOf (newy - 1) - leapsThruEndOf (y - 1)) = day - daysBeforeYear newy := by
    rw [daysBeforeYear_leaps y newy]
    omega
  simp only [timesubYears, hnext, yearLengths_isleap, ge_iff_le]
  rw [yearDelta]
  cases incrementOverflow y _ <;> rfl

theorem timesubYears_year {day year : Int} (hyear : InYear day year) (fuel : Nat) :
    timesubYears (fuel + 1) (day - daysBeforeYear year) year =
      some (day - daysBeforeYear year, year) := by
  obtain ⟨hlo, hhi⟩ := hyear
  rw [daysBeforeYear_next] at hhi
  rw [timesubYears_succ, if_neg (by omega)]

/-- From a year that is not the one of the day, the step leads nearer to it. -/
theorem yearDelta_nearer {day year y : Int} (hyear : InYear day year) (hne : y ≠ year) :
    (day - daysBeforeYear y < 0 ∨ yearLength y ≤ day - daysBeforeYear y) ∧
      (day - daysBeforeYear y < 0 → year ≤ y + yearDelta (day - daysBeforeYear y) ∧
        y + yearDelta (day - daysBeforeYear y) < y) ∧
      (0 ≤ day - daysBeforeYear y → y < year ∧ y < y + yearDelta (day - daysBeforeYear y) ∧
        y + yearDelta (day - daysBeforeYear y) ≤ year) ∧
      (y + yearDelta (day - daysBeforeYear y) = year ∨
        (day - daysBeforeYear (y + yearDelta (day - daysBeforeYear y))).natAbs <
          (day - daysBeforeYear y).natAbs) := by
  have hout : day - daysBeforeYear y < 0 ∨ yearLength y ≤ day - daysBeforeYear y := by
    by_contra hin
    refine hne (InYear.unique ⟨by omega, ?_⟩ hyear)
    rw [daysBeforeYear_next]
    omega
  have hlength := yearLength_bounds y
  refine ⟨hout, yearDelta_down hyear, fun h0 => ?_, ?_⟩
  · have hlong : yearLength y ≤ day - daysBeforeYear y := by omega
    obtain ⟨hup, hle⟩ := yearDelta_up hyear hlong
    exact ⟨by omega, hup, hle⟩
  · generalize hnew : y + yearDelta (day - daysBeforeYear y) = newy
    by_cases hlast : newy = year
    · exact Or.inl hlast
    · right
      rcases hout with hneg | hlong
      · obtain ⟨hle, hlt⟩ := yearDelta_down hyear hneg
        have hafter := (hyear.le_iff newy).not.mp (by omega)
        have hnext := daysBeforeYear_next newy
        have hbounds := yearLength_bounds newy
        have hmono := daysBeforeYear_mono (show newy + 1 ≤ y by omega)
        omega
      · obtain ⟨hlt, hle⟩ := yearDelta_up hyear hlong
        have hbefore := (hyear.le_iff newy).mp (by omega)
        have hnext := daysBeforeYear_next y
        have hmono := daysBeforeYear_mono (show y + 1 ≤ newy by omega)
        omega

theorem timesubYears_end {day year : Int} (hyear : InYear day year) (fuel : Nat) {y : Int}
    (hy : y ≤ intMax) (hstart : 0 ≤ y ∨ year ≤ y)
    (hfuel : y = year ∨ (day - daysBeforeYear y).natAbs ≤ fuel) :
    YearsEnd day year (timesubYears (fuel + 1) (day - daysBeforeYear y) y) := by
  induction fuel generalizing y with
  | zero =>
    by_cases hlast : y = year
    · subst hlast
      rw [timesubYears_year hyear]
      exact ⟨fun _ _ => rfl, fun end' h => ⟨(Option.some.inj h).symm, hy⟩⟩
    · have hlength := yearLength_bounds y
      obtain ⟨hout, -⟩ := yearDelta_nearer hyear hlast
      omega
  | succ fuel ih =>
    by_cases hlast : y = year
    · subst hlast
      rw [timesubYears_year hyear]
      exact ⟨fun _ _ => rfl, fun end' h => ⟨(Option.some.inj h).symm, hy⟩⟩
    · obtain ⟨hout, hdown, hup, hnear⟩ := yearDelta_nearer hyear hlast
      rw [timesubYears_succ, if_pos hout]
      generalize yearDelta (day - daysBeforeYear y) = delta at hdown hup hnear ⊢
      have hleft : y + delta = year ∨ (day - daysBeforeYear (y + delta)).natAbs ≤ fuel := by
        rcases hnear with heq | hless
        · exact Or.inl heq
        · right
          have hfuel := hfuel.resolve_left hlast
          omega
      constructor
      · intro hlo hhi
        have hdelta : incrementOverflow y delta = some (y + delta) := by
          have hmin : intMin ≤ 0 := by decide
          apply incrementOverflow_some <;> omega
        rw [hdelta, Option.bind_some]
        exact (ih (by omega) (by omega) hleft).found hlo hhi
      · intro end' hend
        obtain ⟨newy, hnewy, hend⟩ := Option.bind_eq_some_iff.mp hend
        obtain ⟨rfl, hmax, -⟩ := incrementOverflow_eq_some hnewy
        exact (ih (by omega) (by omega) hleft).only end' hend

/-! ## The fields of a day -/

/-- The loop over months ends with the month of the day. -/
theorem timesubMonths_dated {day year : Int} (k mon : Nat) (hk : mon + k = 12)
    {idays : Int} (h0 : 0 ≤ idays) (hday : dayNumber year (mon + 1) 1 + idays = day)
    (hend : day < daysBeforeYear (year + 1)) :
    ∃ m : Nat, (timesubMonths ((monLengths (isleap year)).drop mon) mon idays).1 = (m : Int) ∧
      Dated day year (m + 1)
        ((timesubMonths ((monLengths (isleap year)).drop mon) mon idays).2 + 1) := by
  induction k generalizing mon idays with
  | zero =>
    obtain rfl : mon = 12 := hk
    rw [dayNumber_after_december] at hday
    omega
  | succ k ih =>
    have hget := monLengths_isleap year (show mon < 12 by omega)
    obtain ⟨hlt, hval⟩ := List.getElem?_eq_some_iff.mp hget
    rw [List.drop_eq_getElem_cons hlt, timesubMonths, hval]
    split
    · rename_i hlong
      exact ih (mon + 1) (by omega) (by omega) (by rw [dayNumber_month, dayNumber_add]; omega)
    · rename_i hshort
      refine ⟨mon, rfl, ⟨by omega, by omega⟩, ⟨by omega, by omega⟩, ?_⟩
      rw [← hday, Int.add_comm idays 1, dayNumber_add]

/-- The day of the week, counted from Sunday; day zero is a Thursday. -/
def weekday (day : Int) : Int := (day + 4) % 7

theorem timesub_weekday (day year : Int) :
    (let wday := (4 + (year - 1970).tmod 7 * (365 : Int).tmod 7 + leapsThruEndOf (year - 1) -
        leapsThruEndOf (1970 - 1) + (day - daysBeforeYear year)).tmod 7
      if wday < 0 then wday + 7 else wday) = weekday day := by
  have hleaps := daysBeforeYear_leaps 1970 year
  have hseven : (365 : Int).tmod 7 = 1 := rfl
  rw [daysBeforeYear_epoch] at hleaps
  simp only [hseven, Int.tmod_eq_emod, weekday]
  split_ifs <;> omega

/-- The date and the time of day of a second, with the day of the week and of the year. -/
def gmDate (t : Int) : BsonTmDate :=
  { gmtime t with
    tmWday := weekday (t / 86400)
    tmYday := t / 86400 - daysBeforeYear (civil (t / 86400)).1
    tmIsdst := 0 }

theorem timesubFields_eq {t year : Int} (hyear : InYear (t / 86400) year) :
    timesubFields year (t / 86400 - daysBeforeYear year) (t % 86400) = gmDate t := by
  obtain ⟨m, hmon, hdated⟩ := timesubMonths_dated 12 0 rfl
    (show 0 ≤ t / 86400 - daysBeforeYear year by have := hyear.1; omega)
    (by rw [dayNumber_first]; omega) hyear.2
  rw [List.drop_zero, Int.natCast_zero] at hmon hdated
  have hcivil := hdated.civil_eq
  have hrem := Int.emod_nonneg t (by decide : (86400 : Int) ≠ 0)
  have hclock := Int.emod_nonneg (t % 86400) (by decide : (3600 : Int) ≠ 0)
  have hweek := timesub_weekday (t / 86400) year
  dsimp only at hweek
  simp only [timesubFields, gmDate, gmtime, hcivil, hmon, BsonTmDate.mk.injEq,
    BsonTm.mk.injEq, Int.tmod_eq_emod_of_nonneg hrem, Int.tmod_eq_emod_of_nonneg hclock,
    tdiv_of_nonneg _ hrem, tdiv_of_nonneg _ hclock]
  refine ⟨⟨by omega, by omega, by omega, trivial, by omega, trivial⟩, hweek, trivial, trivial⟩

/-! ## The date of a second -/

theorem timesubBorrow_eq {rem : Int} (idays : Int) (h : -86400 ≤ rem) (hlt : rem < 86400) :
    timesubBorrow (rem.natAbs + 1) rem idays = (rem % 86400, idays + rem / 86400) := by
  rw [timesubBorrow]
  split
  · obtain ⟨k, hk⟩ := Nat.exists_eq_succ_of_ne_zero (show rem.natAbs ≠ 0 by omega)
    rw [hk, timesubBorrow, if_neg (by omega), Prod.mk.injEq]
    omega
  · rw [Prod.mk.injEq]
    omega

theorem timesubCarry_eq {rem : Int} (idays : Int) (fuel : Nat) (hlt : rem < 86400) :
    timesubCarry (fuel + 1) rem idays = (rem, idays) := by
  rw [timesubCarry, if_neg (by omega)]

/-- The day before the first one of a year is in the year before. -/
theorem timesubYearsDown_eq {day year y : Int} (hyear : InYear day year)
    (hy : y = year ∨ day - daysBeforeYear y = -1) (hmax : y ≤ intMax) :
    timesubYearsDown ((day - daysBeforeYear y).natAbs + 1) (day - daysBeforeYear y) y =
        some (day - daysBeforeYear year, year) ∨
      (timesubYearsDown ((day - daysBeforeYear y).natAbs + 1) (day - daysBeforeYear y) y = none ∧
        year < intMin) := by
  rcases hy with rfl | hbefore
  · left
    rw [timesubYearsDown, if_neg (by have := hyear.1; omega)]
  · have hnext := daysBeforeYear_next (y - 1)
    have hlength := yearLength_bounds (y - 1)
    rw [Int.sub_add_cancel] at hnext
    obtain rfl : y - 1 = year := by
      refine InYear.unique ⟨by omega, ?_⟩ hyear
      rw [Int.sub_add_cancel]
      omega
    rw [hbefore]
    simp only [timesubYearsDown, yearLengths_isleap]
    rw [if_pos (by decide)]
    cases hdown : incrementOverflow y (-1) with
    | none =>
      refine Or.inr ⟨rfl, ?_⟩
      by_contra hmin
      rw [incrementOverflow_some (by omega) (by omega)] at hdown
      cases hdown
    | some newy =>
      left
      obtain ⟨rfl, -, -⟩ := incrementOverflow_eq_some hdown
      have hlo := hyear.1
      rw [← Int.sub_eq_add_neg]
      simp only [show Int.natAbs (-1) = 1 from rfl, timesubYearsDown]
      rw [if_neg (by omega), Option.some.injEq, Prod.mk.injEq]
      omega

/-- Whether `timesub` can give the date: `tm_year` and the year itself are an `int`. -/
def YearFits (year : Int) : Prop := intMin + 1900 ≤ year ∧ year ≤ intMax

/-- The last steps, from the year of the day on. -/
theorem timesubEnd_eq {t year : Int} (hyear : InYear (t / 86400) year) (hmax : year ≤ intMax)
    (tmp : BsonTmDate) :
    timesubEnd tmp (t / 86400 - daysBeforeYear year) year (t % 86400) =
      if intMin + 1900 ≤ year then .ok (gmDate t) else .error { tmp with tmYear := year } := by
  have hlo := hyear.1
  have hhi := hyear.2
  rw [daysBeforeYear_next, ← yearLengths_isleap] at hhi
  rw [timesubEnd, timesubYearsUp, if_neg (by omega)]
  dsimp only
  split_ifs with hmin
  · rw [incrementOverflow_some (by omega) (by omega)]
    exact congrArg _ (timesubFields_eq hyear)
  · have hnone : incrementOverflow year (-1900) = none := by
      have hneg : intMin + 1900 ≤ 0 := by decide
      rw [incrementOverflow_neg _ (by omega), if_pos (by omega)]
    rw [hnone]

/-- The division by the seconds of a day truncates, so that the first day of `timesub` is
the one behind for negative seconds. -/
theorem first_day (t : Int) :
    -86400 ≤ t - t.tdiv 86400 * 86400 ∧ t - t.tdiv 86400 * 86400 < 86400 ∧
      (0 ≤ t → t.tdiv 86400 = t / 86400) := by
  rcases le_total 0 t with h | h
  · rw [tdiv_of_nonneg _ h]
    omega
  · rw [tdiv_of_nonpos _ h]
    refine ⟨by omega, by omega, fun h0 => ?_⟩
    omega

/-- What is behind the loop over years. -/
theorem timesub_found {t start : Int}
    (hyears : timesubYears ((t.tdiv 86400).natAbs + 1) (t.tdiv 86400) 1970 =
      some (t.tdiv 86400 - daysBeforeYear start, start)) (tmp : BsonTmDate) :
    timesub t 0 tmp =
      ((timesubYearsDown ((t / 86400 - daysBeforeYear start).natAbs + 1)
        (t / 86400 - daysBeforeYear start) start).elim (.error tmp) fun r =>
          timesubEnd tmp r.1 r.2 (t % 86400)) := by
  obtain ⟨hlo, hhi, -⟩ := first_day t
  have hrem : (t - t.tdiv 86400 * 86400) % 86400 = t % 86400 := by omega
  have hdays : t.tdiv 86400 - daysBeforeYear start + (t - t.tdiv 86400 * 86400) / 86400 =
      t / 86400 - daysBeforeYear start := by omega
  have hlt := Int.emod_lt_of_pos t (by decide : (0 : Int) < 86400)
  simp only [timesub, hyears, Int.mul_tdiv_cancel _ (by decide : (86400 : Int) ≠ 0), Int.sub_self,
    Int.add_zero, timesubBorrow_eq _ hlo hhi, hrem, hdays, timesubCarry_eq _ _ hlt]
  cases timesubYearsDown _ _ start <;> rfl

/-- `gmtsub` gives the date of every second whose year fits, and `NULL` for another one. -/
theorem gmtsub_eq (t : Int) (tmp : BsonTmDate) :
    (YearFits (civil (t / 86400)).1 → gmtsub t 0 tmp = .ok (gmDate t)) ∧
      (¬ YearFits (civil (t / 86400)).1 → ∃ left, gmtsub t 0 tmp = .error left) := by
  have hyear := inYear_civil (t / 86400)
  generalize (civil (t / 86400)).1 = year at hyear ⊢
  obtain ⟨hlo, hhi, hpos⟩ := first_day t
  have hstart := inYear_civil (t.tdiv 86400)
  generalize (civil (t.tdiv 86400)).1 = start at hstart
  have hend := timesubYears_end hstart (t.tdiv 86400).natAbs (y := 1970) (by decide)
    (Or.inl (by decide)) (Or.inr (by rw [daysBeforeYear_epoch, Int.sub_zero]))
  rw [daysBeforeYear_epoch, Int.sub_zero] at hend
  have hle : year ≤ start := by
    rw [hstart.le_iff]
    have hfirst := hyear.1
    omega
  have hmax : intMax < start → year = start := by
    intro hlate
    have hfirst := (hstart.le_iff 1971).mp ((by decide : (1971 : Int) ≤ intMax).trans (by omega))
    have hsecond : daysBeforeYear 1971 = 365 := by decide
    rw [hpos (by omega)] at hstart
    exact hyear.unique hstart
  rw [gmtsub]
  cases hyears : timesubYears ((t.tdiv 86400).natAbs + 1) (t.tdiv 86400) 1970 with
  | none =>
    have hout : ¬ (intMin ≤ start ∧ start ≤ intMax) := by
      rintro ⟨hmin, hstartMax⟩
      rw [hend.found hmin hstartMax] at hyears
      cases hyears
    have hnot : ¬ YearFits year := by
      unfold YearFits
      omega
    refine ⟨fun hfits => absurd hfits hnot, fun _ => ⟨tmp, ?_⟩⟩
    simp only [timesub, hyears]
  | some r =>
    obtain ⟨rfl, hstartMax⟩ := hend.only r hyears
    rw [timesub_found hyears]
    have hbefore : start = year ∨ t / 86400 - daysBeforeYear start = -1 := by
      by_cases hsame : start = year
      · exact Or.inl hsame
      · have hfirst := (hyear.le_iff start).not.mp (by omega)
        have hlast := hstart.1
        omega
    rcases timesubYearsDown_eq hyear hbefore hstartMax with hdown | ⟨hdown, hmin⟩
    · rw [hdown, Option.elim_some, timesubEnd_eq hyear (by omega)]
      constructor
      · intro hfits
        rw [if_pos hfits.1]
      · intro hnot
        rw [if_neg fun hmin => hnot ⟨hmin, by omega⟩]
        exact ⟨_, rfl⟩
    · rw [hdown, Option.elim_none]
      refine ⟨fun hfits => ?_, fun _ => ⟨tmp, rfl⟩⟩
      have hfitsMin := hfits.1
      omega

end LibBson.Source
