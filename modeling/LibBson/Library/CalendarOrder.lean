import LibBson.Library.Calendar

/-!
# Dates in order

A date of the calendar belongs to one day, the dates come in the order of their days, and
a year or a month on adds its length.
-/

set_option autoImplicit false

namespace LibBson.Library

def yearLength (y : Int) : Int := if leapYear y then 366 else 365

theorem yearLength_bounds (y : Int) : 365 ≤ yearLength y ∧ yearLength y ≤ 366 := by
  unfold yearLength
  split <;> omega

theorem daysBeforeYear_next (y : Int) :
    daysBeforeYear (y + 1) = daysBeforeYear y + yearLength y := daysBeforeYear_succ y

/-- A year has 365 days at least and 366 at most. -/
theorem daysBeforeYear_bounds (y : Int) (k : Nat) :
    daysBeforeYear y + 365 * k ≤ daysBeforeYear (y + k) ∧
      daysBeforeYear (y + k) ≤ daysBeforeYear y + 366 * k := by
  unfold daysBeforeYear
  omega

/-- The year `y` has the day. -/
def InYear (day y : Int) : Prop := daysBeforeYear y ≤ day ∧ day < daysBeforeYear (y + 1)

theorem InYear.le_iff {day y : Int} (h : InYear day y) (x : Int) :
    x ≤ y ↔ daysBeforeYear x ≤ day := by
  obtain ⟨hlo, hhi⟩ := h
  constructor
  · intro hle
    exact (daysBeforeYear_mono hle).trans hlo
  · intro hday
    by_contra hlt
    have hmono := daysBeforeYear_mono (show y + 1 ≤ x by omega)
    omega

theorem InYear.unique {day y x : Int} (hy : InYear day y) (hx : InYear day x) : y = x := by
  have h1 := (hx.le_iff y).mpr hy.1
  have h2 := (hy.le_iff x).mpr hx.1
  omega

/-- Every day has its year, namely that of its date. -/
theorem inYear_civil (day : Int) : InYear day (civil day).1 := (civil_dated day).in_year

theorem daysBeforeMonth_mono (y : Int) {m n : Nat} (h : m ≤ n) :
    daysBeforeMonth y m ≤ daysBeforeMonth y n := by
  induction n, h using Nat.le_induction with
  | base => exact le_refl _
  | succ n _ ih =>
    cases n with
    | zero => simpa [daysBeforeMonth] using ih
    | succ n =>
      have hlength := (monthLength_bounds y (n + 1)).1
      rw [daysBeforeMonth]
      omega

/-- A day behind another one of its year is in the same month or a later one. -/
theorem Dated.before_month {day y d : Int} {m n : Nat} (h : Dated day y m d) (hmn : m < n) :
    day < dayNumber y n 1 := by
  obtain ⟨⟨h1, -⟩, ⟨-, hd⟩, rfl⟩ := h
  obtain ⟨m, rfl⟩ : ∃ k, m = k + 1 := ⟨m - 1, by omega⟩
  have hmono := daysBeforeMonth_mono y (show m + 2 ≤ n by omega)
  rw [daysBeforeMonth] at hmono
  rw [dayNumber, dayNumber]
  omega

/-- Dates come in the order of their days. -/
theorem Dated.lt_cases {day day' y y' d d' : Int} {m m' : Nat} (h : Dated day y m d)
    (h' : Dated day' y' m' d') (hlt : day < day') :
    y < y' ∨ y = y' ∧ m < m' ∨ y = y' ∧ m = m' ∧ d < d' := by
  have hyear : y ≤ y' := by
    have hday := (InYear.le_iff h'.in_year y).mpr (by have := h.in_year.1; omega)
    exact hday
  rcases Int.lt_or_eq_of_le hyear with hy | rfl
  · exact Or.inl hy
  · right
    rcases Nat.lt_trichotomy m m' with hm | rfl | hm
    · exact Or.inl ⟨rfl, hm⟩
    · right
      have hcount := h.count
      have hcount' := h'.count
      unfold dayNumber at hcount hcount'
      exact ⟨rfl, rfl, by omega⟩
    · have hbefore := h'.before_month hm
      have hcount := h.count
      have hd := h.day.1
      unfold dayNumber at hcount hbefore
      omega

theorem Dated.unique {day y y' d d' : Int} {m m' : Nat} (h : Dated day y m d)
    (h' : Dated day y' m' d') : y = y' ∧ m = m' ∧ d = d' := by
  obtain rfl := InYear.unique h.in_year h'.in_year
  rcases Nat.lt_trichotomy m m' with hm | rfl | hm
  · have hbefore := h.before_month hm
    have hcount := h'.count
    have hd := h'.day.1
    unfold dayNumber at hcount hbefore
    omega
  · have hcount := h.count
    have hcount' := h'.count
    unfold dayNumber at hcount hcount'
    exact ⟨rfl, rfl, by omega⟩
  · have hbefore := h'.before_month hm
    have hcount := h.count
    have hd := h.day.1
    unfold dayNumber at hcount hbefore
    omega

/-- A date is what `civil` says of its day. -/
theorem Dated.civil_eq {day y d : Int} {m : Nat} (h : Dated day y m d) : civil day = (y, m, d) := by
  obtain ⟨hy, hm, hd⟩ := (civil_dated day).unique h
  exact Prod.ext hy (Prod.ext hm hd)

theorem dayNumber_add (y d k : Int) (m : Nat) : dayNumber y m (d + k) = dayNumber y m d + k := by
  unfold dayNumber
  omega

/-- The first of the next month. -/
theorem dayNumber_month (y d : Int) (m : Nat) :
    dayNumber y (m + 2) d = dayNumber y (m + 1) (d + monthLength y (m + 1)) := by
  rw [dayNumber, dayNumber, daysBeforeMonth]
  omega

theorem dayNumber_december (y d : Int) :
    dayNumber (y + 1) 1 d = dayNumber y 12 (d + monthLength y 12) := by
  rw [dayNumber, dayNumber, daysBeforeYear_succ]
  by_cases h : leapYear y <;> simp [daysBeforeMonth, monthLength, h] <;> omega

theorem dayNumber_first (y : Int) : dayNumber y 1 1 = daysBeforeYear y := by
  simp [dayNumber, daysBeforeMonth]

theorem dayNumber_after_december (y : Int) : dayNumber y 13 1 = daysBeforeYear (y + 1) := by
  rw [dayNumber_month y 1 11, ← dayNumber_december, dayNumber_first]

/-- The same date a year on; the leap day between them is that of the February ahead. -/
theorem dayNumber_year (y d : Int) {m : Nat} (h1 : 1 ≤ m) (h12 : m ≤ 12) :
    dayNumber (y + 1) m d = dayNumber y m d + yearLength (y + if 2 < m then 1 else 0) := by
  rw [dayNumber, dayNumber, daysBeforeYear_next]
  unfold yearLength
  by_cases h : leapYear y <;> by_cases h' : leapYear (y + 1) <;> interval_cases m <;>
    simp [daysBeforeMonth, monthLength, h, h'] <;> omega

end LibBson.Library
