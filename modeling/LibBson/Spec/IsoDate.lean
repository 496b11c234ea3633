import LibBson.Spec.Decimal

/-!
# Dates `yyyy-mm-ddThh:mm[:ss[.f]]` with a timezone

A date is its parts, each within its bounds, so that a text that is none cannot be built.
-/

set_option autoImplicit false

namespace LibBson.Spec
open LibBson.Library

/-- `n` in `width` digits. -/
def paddedText (width n : Nat) : Bytes := digitText (decimals width n)

/-- One to three digits behind the point. -/
structure IsoFraction where
  digits : List (Fin 10)
  nonempty : digits ≠ []
  short : digits.length ≤ 3

/-- The fraction in milliseconds. -/
def IsoFraction.millis (f : IsoFraction) : Nat := ofDigits f.digits * 10 ^ (3 - f.digits.length)

structure IsoSeconds where
  second : Fin 61
  fraction : Option IsoFraction

inductive IsoZone where
  | utc
  | offset (negative : Bool) (hour : Fin 24) (minute : Fin 60)

/-- `month` and `day` count from 0. -/
structure IsoDate where
  year : Fin 10000
  month : Fin 12
  day : Fin 31
  hour : Fin 24
  minute : Fin 60
  seconds : Option IsoSeconds
  zone : IsoZone

def IsoFraction.optionText : Option IsoFraction → Bytes
  | none => []
  | some f => 46 :: digitText f.digits

def IsoSeconds.optionText : Option IsoSeconds → Bytes
  | none => []
  | some s => 58 :: (paddedText 2 s.second ++ IsoFraction.optionText s.fraction)

namespace IsoZone

def text : IsoZone → Bytes
  | utc => [90]
  | offset negative hour minute =>
    (if negative then 45 else 43) :: (paddedText 2 hour ++ paddedText 2 minute)

/-- The offset in seconds, with its sign. -/
def seconds : IsoZone → Int
  | utc => 0
  | offset negative hour minute =>
    (if negative then -1 else 1) * ((hour : Nat) * 3600 + (minute : Nat) * 60)

end IsoZone

namespace IsoDate

variable (d : IsoDate)

def text : Bytes :=
  paddedText 4 d.year ++ 45 :: (paddedText 2 (d.month + 1) ++ 45 :: (paddedText 2 (d.day + 1) ++
    84 :: (paddedText 2 d.hour ++ 58 :: (paddedText 2 d.minute ++
      (IsoSeconds.optionText d.seconds ++ d.zone.text)))))

def second : Nat :=
  match d.seconds with
  | none => 0
  | some s => s.second

def millis : Nat :=
  match d.seconds with
  | some ⟨_, some f⟩ => f.millis
  | _ => 0

end IsoDate

@[simp] theorem paddedText_length (width n : Nat) : (paddedText width n).length = width := by
  simp [paddedText, digitText]

end LibBson.Spec
