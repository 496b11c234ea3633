import LibBson.Library.Memory

/-!
# Text as octets

String constants, and the decimal numerals of `printf`'s `%u`.
-/

set_option autoImplicit false

namespace LibBson.Library

/-- The octets of a string constant. -/
def ascii (s : String) : Bytes := s.toList.map fun c => UInt8.ofNat c.toNat

/-- The digit below ten. -/
def digit (n : Nat) : UInt8 := UInt8.ofNat (48 + n % 10)

/-- Digits of `n` in front of `acc`, at most `fuel` of them. -/
def digitsBefore : Nat → Nat → Bytes → Bytes
  | 0, _, acc => acc
  | fuel + 1, n, acc => if n < 10 then digit n :: acc else digitsBefore fuel (n / 10) (digit n :: acc)

/-- `%u` -/
def decimal (n : Nat) : Bytes := digitsBefore (n + 1) n []

example : decimal 1020 = ascii "1020" := by decide

end LibBson.Library
