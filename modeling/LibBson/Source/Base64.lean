import LibBson.Source.AsJsonText
import LibBson.Source.JsonText

/-!
# Base 64 in memory

Source: b64_ntop.h:112-190 (`b64_ntop`), b64_pton.h:108-420 (`b64_pton_do`,
`b64_pton_len`). A loop leaves the target as it is when it returns -1.
-/

set_option autoImplicit false

namespace LibBson.Source
open LibBson.Library

/-! ## `b64_pton` -/

section B64

variable (before : UInt8 → B64Class)

/-- The loop of `b64_pton_do`: `state`, `tarindex` and the text from the ending character
on, or nothing where it returns -1. `tarindex` is an `int` and stays one for a text or a
`targsize` below 2^31. -/
def b64DoDigits (targsize : Nat) : Nat → Nat → Mem → Bytes → Option (Nat × Nat × Bytes) × Mem
  | state, tarindex, target, [] => (some (state, tarindex, []), target)
  | state, tarindex, target, ch :: src =>
    match b64Class before ch with
    | .space => b64DoDigits targsize state tarindex target src
    | .end => (some (state, tarindex, ch :: src), target)
    | .invalid => (none, target)
    | .ofs ofs =>
      match state with
      | 0 =>
        if tarindex ≥ targsize then (none, target)
        else b64DoDigits targsize 1 tarindex (target.write tarindex [ofs <<< 2]) src
      | 1 =>
        if tarindex + 1 ≥ targsize then (none, target)
        else b64DoDigits targsize 2 (tarindex + 1)
          (target.write tarindex [target tarindex ||| ofs >>> 4, (ofs &&& 0x0f) <<< 4]) src
      | 2 =>
        if tarindex + 1 ≥ targsize then (none, target)
        else b64DoDigits targsize 3 (tarindex + 1)
          (target.write tarindex [target tarindex ||| ofs >>> 2, (ofs &&& 0x03) <<< 6]) src
      | _ =>
        if tarindex ≥ targsize then (none, target)
        else b64DoDigits targsize 0 (tarindex + 1)
          (target.write tarindex [target tarindex ||| ofs]) src

/-- `b64_pton_do`. The octet behind the last whole one is only looked at behind a pad. -/
def b64PtonDo (src : Bytes) (target : Mem) (targsize : Nat) : Int × Mem :=
  match b64DoDigits before targsize 0 0 target (cText src) with
  | (none, target) => (-1, target)
  | (some (state, tarindex, rest), target) =>
    if b64Padding before state rest then
      if rest ≠ [] ∧ target tarindex ≠ 0 then (-1, target) else (i32 tarindex, target)
    else (-1, target)

/-- The loop of `b64_pton_len`. -/
def b64LenDigits : Nat → Nat → Bytes → Option (Nat × Nat × Bytes)
  | state, tarindex, [] => some (state, tarindex, [])
  | state, tarindex, ch :: src =>
    match b64Class before ch with
    | .space => b64LenDigits state tarindex src
    | .end => some (state, tarindex, ch :: src)
    | .invalid => none
    | .ofs _ =>
      match state with
      | 0 => b64LenDigits 1 tarindex src
      | 1 => b64LenDigits 2 (tarindex + 1) src
      | 2 => b64LenDigits 3 (tarindex + 1) src
      | _ => b64LenDigits 0 (tarindex + 1) src

/-- `b64_pton_len` -/
def b64PtonLen (src : Bytes) : Int :=
  match b64LenDigits before 0 0 (cText src) with
  | none => -1
  | some (state, tarindex, rest) => if b64Padding before state rest then i32 tarindex else -1

end B64

/-! ## `b64_ntop` -/

/-- `b64_ntop` from `datalength` on. -/
def b64NtopFrom (targsize : Nat) : Bytes → Mem → Nat → Int × Mem
  | [], target, datalength =>
    if datalength ≥ targsize then (-1, target)
    else (datalength, target.write datalength [0])
  | [a], target, datalength =>
    if datalength + 4 > targsize then (-1, target)
    else
      b64NtopFrom targsize [] (target.write datalength
        [base64Char (a >>> 2), base64Char ((a &&& 0x03) <<< 4), 61, 61]) (datalength + 4)
  | [a, b], target, datalength =>
    if datalength + 4 > targsize then (-1, target)
    else
      b64NtopFrom targsize [] (target.write datalength
        [base64Char (a >>> 2), base64Char (((a &&& 0x03) <<< 4) + (b >>> 4)),
          base64Char ((b &&& 0x0f) <<< 2), 61]) (datalength + 4)
  | a :: b :: c :: src, target, datalength =>
    if datalength + 4 > targsize then (-1, target)
    else
      b64NtopFrom targsize src (target.write datalength
        [base64Char (a >>> 2), base64Char (((a &&& 0x03) <<< 4) + (b >>> 4)),
          base64Char (((b &&& 0x0f) <<< 2) + (c >>> 6)), base64Char (c &&& 0x3f)])
        (datalength + 4)

/-- `b64_ntop` -/
def b64NtopInto (src : Bytes) (target : Mem) (targsize : Nat) : Int × Mem :=
  b64NtopFrom targsize src target 0

end LibBson.Source
