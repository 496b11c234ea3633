import LibBson.Library.Utf8

/-!
# The body of a JSON string

A body is a list of characters; `unescape` gives the characters it stands for,
and nothing when it is not a body: a bare quote, backslash or control character,
an escape that is not one, half of a surrogate pair. `Utf8Points` are the
characters of a text in UTF-8.
-/

set_option autoImplicit false

namespace LibBson.Library

def hexValue (c : Nat) : Option Nat :=
  if 48 ≤ c ∧ c ≤ 57 then some (c - 48)
  else if 65 ≤ c ∧ c ≤ 70 then some (c - 55)
  else if 97 ≤ c ∧ c ≤ 102 then some (c - 87)
  else none

/-- Four hexadecimal digits. -/
def hexUnit (a b c d : Nat) : Option Nat :=
  match hexValue a, hexValue b, hexValue c, hexValue d with
  | some a, some b, some c, some d => some (((a * 16 + b) * 16 + c) * 16 + d)
  | _, _, _, _ => none

/-- The character behind a backslash, `u` apart. -/
def shortEscape (e : Nat) : Option Nat :=
  if e = 0x22 ∨ e = 0x5C ∨ e = 0x2F then some e
  else if e = 0x62 then some 0x08
  else if e = 0x66 then some 0x0C
  else if e = 0x6E then some 0x0A
  else if e = 0x72 then some 0x0D
  else if e = 0x74 then some 0x09
  else none

/-- A character that stands for itself. -/
def Unescaped (c : Nat) : Prop := Scalar c ∧ 0x20 ≤ c ∧ c ≠ 0x22 ∧ c ≠ 0x5C

instance (c : Nat) : Decidable (Unescaped c) := inferInstanceAs (Decidable (_ ∧ _))

def highSurrogate (u : Nat) : Bool := 0xD800 ≤ u && u < 0xDC00

def lowSurrogate (u : Nat) : Bool := 0xDC00 ≤ u && u < 0xE000

def surrogatePair (u v : Nat) : Nat := 0x10000 + (u - 0xD800) * 1024 + (v - 0xDC00)

def unescape : List Nat → Option (List Nat)
  | [] => some []
  | c :: rest =>
    if c = 0x5C then
      match rest with
      | [] => none
      | e :: rest =>
        if e = 0x75 then
          match rest with
          | a :: b :: c :: d :: rest =>
            match hexUnit a b c d with
            | none => none
            | some u =>
              if highSurrogate u then
                match rest with
                | 0x5C :: 0x75 :: a :: b :: c :: d :: rest =>
                  match hexUnit a b c d with
                  | none => none
                  | some v =>
                    if lowSurrogate v then (unescape rest).map (surrogatePair u v :: ·) else none
                | _ => none
              else if lowSurrogate u then none
              else (unescape rest).map (u :: ·)
          | _ => none
        else
          match shortEscape e with
          | none => none
          | some c => (unescape rest).map (c :: ·)
    else if Unescaped c then (unescape rest).map (c :: ·)
    else none

@[simp] theorem unescape_nil : unescape [] = some [] := rfl

theorem unescape_short {e c : Nat} (h : shortEscape e = some c) (rest : List Nat) :
    unescape (0x5C :: e :: rest) = (unescape rest).map (c :: ·) := by
  have hu : e ≠ 0x75 := by
    rintro rfl
    cases h
  rw [unescape.eq_def]
  dsimp only
  rw [if_pos rfl, if_neg hu, h]

theorem unescape_unit {a b c d u : Nat} (h : hexUnit a b c d = some u)
    (hhigh : highSurrogate u = false) (hlow : lowSurrogate u = false) (rest : List Nat) :
    unescape (0x5C :: 0x75 :: a :: b :: c :: d :: rest) = (unescape rest).map (u :: ·) := by
  rw [unescape.eq_def]
  dsimp only
  rw [if_pos rfl, if_pos rfl, h]
  simp only [hhigh, hlow, Bool.false_eq_true, if_false]

theorem unescape_plain {c : Nat} (h : Unescaped c) (rest : List Nat) :
    unescape (c :: rest) = (unescape rest).map (c :: ·) := by
  rw [unescape.eq_def]
  dsimp only
  rw [if_neg h.2.2.2, if_pos h]

/-- The characters of a text in UTF-8; with `allowNull` the pair `C0 80` is NUL. -/
inductive Utf8Points (allowNull : Bool) : Bytes → List Nat → Prop
  | nil : Utf8Points allowNull [] []
  | char (c : Nat) (s : Bytes) (cs : List Nat) (hc : Scalar c) (hn : c = 0 → allowNull = true)
    (hs : Utf8Points allowNull s cs) : Utf8Points allowNull (utf8Encode c ++ s) (c :: cs)
  | nul (s : Bytes) (cs : List Nat) (hn : allowNull = true) (hs : Utf8Points allowNull s cs) :
    Utf8Points allowNull (0xC0 :: 0x80 :: s) (0 :: cs)

theorem Utf8Text.points {allowNull : Bool} {s : Bytes} (h : Utf8Text allowNull s) :
    ∃ cs, Utf8Points allowNull s cs := by
  induction h with
  | nil => exact ⟨[], .nil⟩
  | char c s hc hn _ ih =>
    obtain ⟨cs, hcs⟩ := ih
    exact ⟨c :: cs, .char c s cs hc hn hcs⟩
  | nul s hn _ ih =>
    obtain ⟨cs, hcs⟩ := ih
    exact ⟨0 :: cs, .nul s cs hn hcs⟩

theorem Utf8Points.scalar {allowNull : Bool} {s : Bytes} {cs : List Nat}
    (h : Utf8Points allowNull s cs) : ∀ c ∈ cs, Scalar c := by
  induction h with
  | nil => simp
  | char c s cs hc hn _ ih => simpa using ⟨hc, ih⟩
  | nul s cs hn _ ih => simpa using ⟨(by decide : Scalar 0), ih⟩

theorem Utf8Points.ascii {allowNull : Bool} {s : Bytes} {cs : List Nat} {b : UInt8}
    (hpos : 0 < b.toNat) (hlt : b.toNat < 0x80) (hs : Utf8Points allowNull s cs) :
    Utf8Points allowNull (b :: s) (b.toNat :: cs) := by
  have henc : utf8Encode b.toNat = [b] := by rw [utf8Encode, if_pos hlt, UInt8.ofNat_toNat]
  have h := Utf8Points.char b.toNat s cs ⟨by omega, by omega⟩ (by omega) hs
  rwa [henc] at h

/-- `text` is the body of a JSON string that stands for `cs`. -/
def JsonBody (text : Bytes) (cs : List Nat) : Prop :=
  ∃ body, Utf8Points false text body ∧ unescape body = some cs

theorem JsonBody.nil : JsonBody [] [] := ⟨[], .nil, rfl⟩

theorem JsonBody.plain {c : Nat} (hc : Unescaped c) {text : Bytes} {cs : List Nat}
    (h : JsonBody text cs) : JsonBody (utf8Encode c ++ text) (c :: cs) := by
  obtain ⟨body, hbody, hcs⟩ := h
  have hpos := hc.2.1
  refine ⟨c :: body, .char c text body hc.1 (by omega) hbody, ?_⟩
  rw [unescape_plain hc, hcs]
  rfl

theorem JsonBody.short {e : UInt8} {c : Nat} (he : shortEscape e.toNat = some c)
    (hpos : 0 < e.toNat) (hlt : e.toNat < 0x80) {text : Bytes} {cs : List Nat}
    (h : JsonBody text cs) : JsonBody (0x5C :: e :: text) (c :: cs) := by
  obtain ⟨body, hbody, hcs⟩ := h
  refine ⟨0x5C :: e.toNat :: body, (hbody.ascii hpos hlt).ascii (by decide) (by decide), ?_⟩
  rw [unescape_short he, hcs]
  rfl

theorem JsonBody.unit {x y : UInt8} {c : Nat} (hunit : hexUnit 48 48 x.toNat y.toNat = some c)
    (hc : c < 32) (hx : 0 < x.toNat ∧ x.toNat < 0x80) (hy : 0 < y.toNat ∧ y.toNat < 0x80)
    {text : Bytes} {cs : List Nat} (h : JsonBody text cs) :
    JsonBody (0x5C :: 0x75 :: 48 :: 48 :: x :: y :: text) (c :: cs) := by
  obtain ⟨body, hbody, hcs⟩ := h
  have hxy := (hbody.ascii hy.1 hy.2).ascii hx.1 hx.2
  have hzeros := (hxy.ascii (by decide : 0 < (48 : UInt8).toNat) (by decide)).ascii
    (by decide : 0 < (48 : UInt8).toNat) (by decide)
  refine ⟨_, (hzeros.ascii (b := 0x75) (by decide) (by decide)).ascii (b := 0x5C) (by decide)
    (by decide), ?_⟩
  have hhigh : highSurrogate c = false := by
    simp only [highSurrogate, Bool.and_eq_false_iff, decide_eq_false_iff_not]
    omega
  have hlow : lowSurrogate c = false := by
    simp only [lowSurrogate, Bool.and_eq_false_iff, decide_eq_false_iff_not]
    omega
  have hunescape := unescape_unit hunit hhigh hlow body
  rw [hcs] at hunescape
  exact hunescape

end LibBson.Library
