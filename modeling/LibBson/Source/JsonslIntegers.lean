import LibBson.Library.Digits
import LibBson.Source.JsonslLaws
import LibBson.Source.JsonTokens

/-!
# Integer literals in jsonsl

The event an integer literal comes to where a value may stand: its sign, and its
magnitude modulo 2^64. A zero has its states of its own, and loses its sign.
Source: jsonsl.c:287-440, 460-560.
-/

set_option autoImplicit false

namespace LibBson.Source
open LibBson.Library

/-- An integer literal of JSON: one zero, or digits that begin with none. -/
structure JsonInteger where
  negative : Bool
  digits : List (Fin 10)
  proper : digits = [0] ∨ ∃ d ds, digits = d :: ds ∧ d ≠ 0

/-- The characters of digits. -/
def digitTexts (ds : List (Fin 10)) : Bytes := ds.map fun d => digit d.val

namespace JsonInteger

def magnitude (l : JsonInteger) : Nat := ofDigits l.digits

/-- The integer the literal stands for. -/
def value (l : JsonInteger) : Int := if l.negative then -l.magnitude else l.magnitude

def text (l : JsonInteger) : Bytes := (if l.negative then [45] else []) ++ digitTexts l.digits

/-- What is left of the sign at a zero. -/
def signed (l : JsonInteger) : Bool := l.negative && l.magnitude != 0

/-- The event with the digits accumulated in 64 bits. -/
def event (l : JsonInteger) : JsonEvent :=
  .special false true l.signed false false (u64 l.magnitude) l.text

end JsonInteger

theorem isDigit_decimal (d : Fin 10) : isDigit (digit d.val) = true := by
  revert d
  decide

theorem digit_value (d : Fin 10) : (digit d.val - 48).toNat = d.val := by
  revert d
  decide

/-- Where a literal ends no numeral goes on. -/
theorem specialEnd_notNumeral {c : UInt8} (hc : isSpecialEnd c = true) :
    isDigit c = false ∧ c ≠ 46 ∧ ¬ (c = 101 ∨ c = 69) ∧ ¬ (c = 45 ∨ c = 43) := by
  have hall : ∀ e ∈ ([9, 10, 13, 32, 34, 44, 58, 91, 92, 93, 123, 125] : Bytes),
      isDigit e = false ∧ e ≠ 46 ∧ ¬ (e = 101 ∨ e = 69) ∧ ¬ (e = 45 ∨ e = 43) := by
    decide +kernel
  exact hall c (of_decide_eq_true hc)

namespace JsonslSt

/-- A value may stand here. -/
structure TakesValue (j : JsonslSt) : Prop where
  plain : j.Plain
  keyed : j.lacksKey = false
  canInsert : j.canInsert = true
  level : j.level < levelsMax - 1

/-- In a number from `posBegin` on. -/
structure InNumber (j : JsonslSt) (posBegin flags nelem : Nat) : Prop where
  type : j.top.type = .special
  posBegin : j.top.posBegin = posBegin
  flags : j.top.specialFlags = flags
  nelem : j.top.nelem = nelem

theorem top_setTop (j : JsonslSt) (e : JsonslEntry) : (j.setTop e).top = e := if_pos rfl

theorem feed_special {j : JsonslSt} (htype : j.top.type = .special) (pos : Nat) (c : UInt8) :
    j.feed pos c = j.specialChar pos c := by
  unfold feed
  rw [htype]

/-- The first character of a literal. -/
theorem feed_begins {j : JsonslSt} (h : j.TakesValue) (pos : Nat) {c : UInt8}
    (hflags : extractSpecial c ≠ 0) (hspace : isAllowedWhitespace c = false) :
    ∃ j', j.feed pos c = ([.push .special pos], j') ∧
      j'.InNumber pos (extractSpecial c)
        (if extractSpecial c = specialUnsigned then (c - 48).toNat else 0) := by
  obtain ⟨⟨hspecial, htext⟩, hkeyed, hinsert, hlevel⟩ := h
  have hbegin : j.feed pos c = j.specialBegin pos c := by
    unfold feed
    split
    · next hkey htop => exact absurd htop (htext hkey)
    · next htop => exact absurd htop hspecial
    · rw [if_neg (by rw [hspace]; decide), if_pos hflags]
  have hroom : ¬ j.level ≥ levelsMax - 1 := Nat.not_le_of_lt hlevel
  rw [hbegin]
  unfold specialBegin
  simp only [if_neg hflags, hkeyed, Bool.false_eq_true, if_false]
  rw [if_neg (by rw [setTop, hinsert]; decide)]
  unfold stackPush
  rw [if_neg (by exact hroom)]
  refine ⟨_, rfl, ?_, ?_, ?_, ?_⟩ <;> simp [top, setTop]

theorem u64_step (n : Nat) (d : Nat) : (u64 n * 10 + d) % 18446744073709551616 = u64 (n * 10 + d) := by
  unfold u64
  omega

/-- A further digit. -/
theorem InNumber.digit {j : JsonslSt} {b flags : Nat} {ds : List (Fin 10)}
    (h : j.InNumber b flags (u64 (ofDigits ds))) (hnormal : isNormalNumber flags = true)
    (pos : Nat) (d : Fin 10) :
    ∃ j', j.feed pos (digit d.val) = ([], j') ∧
      j'.InNumber b flags (u64 (ofDigits (ds ++ [d]))) := by
  obtain ⟨htype, hpos, hflags, hnelem⟩ := h
  rw [feed_special htype]
  unfold specialChar
  rw [hflags, if_pos hnormal, if_pos (isDigit_decimal d)]
  refine ⟨_, rfl, ?_, ?_, ?_, ?_⟩
  · rw [top_setTop, htype]
  · rw [top_setTop, hpos]
  · rw [top_setTop, hflags]
  · rw [top_setTop, hnelem, digit_value, u64_step, ofDigits_concat]

/-- The first digit behind a minus sign. -/
theorem InNumber.negative {j : JsonslSt} {b n : Nat} (h : j.InNumber b specialDash n) (pos : Nat)
    (d : Fin 10) :
    ∃ j', j.feed pos (LibBson.Library.digit d.val) = ([], j') ∧
      j'.InNumber b (if d = 0 then specialZero ||| specialSigned else specialSigned)
        (if d = 0 then n else d.val) := by
  obtain ⟨htype, hpos, hflags, hnelem⟩ := h
  have hletter : ¬ (LibBson.Library.digit d.val = 73 ∨ LibBson.Library.digit d.val = 105) := by
    revert d
    decide
  have hzero : LibBson.Library.digit d.val = 48 ↔ d = 0 := by
    revert d
    decide
  rw [feed_special htype]
  unfold specialChar
  rw [hflags, if_neg (by decide), if_pos rfl, if_neg hletter,
    if_neg (by rw [isDigit_decimal]; decide)]
  by_cases hd : d = 0
  · rw [if_pos (hzero.mpr hd), if_pos hd, if_pos hd]
    refine ⟨_, rfl, ?_, ?_, ?_, ?_⟩
    · rw [top_setTop, htype]
    · rw [top_setTop, hpos]
    · rw [top_setTop]
    · rw [top_setTop, hnelem]
  · rw [if_neg (mt hzero.mp hd), if_neg hd, if_neg hd]
    refine ⟨_, rfl, ?_, ?_, ?_, ?_⟩
    · rw [top_setTop, htype]
    · rw [top_setTop, hpos]
    · rw [top_setTop]
    · rw [top_setTop, digit_value]

/-- The flags of an integer literal. -/
def isInteger (flags : Nat) : Bool :=
  isNormalNumber flags || flags == specialZero || flags == specialZero ||| specialSigned

/-- What a pop callback sees of an integer literal. -/
def poppedInteger (posBegin flags nelem : Nat) : JsonslState :=
  { type := .special
    posBegin := posBegin
    numNoInt := false
    numeric := true
    signed := flags == specialSigned
    boolean := false
    null := false
    nelem := nelem }

theorem isInteger_cases {flags : Nat} (h : isInteger flags = true) :
    flags = specialUnsigned ∨ flags = specialSigned ∨ flags = specialZero ∨
      flags = specialZero ||| specialSigned := by
  simp only [isInteger, isNormalNumber, Bool.or_eq_true, beq_iff_eq] at h
  rcases h with ((h | h) | h) | h
  · exact Or.inl h
  · exact Or.inr (Or.inl h)
  · exact Or.inr (Or.inr (Or.inl h))
  · exact Or.inr (Or.inr (Or.inr h))

theorem specialChecked_integer {j : JsonslSt} {b flags n : Nat} (h : j.InNumber b flags n)
    (hflags : isInteger flags = true) :
    ∃ e, j.specialChecked = .ok e ∧ popped e .special = poppedInteger b flags n := by
  obtain ⟨-, hpos, hj, hnelem⟩ := h
  subst hpos hnelem
  unfold specialChecked
  simp only [hj]
  rcases isInteger_cases hflags with rfl | rfl | rfl | rfl
  · refine ⟨_, rfl, ?_⟩
    simp only [popped, hj]
    rfl
  · refine ⟨_, rfl, ?_⟩
    simp only [popped, hj]
    rfl
  · refine ⟨_, rfl, ?_⟩
    simp only [popped]
    rfl
  · refine ⟨_, rfl, ?_⟩
    simp only [popped]
    rfl

theorem specialPop_integer {j : JsonslSt} {b flags n : Nat} (h : j.InNumber b flags n)
    (hflags : isInteger flags = true) (pos : Nat) (c : UInt8) :
    ∃ more, (j.specialPop pos c).1 = .pop (poppedInteger b flags n) :: more := by
  obtain ⟨e, hchecked, hpopped⟩ := specialChecked_integer h hflags
  unfold specialPop
  simp only [hchecked, callbackAndPop, top_setTop, hpopped]
  split
  · exact ⟨[], rfl⟩
  · exact ⟨_, rfl⟩

theorem InNumber.setFlags {j : JsonslSt} {b flags n : Nat} (h : j.InNumber b flags n) (flags' : Nat) :
    (j.setTop { j.top with specialFlags := flags' }).InNumber b flags' n := by
  refine ⟨?_, ?_, ?_, ?_⟩
  · rw [top_setTop, h.type]
  · rw [top_setTop, h.posBegin]
  · rw [top_setTop]
  · rw [top_setTop, h.nelem]

theorem specialNumericChar_end {j : JsonslSt} (pos : Nat) {c : UInt8} (hc : isSpecialEnd c = true) :
    j.specialNumericChar pos c = j.specialPop pos c := by
  obtain ⟨hdigit, hpoint, hexponent, hsign⟩ := specialEnd_notNumeral hc
  unfold specialNumericChar
  simp only [hdigit, Bool.false_eq_true, if_false, if_neg hpoint, if_neg hexponent, if_neg hsign,
    if_pos hc]

/-- The end of a literal. -/
theorem InNumber.ends {j : JsonslSt} {b flags n : Nat} (h : j.InNumber b flags n)
    (hflags : isInteger flags = true) (pos : Nat) {c : UInt8} (hc : isSpecialEnd c = true) :
    ∃ more, (j.feed pos c).1 = .pop (poppedInteger b flags n) :: more := by
  have hdigit : ¬ isDigit c = true := by
    rw [(specialEnd_notNumeral hc).1]
    decide
  rw [feed_special h.type]
  unfold specialChar
  rw [h.flags]
  rcases isInteger_cases hflags with rfl | rfl | rfl | rfl
  · rw [if_pos (by decide), if_neg hdigit, specialNumericChar_end pos hc]
    exact specialPop_integer h hflags pos c
  · rw [if_pos (by decide), if_neg hdigit, specialNumericChar_end pos hc]
    exact specialPop_integer h hflags pos c
  · -- a zero without a sign
    rw [if_neg (by decide), if_neg (by decide), if_pos rfl, if_neg hdigit,
      specialNumericChar_end pos hc]
    exact specialPop_integer (h.setFlags specialUnsigned) (by decide) pos c
  · rw [if_neg (by decide), if_neg (by decide), if_neg (by decide), if_pos (by decide),
      specialNumericChar_end pos hc]
    exact specialPop_integer h hflags pos c

end JsonslSt

/-! ## The tokens of a literal -/

theorem textTokens_quiet {j j' : JsonslSt} (pre : Bytes) {c : UInt8} (rest : Bytes)
    (h : jsonsl.feed j pre.length c = ([], j')) :
    textTokens jsonsl j pre (c :: rest) = textTokens jsonsl j' (pre ++ [c]) rest := by
  rw [textTokens, h]
  rfl

theorem textTokens_digits {j : JsonslSt} {b flags : Nat} {done : List (Fin 10)}
    (h : j.InNumber b flags (u64 (ofDigits done))) (hnormal : JsonslSt.isNormalNumber flags = true)
    (ds : List (Fin 10)) (pre rest : Bytes) :
    ∃ j', textTokens jsonsl j pre (digitTexts ds ++ rest) =
        textTokens jsonsl j' (pre ++ digitTexts ds) rest ∧
      j'.InNumber b flags (u64 (ofDigits (done ++ ds))) := by
  induction ds generalizing j done pre with
  | nil =>
    refine ⟨j, ?_, ?_⟩
    · rw [digitTexts, List.map_nil, List.nil_append, List.append_nil]
    · rw [List.append_nil]
      exact h
  | cons d ds ih =>
    obtain ⟨j₁, hfeed, h₁⟩ := h.digit hnormal pre.length d
    obtain ⟨j', htokens, h'⟩ := ih h₁ (pre ++ [digit d.val])
    refine ⟨j', ?_, ?_⟩
    · rw [digitTexts, List.map_cons, List.cons_append,
        textTokens_quiet pre _ (by exact hfeed), ← digitTexts, htokens, List.append_assoc,
        List.singleton_append]
    · rw [List.append_assoc, List.singleton_append] at h'
      exact h'

theorem ofDigits_one (d : Fin 10) : ofDigits [d] = d.val := by
  rw [ofDigits_cons, ofDigits_nil, List.length_nil, Nat.pow_zero, Nat.mul_one, Nat.add_zero]

theorem u64_small {n : Nat} (h : n < 10) : u64 n = n := Nat.mod_eq_of_lt (by omega)

theorem extractSpecial_digit {d : Fin 10} (hd : d ≠ 0) :
    extractSpecial (digit d.val) = specialUnsigned := by
  revert d
  decide

/-- The first character of a literal is not handed over. -/
theorem textTokens_begins {j : JsonslSt} (h : j.TakesValue) (pre : Bytes) {c : UInt8} (rest : Bytes)
    (hflags : extractSpecial c ≠ 0) (hspace : isAllowedWhitespace c = false) :
    ∃ j', textTokens jsonsl j pre (c :: rest) = textTokens jsonsl j' (pre ++ [c]) rest ∧
      j'.InNumber pre.length (extractSpecial c)
        (if extractSpecial c = specialUnsigned then (c - 48).toNat else 0) := by
  obtain ⟨j', hfeed, hin⟩ := JsonslSt.feed_begins h pre.length hflags hspace
  refine ⟨j', ?_, hin⟩
  have hlex : jsonsl.feed j pre.length c = ([.push .special pre.length], j') := hfeed
  rw [textTokens, hlex]
  rfl

/-- Digits that begin with none. -/
theorem textTokens_number {j : JsonslSt} {b flags : Nat} {d : Fin 10}
    (h : j.InNumber b flags d.val) (hnormal : JsonslSt.isNormalNumber flags = true)
    (ds : List (Fin 10)) (pre rest : Bytes) :
    ∃ j', textTokens jsonsl j pre (digitTexts ds ++ rest) =
        textTokens jsonsl j' (pre ++ digitTexts ds) rest ∧
      j'.InNumber b flags (u64 (ofDigits (d :: ds))) := by
  have hbegun : j.InNumber b flags (u64 (ofDigits [d])) := by
    rw [ofDigits_one, u64_small d.isLt]
    exact h
  exact textTokens_digits hbegun hnormal ds pre rest

theorem magnitude_pos {d : Fin 10} (hd : d ≠ 0) (ds : List (Fin 10)) : ofDigits (d :: ds) ≠ 0 := by
  have hle := le_ofDigits hd ds
  have hpos : 0 < 10 ^ ds.length := Nat.pow_pos (by decide)
  omega

/-- A literal up to its last digit. -/
theorem textTokens_integer {j : JsonslSt} (h : j.TakesValue) (l : JsonInteger) (pre rest : Bytes) :
    ∃ j' flags, textTokens jsonsl j pre (l.text ++ rest) =
        textTokens jsonsl j' (pre ++ l.text) rest ∧
      JsonslSt.isInteger flags = true ∧ (flags == specialSigned) = l.signed ∧
      j'.InNumber pre.length flags (u64 l.magnitude) := by
  obtain ⟨negative, digits, hproper⟩ := l
  cases negative with
  | false =>
    rcases hproper with rfl | ⟨d, ds, rfl, hd⟩
    · obtain ⟨j', htokens, hin⟩ := textTokens_begins h pre (c := 48) rest (by decide) (by decide)
      exact ⟨j', specialZero, htokens, by decide, rfl, hin⟩
    · obtain ⟨j₁, hfirst, h₁⟩ := textTokens_begins h pre (c := digit d.val) (digitTexts ds ++ rest)
        (by rw [extractSpecial_digit hd]; decide) (by revert d; decide)
      rw [extractSpecial_digit hd, if_pos rfl, digit_value] at h₁
      obtain ⟨j', hrest, hin⟩ := textTokens_number h₁ (by decide) ds (pre ++ [digit d.val]) rest
      refine ⟨j', specialUnsigned, ?_, by decide, rfl, hin⟩
      rw [List.append_assoc, List.singleton_append] at hrest
      exact hfirst.trans hrest
  | true =>
    obtain ⟨j₀, hminus, h₀⟩ := textTokens_begins h pre (c := 45) (digitTexts digits ++ rest)
      (by decide) (by decide)
    have hdash : j₀.InNumber pre.length specialDash 0 := h₀
    rcases hproper with rfl | ⟨d, ds, rfl, hd⟩
    · obtain ⟨j', hfeed, hin⟩ := hdash.negative (pre ++ [45]).length 0
      have hzero := textTokens_quiet (pre ++ [45]) rest hfeed
      refine ⟨j', specialZero ||| specialSigned, ?_, by decide, rfl, hin⟩
      rw [List.append_assoc, List.singleton_append] at hzero
      exact hminus.trans hzero
    · obtain ⟨j₁, hfeed, h₁⟩ := hdash.negative (pre ++ [45]).length d
      rw [if_neg hd, if_neg hd] at h₁
      have hfirst := textTokens_quiet (pre ++ [45]) (digitTexts ds ++ rest) hfeed
      obtain ⟨j', hrest, hin⟩ :=
        textTokens_number h₁ (by decide) ds (pre ++ [45] ++ [digit d.val]) rest
      refine ⟨j', specialSigned, ?_, by decide, ?_, hin⟩
      · refine hminus.trans (hfirst.trans (hrest.trans ?_))
        rw [List.append_assoc, List.append_assoc]
        rfl
      · have hne := magnitude_pos hd ds
        exact (bne_iff_ne.mpr hne).symm

/-- An integer literal, behind which something ends it, is one event. -/
theorem textTokens_literal {j : JsonslSt} (h : j.TakesValue) (l : JsonInteger) {c : UInt8}
    (hc : isSpecialEnd c = true) (pre rest : Bytes) :
    ∃ ts, textTokens jsonsl j pre (l.text ++ c :: rest) = .event l.event :: ts := by
  obtain ⟨j', flags, htokens, hinteger, hsigned, hin⟩ := textTokens_integer h l pre (c :: rest)
  obtain ⟨more, hends⟩ := hin.ends hinteger (pre ++ l.text).length hc
  have htext : l.text ≠ [] := by
    obtain ⟨negative, digits, hproper⟩ := l
    intro hnil
    have hdigits : digitTexts digits = [] := (List.append_eq_nil_iff.mp hnil).2
    rcases hproper with rfl | ⟨d, ds, rfl, -⟩
    · cases hdigits
    · cases hdigits
  have hlen : ¬ (pre ++ l.text).length ≤ pre.length := by
    have hpos := List.length_pos_iff.mpr htext
    rw [List.length_append]
    omega
  have hpopped : popToken jsonsl (pre ++ l.text)
      (JsonslSt.poppedInteger pre.length flags (u64 l.magnitude)) = .event l.event := by
    rw [popToken, JsonslSt.poppedInteger, tokenText]
    simp only [if_neg hlen, List.drop_left, hsigned]
    rfl
  refine ⟨actionTokens jsonsl (jsonsl.feed j' (pre ++ l.text).length c).2 (pre ++ l.text) c rest more ++
    textTokens jsonsl (jsonsl.feed j' (pre ++ l.text).length c).2 (pre ++ l.text ++ [c]) rest,
    htokens.trans ?_⟩
  have hactions : (jsonsl.feed j' (pre ++ l.text).length c).1 =
      .pop (JsonslSt.poppedInteger pre.length flags (u64 l.magnitude)) :: more := hends
  rw [textTokens]
  simp only [hactions, actionTokens, hpopped, List.cons_append]

end LibBson.Source
