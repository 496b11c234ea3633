import LibBson.Source.Strtoll

/-!
# Integers read from text

What `bson_ascii_strtoll` is documented to convert, and where it does not: a text that
starts with a letter digit is refused, and one without digits is read as zero when a sign
or a decimal digit stands at its start. Source: bson-string.c:669-807.
-/

set_option autoImplicit false

namespace LibBson.Guarantees
open LibBson.Library LibBson.Source

/-- How the text of a number is to be read. -/
structure NumberText where
  negative : Bool
  base : Nat
  digits : Bytes

/-- A `0x` stands at the start. -/
def HexPrefixed (t : Bytes) : Prop :=
  t.head? = some 48 ∧ (t[1]? = some 120 ∨ t[1]? = some 88)

instance (t : Bytes) : Decidable (HexPrefixed t) := inferInstanceAs (Decidable (_ ∧ _))

/-- The base of the digits behind the sign, and the text that they are to start. -/
def numberBase (base : Nat) (t : Bytes) : Nat × Bytes :=
  if (base = 0 ∨ base = 16) ∧ HexPrefixed t then (16, t.drop 2)
  else if base ≠ 0 then (base, t)
  else if t.head? = some 48 then (8, t)
  else (10, t)

/-- The parts of `s`: white space, a sign, a prefix and what is to start with digits. -/
def numberText (base : Nat) (s : Bytes) : NumberText :=
  let t := s.dropWhile isSpace
  let behind := if t.head? = some 45 ∨ t.head? = some 43 then t.tail else t
  { negative := t.head? = some 45
    base := (numberBase base behind).1
    digits := (numberBase base behind).2 }

namespace NumberText

variable (n : NumberText)

/-- The magnitude of the longest run of digits. -/
def magnitude : Nat := numeralFrom n.base 0 (digitRun n.base n.digits)

/-- The documented conversion. -/
def Converted (r : StrtollResult) : Prop :=
  if digitRun n.base n.digits = [] then r.value = 0 ∧ r.errno = .einval
  else if n.magnitude ≤ signedLimit n.negative then
    r = ⟨signed n.negative n.magnitude, .zero, some (behindRun n.base n.digits)⟩
  else r.value = (if n.negative then int64Min else int64Max) ∧ r.errno = .erange

instance (r : StrtollResult) : Decidable (n.Converted r) :=
  inferInstanceAs (Decidable (ite _ _ _))

end NumberText

/-- A sign or a decimal digit stands behind the white space. -/
def StartsNumber (s : Bytes) : Prop :=
  ∃ b rest, s.dropWhile isSpace = b :: rest ∧ (b = 43 ∨ b = 45 ∨ isDigit b = true)

theorem headD_eq_iff {t : Bytes} {b : UInt8} (hb : b ≠ 0) : t.headD 0 = b ↔ t.head? = some b := by
  cases t with
  | nil => simp [hb.symm]
  | cons x rest => simp

theorem getD_one_eq_iff {t : Bytes} {b : UInt8} (hb : b ≠ 0) :
    t.getD 1 0 = b ↔ t[1]? = some b := by
  rw [List.getD_eq_getElem?_getD]
  cases t[1]? with
  | none => simp [hb.symm]
  | some x => simp

/-- A digit of the base stands where the digits are to start. -/
def HasDigit (base : Nat) (s : Bytes) : Prop :=
  digitRun (numberText base s).base (numberText base s).digits ≠ []

theorem strtollBase_eq (base : Nat) (t : Bytes) : strtollBase base t = numberBase base t := by
  have hprefix : (t.headD 0 = 48 ∧ (t.getD 1 0 = 120 ∨ t.getD 1 0 = 88)) ↔ HexPrefixed t := by
    rw [headD_eq_iff (by decide), getD_one_eq_iff (by decide), getD_one_eq_iff (by decide)]
    rfl
  have hzero : t.headD 0 = 48 ↔ t.head? = some 48 := headD_eq_iff (by decide)
  rw [strtollBase, numberBase]
  by_cases hhex : (base = 0 ∨ base = 16) ∧ HexPrefixed t
  · rw [if_pos hhex, if_pos ⟨hhex.1, hprefix.mpr hhex.2⟩]
  · rw [if_neg hhex, if_neg fun h => hhex ⟨h.1, hprefix.mp h.2⟩]
    by_cases hbase : base = 0
    · rw [if_pos hbase, if_neg (not_not.mpr hbase)]
      by_cases h48 : t.head? = some 48
      · rw [if_pos h48, if_pos (hzero.mpr h48)]
      · rw [if_neg h48, if_neg fun h => h48 (hzero.mp h)]
    · rw [if_neg hbase, if_pos hbase]

theorem numberBase_pos (base : Nat) (t : Bytes) : 0 < (numberBase base t).1 := by
  unfold numberBase
  split
  · exact Nat.succ_pos 15
  · split
    next hbase => exact Nat.pos_of_ne_zero hbase
    next => split <;> exact Nat.succ_pos _

theorem digitRun_length_pos {base : Nat} {s : Bytes} :
    (behindRun base s).length < s.length ↔ digitRun base s ≠ [] := by
  have hle := digitRun_length_le base s
  rw [behindRun_length, ne_eq, ← List.length_eq_zero_iff]
  omega

/-- Behind a sign or in front of a decimal digit the conversion is the documented one if
and only if there is a digit of the base. -/
theorem strtollUnsigned_converted_iff (base : Nat) (negative : Bool) (t : Bytes) :
    NumberText.Converted ⟨negative, (numberBase base t).1, (numberBase base t).2⟩
        (strtollUnsigned (signed negative 1) base t) ↔
      digitRun (numberBase base t).1 (numberBase base t).2 ≠ [] := by
  have hpos := numberBase_pos base t
  simp only [strtollUnsigned, strtollBase_eq, strtollCutoff_eq]
  generalize numberBase base t = start at hpos ⊢
  obtain ⟨b, digits⟩ := start
  have hnumber : (0 : Int) = signed negative 0 := by cases negative <;> rfl
  simp only [NumberText.Converted, NumberText.magnitude]
  rw [hnumber]
  by_cases hfit : numeralFrom b 0 (digitRun b digits) ≤ signedLimit negative
  · rw [strtollLoop_fits hpos digits hfit]
    by_cases hrun : digitRun b digits = []
    · -- no digit: zero without an error
      rw [if_pos hrun]
      exact ⟨fun h => absurd h.2 (fun herr => nomatch herr), fun h => absurd hrun h⟩
    · simp only [if_neg hrun, if_pos hfit, if_pos (digitRun_length_pos.mpr hrun)]
      exact ⟨fun _ => hrun, fun _ => trivial⟩
  · obtain ⟨tok, hloop⟩ := strtollLoop_past digits (Nat.zero_le _) (Nat.not_le.mp hfit)
    have hrun : digitRun b digits ≠ [] := by
      intro h
      rw [h] at hfit
      exact hfit (Nat.zero_le _)
    rw [hloop, if_neg hrun, if_neg hfit]
    refine ⟨fun _ => hrun, fun _ => ⟨?_, rfl⟩⟩
    cases negative <;> rfl

/-- A text that the source refuses is one without digits. -/
theorem refused_converted_iff (n : NumberText) :
    n.Converted { value := 0, errno := .einval, endptr := none } ↔
      digitRun n.base n.digits = [] := by
  unfold NumberText.Converted
  constructor
  · intro h
    by_contra hrun
    rw [if_neg hrun] at h
    split at h
    · cases congrArg StrtollResult.errno h
    · cases h.2
  · intro hrun
    rw [if_pos hrun]
    exact ⟨rfl, rfl⟩

/-- The conversion of every text is the documented one if and only if the text starts with
a sign or a decimal digit exactly when it has a digit of the base. -/
theorem ascii_strtoll_iff (base : Nat) (s : Bytes) :
    (numberText base s).Converted (bsonAsciiStrtoll (some s) base) ↔
      (StartsNumber s ↔ HasDigit base s) := by
  have hstart : ∀ {b : UInt8} {rest : Bytes}, s.dropWhile isSpace = b :: rest →
      (StartsNumber s ↔ b = 43 ∨ b = 45 ∨ isDigit b = true) := by
    intro b rest htext
    constructor
    · intro h
      obtain ⟨b', rest', htext', hb⟩ := h
      rw [htext] at htext'
      rwa [(List.cons.inj htext').1]
    · exact fun hb => ⟨b, rest, htext, hb⟩
  unfold HasDigit
  simp only [bsonAsciiStrtoll, numberText]
  match htext : s.dropWhile isSpace with
  | [] =>
    have hnone : ¬ StartsNumber s := by
      intro h
      obtain ⟨b, rest, h', -⟩ := h
      rw [htext] at h'
      cases h'
    have hsign : strtollSign [] = none := rfl
    rw [hsign]
    simp only [refused_converted_iff, hnone, false_iff, not_not]
  | b :: rest =>
    rw [hstart htext]
    by_cases hminus : b = 45
    · have hsign : strtollSign (b :: rest) = some (-1, rest) := by rw [hminus]; rfl
      have hhead : (b :: rest).head? = some 45 := congrArg some hminus
      rw [hsign, if_pos (Or.inl hhead)]
      simp only [hminus, true_or, or_true, true_iff, List.tail_cons]
      exact strtollUnsigned_converted_iff base true rest
    · have hhead : ¬ (b :: rest).head? = some 45 := fun h => hminus (Option.some.inj h)
      by_cases hplus : b = 43
      · have hsign : strtollSign (b :: rest) = some (1, rest) := by rw [hplus]; rfl
        have hhead' : (b :: rest).head? = some 43 := congrArg some hplus
        rw [hsign, if_pos (Or.inr hhead')]
        simp only [hplus, true_or, true_iff, List.tail_cons]
        exact strtollUnsigned_converted_iff base false rest
      · have hnot : ¬ ((b :: rest).head? = some 45 ∨ (b :: rest).head? = some 43) :=
          not_or.mpr ⟨hhead, fun h => hplus (Option.some.inj h)⟩
        have hsign : strtollSign (b :: rest) =
            if isDigit b then some (1, b :: rest) else none := by
          rw [strtollSign, List.headD_cons, if_neg hminus, if_neg hplus]
        rw [hsign, if_neg hnot]
        simp only [hminus, hplus, hhead, false_or, decide_false]
        by_cases hdigit : isDigit b = true
        · rw [if_pos hdigit]
          simp only [hdigit, true_iff]
          exact strtollUnsigned_converted_iff base false (b :: rest)
        · rw [if_neg hdigit]
          simp only [refused_converted_iff, hdigit, false_iff, not_not, Bool.false_eq_true]

/-- A letter digit in front, a sign alone, and a digit that the base does not have. -/
theorem ascii_strtoll_not_documented :
    bsonAsciiStrtoll (some [102, 102]) 16 = ⟨0, .einval, none⟩ ∧
      ¬ (numberText 16 [102, 102]).Converted (bsonAsciiStrtoll (some [102, 102]) 16) ∧
      bsonAsciiStrtoll (some [45]) 10 = ⟨0, .zero, none⟩ ∧
      ¬ (numberText 10 [45]).Converted (bsonAsciiStrtoll (some [45]) 10) ∧
      bsonAsciiStrtoll (some [57]) 8 = ⟨0, .zero, none⟩ ∧
      ¬ (numberText 8 [57]).Converted (bsonAsciiStrtoll (some [57]) 8) := by
  decide +kernel

end LibBson.Guarantees
