import LibBson.Source.Decimal128
import LibBson.Spec.Decimal
import Mathlib.Data.List.TakeWhile

/-!
# Reading the text of a numeral

What the digit loop knows behind a digit string, and what `sscanf` reads of an
exponent. Conversely, what is accepted is the text of a numeral, except that
white space may stand behind the `E`.
-/

set_option autoImplicit false

namespace LibBson.Source
open LibBson.Library LibBson.Spec

/-! ## The digit loop -/

/-- The digits from the first one that is not zero. -/
def fromNonzero (ds : List (Fin 10)) : List (Fin 10) := ds.dropWhile (· = 0)

theorem fromNonzero_concat (ds : List (Fin 10)) (d : Fin 10) :
    fromNonzero (ds ++ [d]) =
      if fromNonzero ds = [] then (if d = 0 then [] else [d]) else fromNonzero ds ++ [d] := by
  unfold fromNonzero
  rw [List.dropWhile_append]
  cases h : ds.dropWhile (· = 0) with
  | nil => by_cases hd : d = 0 <;> simp [hd]
  | cons c cs => simp

/-- Zeros and the digits behind them. -/
theorem eq_zeros_append (ds : List (Fin 10)) :
    ds = List.replicate (ds.length - (fromNonzero ds).length) 0 ++ fromNonzero ds := by
  unfold fromNonzero
  induction ds with
  | nil => rfl
  | cons d ds ih =>
    by_cases hd : d = 0
    · have hle : (ds.dropWhile (· = 0)).length ≤ ds.length :=
        (List.dropWhile_suffix _).length_le
      rw [List.dropWhile_cons_of_pos (by simpa using hd), List.length_cons,
        show ds.length + 1 - (ds.dropWhile (· = 0)).length =
          ds.length - (ds.dropWhile (· = 0)).length + 1 by omega, List.replicate_succ,
        List.cons_append, ← ih, hd]
    · rw [List.dropWhile_cons_of_neg (by simpa using hd)]
      simp

theorem getD_fromNonzero (ds : List (Fin 10)) (j : Nat) :
    ds.getD (ds.length - (fromNonzero ds).length + j) 0 = (fromNonzero ds).getD j 0 := by
  have hz := eq_zeros_append ds
  generalize ds.length - (fromNonzero ds).length = k at *
  have hget := congrArg (fun l => l.getD (k + j) 0) hz
  rw [hget, List.getD_eq_getElem?_getD, List.getElem?_append_right (by simp),
    List.length_replicate, Nat.add_sub_cancel_left, ← List.getD_eq_getElem?_getD]

theorem ofDigits_fromNonzero (ds : List (Fin 10)) : ofDigits (fromNonzero ds) = ofDigits ds := by
  conv_rhs => rw [eq_zeros_append ds]
  rw [ofDigits_append, ofDigits_replicate]
  simp

theorem fromNonzero_lead {ds : List (Fin 10)} {d : Fin 10} {rest : List (Fin 10)}
    (h : fromNonzero ds = d :: rest) : d ≠ 0 := by
  intro h0
  have := List.head?_dropWhile_not (p := (· = (0 : Fin 10))) ds
  unfold fromNonzero at h
  rw [h] at this
  simp [h0] at this

/-- The state of the loop behind the digits `ds`, `f` of them behind the radix. -/
def scanOf (sawRadix : Bool) (ds : List (Fin 10)) (f : Nat) : DigitScan :=
  { sawRadix := sawRadix
    foundNonzero := !(fromNonzero ds).isEmpty
    firstNonzero := if fromNonzero ds = [] then 0 else ds.length - (fromNonzero ds).length
    digits := ((fromNonzero ds).take 34).map Fin.val
    ndigits := (fromNonzero ds).length
    radixPosition := f
    ndigitsRead := ds.length }

theorem take_scanOf (sawRadix : Bool) (ds : List (Fin 10)) (f : Nat) (d : Fin 10) :
    (scanOf sawRadix ds f).take (digit d.val) =
      scanOf sawRadix (ds ++ [d]) (if sawRadix then f + 1 else f) := by
  have h48 : digit d.val = 48 ↔ d = 0 := by
    revert d
    decide
  have hval : (digit d.val).toNat - 48 = d.val := by
    rw [digit_toNat]
    omega
  unfold DigitScan.take
  rw [scanOf, scanOf, fromNonzero_concat]
  cases hrest : fromNonzero ds with
  | nil =>
    by_cases hd : d = 0
    · rw [if_neg (by simpa using h48.mpr hd)]
      simp [hd]
    · rw [if_pos (by simpa [h48] using hd)]
      simp [hd, hval]
  | cons c cs =>
    by_cases hlen : (c :: cs).length < 34
    · have htake : ((c :: cs).take 34).map Fin.val ++ [d.val] =
          (((c :: cs) ++ [d]).take 34).map Fin.val := by
        rw [List.take_of_length_le (by omega),
          List.take_of_length_le (by rw [List.length_append, List.length_singleton]; omega)]
        simp
      rw [if_pos (by
        refine ⟨?_, Or.inr rfl⟩
        simp only [List.length_map, List.length_take]
        omega)]
      simp only [hval, htake]
      simp
    · have htake : (c :: cs).take 34 = ((c :: cs) ++ [d]).take 34 := by
        rw [List.take_append_of_le_length (by omega)]
      rw [if_neg (by
        simp only [List.length_map, List.length_take]
        omega), htake]
      simp

theorem isdigit_digit (d : Fin 10) : isdigit (digit d.val) = true := by
  revert d
  decide

theorem isdigit_iff {c : UInt8} : isdigit c = true ↔ ∃ d : Fin 10, c = digit d.val := by
  constructor
  · intro h
    have hc := of_decide_eq_true h
    rw [UInt8.le_iff_toNat_le, UInt8.le_iff_toNat_le] at hc
    have h1 : (48 : UInt8).toNat = 48 := rfl
    have h2 : (57 : UInt8).toNat = 57 := rfl
    refine ⟨⟨c.toNat - 48, by omega⟩, UInt8.toNat_inj.mp ?_⟩
    rw [digit_toNat]
    show c.toNat = 48 + (c.toNat - 48)
    omega
  · rintro ⟨d, rfl⟩
    exact isdigit_digit d

theorem not_isdigit {c : UInt8} (h : NotDigit c) : isdigit c = false := by
  cases hc : isdigit c with
  | false => rfl
  | true =>
    obtain ⟨d, hd⟩ := isdigit_iff.mp hc
    exact absurd hd.symm (digit_ne h d)

/-- A run over digits. -/
theorem readDigits_digits (sawRadix : Bool) (ds : List (Fin 10)) (more : List (Fin 10)) (f : Nat)
    (tail : Bytes) :
    readDigits (digitText more ++ tail) (scanOf sawRadix ds f) =
      readDigits tail (scanOf sawRadix (ds ++ more) (if sawRadix then f + more.length else f)) := by
  induction more generalizing ds f with
  | nil => simp [digitText]
  | cons d more ih =>
    have hdot : digit d.val ≠ 46 := digit_ne (by decide) d
    rw [show digitText (d :: more) ++ tail = digit d.val :: (digitText more ++ tail) from rfl,
      readDigits, if_neg hdot, if_pos (isdigit_digit d), take_scanOf, ih, List.append_assoc,
      List.singleton_append]
    cases sawRadix with
    | false => rfl
    | true => simp only [if_true, List.length_cons, show f + 1 + more.length = f + (more.length + 1) by omega]

theorem readDigits_stop {s : DigitScan} {tail : Bytes}
    (h : ∀ c ∈ tail.head?, NotDigit c ∧ c ≠ 46) : readDigits tail s = some (s, tail) := by
  cases tail with
  | nil => rfl
  | cons c tail =>
    obtain ⟨hd, hdot⟩ := h c rfl
    rw [readDigits, if_neg hdot, not_isdigit hd]
    rfl

/-- Digits, and what stands behind a radix. -/
theorem readDigits_mantissa (whole : List (Fin 10)) (fraction : Option (List (Fin 10)))
    {tail : Bytes} (h : ∀ c ∈ tail.head?, NotDigit c ∧ c ≠ 46) :
    readDigits (digitText whole ++ (Numeral.fractionText fraction ++ tail)) DigitScan.new =
      some (scanOf fraction.isSome (whole ++ fraction.getD []) (fraction.getD []).length, tail) := by
  have hnew : DigitScan.new = scanOf false [] 0 := rfl
  rw [hnew, readDigits_digits]
  cases fraction with
  | none =>
    rw [show Numeral.fractionText none ++ tail = tail from rfl, readDigits_stop h]
    simp
  | some ds =>
    rw [show Numeral.fractionText (some ds) ++ tail = 46 :: (digitText ds ++ tail) from rfl,
      readDigits, if_pos rfl]
    show readDigits (digitText ds ++ tail) (scanOf true ([] ++ whole) 0) = _
    rw [readDigits_digits, readDigits_stop h]
    simp

/-! ## The exponent -/

theorem takeWhile_digits (ds : List (Fin 10)) (tail : Bytes) (h : ∀ c ∈ tail.head?, NotDigit c) :
    (digitText ds ++ tail).takeWhile isdigit = digitText ds ∧
      (digitText ds ++ tail).dropWhile isdigit = tail := by
  induction ds with
  | nil =>
    cases tail with
    | nil => exact ⟨rfl, rfl⟩
    | cons c tail =>
      have hc := not_isdigit (h c rfl)
      simp [digitText, hc]
  | cons d ds ih =>
    rw [show digitText (d :: ds) ++ tail = digit d.val :: (digitText ds ++ tail) from rfl,
      List.takeWhile_cons_of_pos (isdigit_digit d), List.dropWhile_cons_of_pos (isdigit_digit d),
      ih.1, ih.2]
    exact ⟨rfl, rfl⟩

theorem scanNumber_digits (ds : List (Fin 10)) : scanNumber (digitText ds) = ofDigits ds := by
  have h : ∀ (ds : List (Fin 10)) (n : Nat),
      (digitText ds).foldl (fun n c => n * 10 + (c.toNat - 48)) n =
        ds.foldl (fun n d => n * 10 + d.val) n := by
    intro ds
    induction ds with
    | nil => intro n; rfl
    | cons d ds ih =>
      intro n
      have hd : (digit d.val).toNat - 48 = d.val := by rw [digit_toNat]; omega
      rw [show digitText (d :: ds) = digit d.val :: digitText ds from rfl, List.foldl_cons, hd, ih,
        List.foldl_cons]
  exact h ds 0

/-- What an `int` holds of a number. -/
def toInt32 (wide : Int → BitVec 32) (x : Int) : Int :=
  if -2147483648 ≤ x ∧ x ≤ 2147483647 then x else (wide x).toInt

theorem sscanf_text (wide : Int → BitVec 32) (spaces : Bytes) (e : ExponentPart)
    (hs : ∀ c ∈ spaces, isspace c = true) :
    sscanf wide (spaces ++ (signText e.sign ++ digitText e.digits)) =
      some (toInt32 wide e.value, []) := by
  have hdig := takeWhile_digits e.digits [] (by simp)
  rw [List.append_nil] at hdig
  obtain ⟨d, ds, hd⟩ := List.exists_cons_of_ne_nil e.nonempty
  have htext : digitText e.digits = digit d.val :: digitText ds := by rw [hd]; rfl
  have hnospace : ∀ d : Fin 10,
      isspace (digit d.val) = false ∧ digit d.val ≠ 45 ∧ digit d.val ≠ 43 := by decide
  have hdrop : (spaces ++ (signText e.sign ++ digitText e.digits)).dropWhile isspace =
      signText e.sign ++ digitText e.digits := by
    rw [List.dropWhile_append_of_pos hs]
    rcases e.sign with - | - | -
    · rw [htext]
      simp [signText, (hnospace d).1]
    · rfl
    · rfl
  have hne : digitText e.digits ≠ [] := by rw [htext]; simp
  unfold sscanf toInt32 ExponentPart.value
  rw [hdrop]
  rcases he : e.sign with - | - | -
  · have hmatch : signText none ++ digitText e.digits = digit d.val :: digitText ds := htext
    rw [hmatch]
    simp only [(hnospace d).2.1, (hnospace d).2.2, if_false, ← htext, hdig.1, hdig.2, hne,
      scanNumber_digits]
    rfl
  · have hplus : (43 : UInt8) ≠ 45 := by decide
    simp only [signText, List.singleton_append, hplus, if_false, if_true, hdig.1, hdig.2, hne,
      scanNumber_digits]
    rfl
  · simp only [signText, List.singleton_append, if_true, if_false, hdig.1, hdig.2, hne,
      scanNumber_digits]

/-! ## The whole string -/

/-- The text of an exponent with white space behind the `E`. -/
def spacedExponent (spaces : Bytes) : Option ExponentPart → Bytes
  | none => []
  | some e => (if e.lower then 101 else 69) :: (spaces ++ (signText e.sign ++ digitText e.digits))

/-- The text of a numeral with white space behind the `E`. -/
def spacedText (n : Numeral) (spaces : Bytes) : Bytes :=
  signText n.sign ++
    (digitText n.whole ++ (Numeral.fractionText n.fraction ++ spacedExponent spaces n.exponent))

theorem spacedText_nil (n : Numeral) : spacedText n [] = n.text := by
  unfold spacedText Numeral.text
  cases n.exponent <;> rfl

theorem spacedExponent_head (spaces : Bytes) (e : Option ExponentPart) :
    ∀ c ∈ (spacedExponent spaces e).head?, NotDigit c ∧ c ≠ 46 := by
  intro c hc
  cases e with
  | none => simp [spacedExponent] at hc
  | some e =>
    obtain rfl : (if e.lower then 101 else 69) = c := by simpa [spacedExponent] using hc
    cases e.lower <;> decide

/-- Digits or a radix: what follows the sign. -/
theorem spaced_head (n : Numeral) (spaces : Bytes) :
    ∃ c rest, digitText n.whole ++
        (Numeral.fractionText n.fraction ++ spacedExponent spaces n.exponent) = c :: rest ∧
      (isdigit c = true ∨ c = 46) := by
  cases hw : n.whole with
  | cons d ds => exact ⟨digit d.val, _, rfl, Or.inl (isdigit_digit d)⟩
  | nil =>
    cases hf : n.fraction with
    | none => exact absurd (by simp [hw, hf]) n.nonempty
    | some ds => exact ⟨46, _, rfl, Or.inr rfl⟩

/-- With white space in front of an exponent the text is that of no numeral. -/
theorem spacedText_eq_text {m n : Numeral} {spaces : Bytes}
    (hs : ∀ c ∈ spaces, isspace c = true) (h : spacedText n spaces = m.text) :
    n = m ∧ (n.exponent = none ∨ spaces = []) := by
  have hfraction : ∀ (f : Option (List (Fin 10))) (e : Option ExponentPart),
      ∀ c ∈ (Numeral.fractionText f ++ spacedExponent spaces e).head?, NotDigit c := by
    intro f e c hc
    cases f with
    | none => exact (spacedExponent_head spaces e c hc).1
    | some ds =>
      obtain rfl : 46 = c := by simpa [Numeral.fractionText] using hc
      decide
  have hsign : ∀ c ∈ (digitText n.whole ++ (Numeral.fractionText n.fraction ++
      spacedExponent spaces n.exponent)).head?, c ≠ 43 ∧ c ≠ 45 := by
    obtain ⟨b, rest, hb, hcase⟩ := spaced_head n spaces
    intro c hc
    obtain rfl : b = c := by simpa [hb] using hc
    obtain hd | rfl := hcase
    · obtain ⟨d, rfl⟩ := isdigit_iff.mp hd
      exact ⟨digit_ne (by decide) d, digit_ne (by decide) d⟩
    · decide
  obtain ⟨h1, hm⟩ := signText_append_inj hsign m.mantissa_ne_sign h
  obtain ⟨h2, hr⟩ := digitText_append_inj (hfraction _ _) (Numeral.notDigit_fraction _ _) hm
  have hempty : ∀ e f : ExponentPart, spacedExponent spaces (some e) = f.text → spaces = [] := by
    intro e f hef
    obtain ⟨-, htail⟩ := List.cons.inj hef
    cases spaces with
    | nil => rfl
    | cons c spaces =>
      obtain ⟨d, ds, hd⟩ := List.exists_cons_of_ne_nil f.nonempty
      have hspace := hs c (by simp)
      have hno : ∀ d : Fin 10, isspace (digit d.val) = false := by decide
      rcases hfs : f.sign with - | - | - <;> rw [hfs, hd] at htail <;>
        obtain ⟨rfl, -⟩ := List.cons.inj htail
      · exact absurd hspace (by rw [hno]; decide)
      · exact absurd hspace (by decide)
      · exact absurd hspace (by decide)
  have htext : n.exponent = none ∨ spaces = [] := by
    cases he : n.exponent with
    | none => exact Or.inl rfl
    | some e =>
      right
      rw [he] at hr
      cases hmf : m.fraction with
      | none =>
        cases hnf : n.fraction with
        | none =>
          cases hme : m.exponent with
          | none =>
            rw [hnf, hmf, hme] at hr
            exact absurd hr (by simp [Numeral.fractionText, spacedExponent, Numeral.exponentText])
          | some f =>
            rw [hnf, hmf, hme] at hr
            exact hempty e f hr
        | some ds =>
          rw [hnf, hmf] at hr
          exact absurd rfl ((Numeral.notDigit_exponentText m.exponent 46 (by
            rw [← List.nil_append (Numeral.exponentText m.exponent)]
            exact (congrArg List.head? hr).symm ▸ rfl)).2)
      | some ds' =>
        cases hnf : n.fraction with
        | none =>
          rw [hnf, hmf] at hr
          exact absurd rfl ((spacedExponent_head spaces (some e) 46 (by
            rw [← List.nil_append (spacedExponent spaces (some e))]
            exact (congrArg List.head? hr) ▸ rfl)).2)
        | some ds =>
          rw [hnf, hmf] at hr
          obtain ⟨-, hx⟩ := digitText_append_inj
            (fun c hc => (spacedExponent_head spaces (some e) c hc).1)
            (fun c hc => (Numeral.notDigit_exponentText m.exponent c hc).1) (List.cons.inj hr).2
          cases hme : m.exponent with
          | none =>
            rw [hme] at hx
            exact absurd hx (by simp [spacedExponent, Numeral.exponentText])
          | some f =>
            rw [hme] at hx
            exact hempty e f hx
  refine ⟨?_, htext⟩
  apply Numeral.text_injective
  rw [← h, ← spacedText_nil]
  obtain he | rfl := htext
  · unfold spacedText
    rw [he]
    rfl
  · rfl

section Text

variable (wide : Int → BitVec 32) (stray : Nat → BitVec 16)

theorem readExponent_spaced {spaces : Bytes} (e : Option ExponentPart)
    (hs : ∀ c ∈ spaces, isspace c = true) :
    readExponent wide (spacedExponent spaces e) =
      some (toInt32 wide (e.elim 0 ExponentPart.value)) := by
  cases e with
  | none => rfl
  | some e =>
    have hmarker : (if e.lower then (101 : UInt8) else 69) = 101 ∨
        (if e.lower then (101 : UInt8) else 69) = 69 := by
      cases e.lower
      · exact Or.inr rfl
      · exact Or.inl rfl
    rw [spacedExponent, readExponent, if_pos hmarker, sscanf_text wide spaces e hs]
    rfl

/-- What is left to do once the text of a numeral is read. -/
theorem fromString_spaced (n : Numeral) {spaces : Bytes} (hs : ∀ c ∈ spaces, isspace c = true) :
    bsonDecimal128FromString wide stray (spacedText n spaces) =
      match encodeScan stray (spacedText n spaces) n.negative n.sign.isSome
        (scanOf n.fraction.isSome n.digits (n.fraction.getD []).length)
        (toInt32 wide n.power) with
      | some dec => (true, dec)
      | none => (false, decimalNan) := by
  obtain ⟨c, rest, hcr, hc⟩ := spaced_head n spaces
  have hnumber : readNumber wide stray (spacedText n spaces) (c :: rest) n.negative
      n.sign.isSome = encodeScan stray (spacedText n spaces) n.negative n.sign.isSome
        (scanOf n.fraction.isSome n.digits (n.fraction.getD []).length)
        (toInt32 wide n.power) := by
    have hread : ¬ ((scanOf n.fraction.isSome n.digits (n.fraction.getD []).length).sawRadix = true ∧
        (scanOf n.fraction.isSome n.digits (n.fraction.getD []).length).ndigitsRead = 0) := by
      rintro ⟨-, h0⟩
      exact n.nonempty (List.length_eq_zero_iff.mp h0)
    rw [readNumber, ← hcr, readDigits_mantissa _ _ (spacedExponent_head spaces n.exponent)]
    simp only [Numeral.digits] at hread ⊢
    rw [if_neg hread, readExponent_spaced wide n.exponent hs]
    rfl
  have hbegin : isdigit ((c :: rest).headD 0) = true ∨ (c :: rest).headD 0 = 46 := hc
  have hsign : c ≠ 43 ∧ c ≠ 45 := by
    obtain hc | rfl := hc
    · obtain ⟨d, rfl⟩ := isdigit_iff.mp hc
      exact ⟨digit_ne (by decide) d, digit_ne (by decide) d⟩
    · decide
  have htext : spacedText n spaces = signText n.sign ++ c :: rest := by rw [spacedText, hcr]
  rw [← hnumber]
  unfold bsonDecimal128FromString
  rcases hsn : n.sign with - | - | -
  · have hneg : n.negative = false := by rw [Numeral.negative, hsn]; rfl
    have hmatch : spacedText n spaces = c :: rest := by rw [htext, hsn]; rfl
    have hcond : ¬ (c = 43 ∨ c = 45) := by simpa using hsign
    rw [hmatch]
    simp only [if_neg hcond, if_pos hbegin, hneg]
    rfl
  · have hneg : n.negative = false := by rw [Numeral.negative, hsn]; rfl
    have hmatch : spacedText n spaces = 43 :: c :: rest := by rw [htext, hsn]; rfl
    rw [hmatch]
    simp only [true_or, if_true, if_pos hbegin, hneg]
    rfl
  · have hneg : n.negative = true := by rw [Numeral.negative, hsn]; rfl
    have hmatch : spacedText n spaces = 45 :: c :: rest := by rw [htext, hsn]; rfl
    rw [hmatch]
    simp only [or_true, if_true, if_pos hbegin, hneg]
    rfl

end Text

/-! ## What is no numeral -/

theorem dec128Istreq_iff (a b : Bytes) :
    dec128Istreq a b = true ↔ a.map dec128Tolower = b.map dec128Tolower := by
  induction a generalizing b with
  | nil => cases b <;> simp [dec128Istreq]
  | cons x a ih => cases b <;> simp [dec128Istreq, ih]

/-- A sign, and an infinity or a NaN in letters of either case. -/
def Spelled (s : Bytes) : Prop :=
  ∃ (sign : Option Bool) (word : Bytes), s = signText sign ++ word ∧
    (word.map dec128Tolower = ascii "inf" ∨ word.map dec128Tolower = ascii "infinity" ∨
      word.map dec128Tolower = ascii "nan")

/-- What the digit loop runs over. -/
theorem readDigits_inv {str tail : Bytes} {s t : DigitScan} (h : readDigits str s = some (t, tail)) :
    ∃ (whole : List (Fin 10)) (fraction : Option (List (Fin 10))),
      str = digitText whole ++ (Numeral.fractionText fraction ++ tail) ∧
      (fraction.isSome = true → s.sawRadix = false) ∧
      (s.sawRadix = true → t.sawRadix = true) ∧
      (fraction.isSome = true → t.sawRadix = true) ∧
      t.ndigitsRead = s.ndigitsRead + (whole ++ fraction.getD []).length ∧
      (∀ c ∈ tail.head?, isdigit c = false ∧ c ≠ 46) := by
  induction str generalizing s with
  | nil =>
    obtain ⟨rfl, rfl⟩ : s = t ∧ [] = tail := by simpa [readDigits] using h
    exact ⟨[], none, rfl, by simp, id, by simp, rfl, by simp⟩
  | cons c rest ih =>
    rw [readDigits] at h
    by_cases hdot : c = 46
    · rw [if_pos hdot] at h
      cases hr : s.sawRadix with
      | true => simp [hr] at h
      | false =>
        rw [hr] at h
        obtain ⟨whole, fraction, hstr, hnone, hsaw, -, hread, htail⟩ := ih h
        have hf : fraction = none := by
          cases fraction with
          | none => rfl
          | some ds => exact absurd (hnone rfl) (by simp)
        subst hf hdot
        refine ⟨[], some whole, ?_, fun _ => rfl, by simp, fun _ => hsaw rfl, by simpa using hread,
          htail⟩
        rw [hstr]
        rfl
    · rw [if_neg hdot] at h
      by_cases hd : isdigit c = true
      · rw [if_pos hd] at h
        obtain ⟨d, rfl⟩ := isdigit_iff.mp hd
        have hsame : (s.take (digit d.val)).sawRadix = s.sawRadix ∧
            (s.take (digit d.val)).ndigitsRead = s.ndigitsRead + 1 := by
          unfold DigitScan.take
          constructor <;> dsimp only <;> split <;> rfl
        obtain ⟨whole, fraction, hstr, hnone, hsaw, hsome, hread, htail⟩ := ih h
        rw [hsame.1] at hnone hsaw
        rw [hsame.2] at hread
        refine ⟨d :: whole, fraction, ?_, hnone, hsaw, hsome, ?_, htail⟩
        · rw [hstr]
          rfl
        · rw [hread, List.cons_append, List.length_cons]
          omega
      · rw [if_neg hd] at h
        obtain ⟨rfl, rfl⟩ : s = t ∧ c :: rest = tail := by simpa using h
        refine ⟨[], none, rfl, by simp, id, by simp, rfl, ?_⟩
        intro b hb
        obtain rfl : c = b := by simpa using hb
        exact ⟨by simpa using hd, hdot⟩

theorem takeWhile_isdigit (s : Bytes) : ∃ ds : List (Fin 10), s.takeWhile isdigit = digitText ds := by
  induction s with
  | nil => exact ⟨[], rfl⟩
  | cons c s ih =>
    obtain ⟨ds, hds⟩ := ih
    cases hc : isdigit c with
    | true =>
      obtain ⟨d, rfl⟩ := isdigit_iff.mp hc
      exact ⟨d :: ds, by rw [List.takeWhile_cons_of_pos hc, hds]; rfl⟩
    | false =>
      refine ⟨[], ?_⟩
      rw [List.takeWhile_cons_of_neg (by simp [hc])]
      rfl

/-- White space, a sign and digits are all that `sscanf` takes to the end. -/
theorem sscanf_inv {wide : Int → BitVec 32} {s : Bytes} {x : Int}
    (h : sscanf wide s = some (x, [])) :
    ∃ (spaces : Bytes) (sign : Option Bool) (ds : List (Fin 10)),
      s = spaces ++ (signText sign ++ digitText ds) ∧ ds ≠ [] ∧
      ∀ c ∈ spaces, isspace c = true := by
  have hspaces : ∀ c ∈ s.takeWhile isspace, isspace c = true := by
    intro c hc
    exact List.mem_takeWhile_imp hc
  have onlyDigits : ∀ t : Bytes, t.dropWhile isdigit = [] → t.takeWhile isdigit ≠ [] →
      ∃ ds : List (Fin 10), t = digitText ds ∧ ds ≠ [] := by
    intro t hdrop htake
    obtain ⟨ds, hds⟩ := takeWhile_isdigit t
    have ht := List.takeWhile_append_dropWhile (p := isdigit) (l := t)
    rw [hdrop, List.append_nil] at ht
    refine ⟨ds, by rw [← hds, ht], ?_⟩
    rintro rfl
    exact htake hds
  have hs := List.takeWhile_append_dropWhile (p := isspace) (l := s)
  unfold sscanf at h
  generalize s.dropWhile isspace = t at h hs
  have finish : ∀ (sign : Option Bool) (u : Bytes), t = signText sign ++ u →
      u.takeWhile isdigit ≠ [] → u.dropWhile isdigit = [] →
      ∃ (spaces : Bytes) (sign : Option Bool) (ds : List (Fin 10)),
        s = spaces ++ (signText sign ++ digitText ds) ∧ ds ≠ [] ∧
        ∀ c ∈ spaces, isspace c = true := by
    intro sign u ht htake hdrop
    obtain ⟨ds, hu, hne⟩ := onlyDigits u hdrop htake
    exact ⟨s.takeWhile isspace, sign, ds, by rw [← hu, ← ht, hs], hne, hspaces⟩
  have conclude : ∀ (sign : Option Bool) (neg : Bool) (u : Bytes), t = signText sign ++ u →
      (if u.takeWhile isdigit = [] then none
        else
          let x : Int := if neg then -(scanNumber (u.takeWhile isdigit) : Int)
            else scanNumber (u.takeWhile isdigit)
          some (if -2147483648 ≤ x ∧ x ≤ 2147483647 then x else (wide x).toInt,
            u.dropWhile isdigit)) = some (x, []) →
      ∃ (spaces : Bytes) (sign : Option Bool) (ds : List (Fin 10)),
        s = spaces ++ (signText sign ++ digitText ds) ∧ ds ≠ [] ∧
        ∀ c ∈ spaces, isspace c = true := by
    intro sign neg u ht hu
    by_cases htake : u.takeWhile isdigit = []
    · rw [if_pos htake] at hu
      cases hu
    · rw [if_neg htake] at hu
      exact finish sign u ht htake (congrArg Prod.snd (Option.some.inj hu))
  cases t with
  | nil => exact conclude none false [] rfl h
  | cons c rest =>
    by_cases h45 : c = 45
    · subst h45
      exact conclude (some true) true rest rfl h
    · by_cases h43 : c = 43
      · subst h43
        exact conclude (some false) false rest rfl h
      · simp only [if_neg h45, if_neg h43] at h
        exact conclude none false (c :: rest) rfl h

theorem readExponent_inv {wide : Int → BitVec 32} {s : Bytes} {x : Int}
    (h : readExponent wide s = some x) :
    ∃ (e : Option ExponentPart) (spaces : Bytes), s = spacedExponent spaces e ∧
      ∀ c ∈ spaces, isspace c = true := by
  cases s with
  | nil => exact ⟨none, [], rfl, by simp⟩
  | cons c rest =>
    rw [readExponent] at h
    by_cases hc : c = 101 ∨ c = 69
    · rw [if_pos hc] at h
      cases hs : sscanf wide rest with
      | none => simp [hs] at h
      | some r =>
        obtain ⟨y, tail⟩ := r
        cases tail with
        | cons b tail => simp [hs] at h
        | nil =>
          obtain ⟨spaces, sign, ds, hrest, hne, hspaces⟩ := sscanf_inv hs
          refine ⟨some ⟨decide (c = 101), sign, ds, hne⟩, spaces, ?_, hspaces⟩
          rw [hrest, spacedExponent]
          obtain rfl | rfl := hc <;> rfl
    · rw [if_neg hc] at h
      cases h

/-- What is read to its end is a numeral but for white space. -/
theorem numeral_of_read {wide : Int → BitVec 32} {str tail : Bytes} {t : DigitScan} {x : Int}
    (sign : Option Bool) (hhead : isdigit (str.headD 0) = true ∨ str.headD 0 = 46)
    (hr : readDigits str DigitScan.new = some (t, tail))
    (hnone : ¬ (t.sawRadix = true ∧ t.ndigitsRead = 0)) (he : readExponent wide tail = some x) :
    ∃ (n : Numeral) (spaces : Bytes), signText sign ++ str = spacedText n spaces ∧
      ∀ c ∈ spaces, isspace c = true := by
  obtain ⟨whole, fraction, hstr, -, -, hsome, hread, htail⟩ := readDigits_inv hr
  obtain ⟨e, spaces, htext, hspaces⟩ := readExponent_inv he
  have hne : whole ++ fraction.getD [] ≠ [] := by
    intro h0
    rw [h0] at hread
    cases fraction with
    | some ds => exact hnone ⟨hsome rfl, hread⟩
    | none =>
      obtain rfl : whole = [] := by simpa using h0
      have hstrt : str = tail := hstr
      rw [hstrt] at hhead
      cases tail with
      | nil => exact absurd hhead (by decide)
      | cons c tail =>
        obtain ⟨h1, h2⟩ := htail c rfl
        obtain hd | hd := hhead
        · rw [List.headD_cons, h1] at hd
          cases hd
        · exact h2 hd
  refine ⟨⟨sign, whole, fraction, e, hne⟩, spaces, ?_, hspaces⟩
  rw [hstr, htext]
  rfl

/-- A string is refused with a NaN, spells an infinity or a NaN, or is a numeral but for
white space behind its `E`. -/
theorem fromString_cases (wide : Int → BitVec 32) (stray : Nat → BitVec 16) (s : Bytes) :
    bsonDecimal128FromString wide stray s = (false, decimalNan) ∨ Spelled s ∨
      ∃ (n : Numeral) (spaces : Bytes), s = spacedText n spaces ∧
        ∀ c ∈ spaces, isspace c = true := by
  have number : ∀ (sign : Option Bool) (isNegative includesSign : Bool) (str : Bytes),
      s = signText sign ++ str → (isdigit (str.headD 0) = true ∨ str.headD 0 = 46) →
      (match readNumber wide stray s str isNegative includesSign with
        | some dec => (true, dec)
        | none => (false, decimalNan)) = (false, decimalNan) ∨
      ∃ (n : Numeral) (spaces : Bytes), s = spacedText n spaces ∧
        ∀ c ∈ spaces, isspace c = true := by
    intro sign isNegative includesSign str hs hhead
    rw [readNumber]
    cases hr : readDigits str DigitScan.new with
    | none => exact Or.inl rfl
    | some r =>
      obtain ⟨t, tail⟩ := r
      by_cases hnone : t.sawRadix = true ∧ t.ndigitsRead = 0
      · exact Or.inl (by simp only [if_pos hnone])
      · cases he : readExponent wide tail with
        | none => exact Or.inl (by simp only [if_neg hnone, he])
        | some x =>
          rw [hs]
          exact Or.inr (numeral_of_read sign hhead hr hnone he)
  have letters : ∀ (sign : Option Bool) (isNegative : Bool) (str : Bytes),
      s = signText sign ++ str →
      (if dec128Istreq str (ascii "inf") || dec128Istreq str (ascii "infinity") then
          (true, decimalInf isNegative)
        else if dec128Istreq str (ascii "nan") then (true, decimalNan)
        else (false, decimalNan)) = (false, decimalNan) ∨ Spelled s := by
    intro sign isNegative str hs
    have hlower : (ascii "inf").map dec128Tolower = ascii "inf" ∧
        (ascii "infinity").map dec128Tolower = ascii "infinity" ∧
        (ascii "nan").map dec128Tolower = ascii "nan" := by decide
    by_cases hinf : (dec128Istreq str (ascii "inf") || dec128Istreq str (ascii "infinity")) = true
    · rw [Bool.or_eq_true, dec128Istreq_iff, dec128Istreq_iff, hlower.1, hlower.2.1] at hinf
      obtain h | h := hinf
      · exact Or.inr ⟨sign, str, hs, Or.inl h⟩
      · exact Or.inr ⟨sign, str, hs, Or.inr (Or.inl h)⟩
    · by_cases hnan : dec128Istreq str (ascii "nan") = true
      · rw [dec128Istreq_iff, hlower.2.2] at hnan
        exact Or.inr ⟨sign, str, hs, Or.inr (Or.inr hnan)⟩
      · exact Or.inl (by rw [if_neg hinf, if_neg hnan])
  have both : ∀ (sign : Option Bool) (isNegative includesSign : Bool) (str : Bytes),
      s = signText sign ++ str →
      bsonDecimal128FromString wide stray s =
        (if isdigit (str.headD 0) ∨ str.headD 0 = 46 then
          match readNumber wide stray s str isNegative includesSign with
          | some dec => (true, dec)
          | none => (false, decimalNan)
        else if dec128Istreq str (ascii "inf") || dec128Istreq str (ascii "infinity") then
          (true, decimalInf isNegative)
        else if dec128Istreq str (ascii "nan") then (true, decimalNan)
        else (false, decimalNan)) →
      bsonDecimal128FromString wide stray s = (false, decimalNan) ∨ Spelled s ∨
        ∃ (n : Numeral) (spaces : Bytes), s = spacedText n spaces ∧
          ∀ c ∈ spaces, isspace c = true := by
    intro sign isNegative includesSign str hs heq
    rw [heq]
    by_cases hhead : isdigit (str.headD 0) ∨ str.headD 0 = 46
    · rw [if_pos hhead]
      obtain h | h := number sign isNegative includesSign str hs hhead
      · exact Or.inl h
      · exact Or.inr (Or.inr h)
    · rw [if_neg hhead]
      obtain h | h := letters sign isNegative str hs
      · exact Or.inl h
      · exact Or.inr (Or.inl h)
  cases s with
  | nil => exact both none false false [] rfl rfl
  | cons c rest =>
    by_cases h45 : c = 45
    · subst h45
      exact both (some true) true true rest rfl rfl
    · by_cases h43 : c = 43
      · subst h43
        exact both (some false) false true rest rfl rfl
      · refine both none false false (c :: rest) rfl ?_
        have hplain : (if c = 43 ∨ c = 45 then (c == 45, true, rest)
            else (false, false, c :: rest)) = (false, false, c :: rest) :=
          if_neg (not_or.mpr ⟨h43, h45⟩)
        unfold bsonDecimal128FromString
        dsimp only
        generalize (if c = 43 ∨ c = 45 then (c == 45, true, rest)
          else (false, false, c :: rest)) = r at hplain ⊢
        subst hplain
        rfl

end LibBson.Source
