import LibBson.Source.DecimalPrint
import LibBson.Source.Iso8601Laws
import LibBson.Spec.IsoDate
import Mathlib.Data.List.Induction
import Mathlib.Data.List.TakeWhile

/-!
# What the date parser accepts

The numbers first: each check of the source against the texts of `IsoDate`. Then the
tokens, in both directions: a text in the grammar is cut where its parts meet, and a text
that is read was in the grammar. Source: bson-iso8601.c:26-297.
-/

set_option autoImplicit false

namespace LibBson.Source
open LibBson.Library LibBson.Spec

/-! ## Digits -/

theorem isDigit_iff {b : UInt8} : isDigit b = true ↔ ∃ d : Fin 10, b = digit d.val := by
  constructor
  · intro h
    simp only [isDigit, Bool.and_eq_true, decide_eq_true_eq, UInt8.le_iff_toNat_le] at h
    obtain ⟨hlo, hhi⟩ := h
    have hlo' : 48 ≤ b.toNat := hlo
    have hhi' : b.toNat ≤ 57 := hhi
    refine ⟨⟨b.toNat - 48, by omega⟩, UInt8.toNat_inj.mp ?_⟩
    rw [toNat_digit]
    dsimp only
    omega
  · intro h
    obtain ⟨d, rfl⟩ := h
    exact isDigit_digit d.val

theorem digitsOnly_iff {s : Bytes} : digitsOnly s = true ↔ ∃ ds, s = digitText ds := by
  constructor
  · intro h
    induction s with
    | nil => exact ⟨[], rfl⟩
    | cons b s ih =>
      rw [digitsOnly, List.all_cons, Bool.and_eq_true] at h
      obtain ⟨d, rfl⟩ := isDigit_iff.mp h.1
      obtain ⟨ds, rfl⟩ := ih h.2
      exact ⟨d :: ds, rfl⟩
  · intro h
    obtain ⟨ds, rfl⟩ := h
    rw [digitsOnly, List.all_eq_true]
    intro b hb
    obtain ⟨d, -, rfl⟩ := List.mem_map.mp hb
    exact isDigit_digit d.val

/-- The loop from the last digit on adds up the number. -/
theorem digitSum_digitText (ds : List (Fin 10)) (magnitude : Int) :
    digitSum magnitude (digitText ds).reverse = ofDigits ds * magnitude := by
  induction ds using List.reverseRecOn generalizing magnitude with
  | nil => simp [digitText]
  | append_singleton ds d ih =>
    have htext : (digitText (ds ++ [d])).reverse = digit d.val :: (digitText ds).reverse := by
      simp [digitText]
    rw [htext, digitSum_cons, ih, ofDigits_concat, Nat.mod_eq_of_lt d.isLt]
    push_cast
    ring

theorem decimals_ofDigits (ds : List (Fin 10)) : decimals ds.length (ofDigits ds) = ds := by
  induction ds using List.reverseRecOn with
  | nil => rfl
  | append_singleton ds d ih =>
    have hd := d.isLt
    have hdiv : (ofDigits ds * 10 + d.val) / 10 = ofDigits ds := by omega
    have hmod : (ofDigits ds * 10 + d.val) % 10 = d.val := by omega
    rw [List.length_append, List.length_singleton, ofDigits_concat, decimals, hdiv, ih]
    congr 2
    exact Fin.ext hmod

theorem digitText_eq_padded {ds : List (Fin 10)} {width : Nat} (h : ds.length = width) :
    digitText ds = paddedText width (ofDigits ds) := by
  rw [paddedText, ← h, decimals_ofDigits]

/-- A number is read of digits only, as many as are asked for, within the bounds. -/
theorem parseNum_iff {s : Bytes} {digits min max v : Int} :
    parseNum s digits min max = some v ↔
      ∃ ds, s = digitText ds ∧ (0 ≤ digits → (ds.length : Int) = digits) ∧ v = ofDigits ds ∧
        min ≤ v ∧ v ≤ max := by
  unfold parseNum
  constructor
  · intro h
    by_cases hbad : (0 ≤ digits ∧ (s.length : Int) ≠ digits) ∨ digitsOnly s = false
    · rw [if_pos hbad] at h
      cases h
    · rw [if_neg hbad] at h
      obtain ⟨hlen, honly⟩ := not_or.mp hbad
      obtain ⟨ds, rfl⟩ := digitsOnly_iff.mp (Bool.not_eq_false _ ▸ honly)
      rw [digitText_length] at hlen
      dsimp only at h
      rw [digitSum_digitText, Int.mul_one] at h
      split at h
      · cases h
      next hin =>
        cases h
        refine ⟨ds, rfl, fun h0 => ?_, rfl, by omega, by omega⟩
        by_contra hne
        exact hlen ⟨h0, hne⟩
  · intro h
    obtain ⟨ds, rfl, hlen, rfl, hmin, hmax⟩ := h
    have hgood : ¬ ((0 ≤ digits ∧ ((digitText ds).length : Int) ≠ digits) ∨
        digitsOnly (digitText ds) = false) := by
      rw [digitText_length, digitsOnly_iff.mpr ⟨ds, rfl⟩]
      intro h
      rcases h with ⟨h0, hne⟩ | h
      · exact hne (hlen h0)
      · cases h
    rw [if_neg hgood]
    dsimp only
    rw [digitSum_digitText, Int.mul_one, if_neg (by omega)]

/-- The same with the number of digits fixed. -/
theorem parseNum_padded_iff {s : Bytes} {width : Nat} {min max v : Int} :
    parseNum s width min max = some v ↔
      ∃ n : Nat, n < 10 ^ width ∧ s = paddedText width n ∧ v = n ∧ min ≤ v ∧ v ≤ max := by
  rw [parseNum_iff]
  constructor
  · intro h
    obtain ⟨ds, rfl, hlen, rfl, hmin, hmax⟩ := h
    have hwidth : ds.length = width := by
      have := hlen (Int.natCast_nonneg width)
      omega
    have hlt := ofDigits_lt ds
    rw [hwidth] at hlt
    exact ⟨ofDigits ds, hlt, digitText_eq_padded hwidth, rfl, hmin, hmax⟩
  · intro h
    obtain ⟨n, hlt, rfl, rfl, hmin, hmax⟩ := h
    refine ⟨decimals width n, rfl, fun _ => by rw [decimals_length], ?_, hmin, hmax⟩
    rw [ofDigits_decimals_of_lt hlt]

theorem requireNum_iff {str s : Bytes} {digits min max v : Int} {msg : String} :
    requireNum str s digits min max msg = .ok v ↔ parseNum s digits min max = some v := by
  unfold requireNum
  cases parseNum s digits min max with
  | none => exact ⟨fun h => (nomatch h), fun h => (nomatch h)⟩
  | some n =>
    constructor
    · intro h
      cases h
      rfl
    · intro h
      cases h
      rfl

theorem ok_of_bind {α β : Type} {x : Except JsonError α} {f : α → Except JsonError β} {b : β}
    (h : (x >>= f) = .ok b) : ∃ a, x = .ok a ∧ f a = .ok b := by
  cases x with
  | error e => cases h
  | ok a => exact ⟨a, rfl, h⟩

/-! ## The timezone and the fraction -/

/-- A timezone with a sign. -/
theorem dateZone_signed (str : Bytes) {sign : UInt8} {zone : Bytes} (h : sign = 43 ∨ sign = 45) :
    dateZone str (sign :: zone) =
      if zone.length ≠ 4 ∨ digitsOnly zone = false then dateParseErr str "could not parse timezone"
      else (do
        let tzHour ← requireNum str (zone.take 2) (-1) (-23) 23 "timezone hour must be at most 23"
        let tzMin ← requireNum str (zone.drop 2) (-1) 0 59 "timezone minute must be at most 59"
        let adjustment := (if sign = 45 then 1 else -1) * (tzMin * 60 + tzHour * 60 * 60)
        if -86400 < adjustment ∧ adjustment < 86400 then .ok adjustment
        else dateParseErr str "timezone offset must be less than 24 hours") := by
  have hutc : ¬ (sign = 90 ∧ zone = []) := by
    intro hz
    rcases h with rfl | rfl
    · exact absurd hz.1 (by decide)
    · exact absurd hz.1 (by decide)
  unfold dateZone
  dsimp only
  rw [if_neg hutc, if_pos h]
  simp only [List.length_cons, ne_eq, Nat.reduceEqDiff]

theorem dateZone_text (str : Bytes) (z : IsoZone) : dateZone str z.text = .ok (-z.seconds) := by
  cases z with
  | utc => rfl
  | offset negative hour minute =>
    have hh := hour.isLt
    have hm := minute.isLt
    have honly : digitsOnly (paddedText 2 hour ++ paddedText 2 minute) = true := by
      rw [paddedText, paddedText, ← digitText_append]
      exact digitsOnly_iff.mpr ⟨_, rfl⟩
    have hgood : ¬ ((paddedText 2 hour ++ paddedText 2 minute).length ≠ 4 ∨
        digitsOnly (paddedText 2 hour ++ paddedText 2 minute) = false) := by
      rw [honly]
      simp
    have htake : (paddedText 2 hour ++ paddedText 2 minute).take 2 = paddedText 2 hour :=
      List.take_left' (paddedText_length 2 hour)
    have hdrop : (paddedText 2 hour ++ paddedText 2 minute).drop 2 = paddedText 2 minute :=
      List.drop_left' (paddedText_length 2 hour)
    have hhour : parseNum (paddedText 2 hour) (-1) (-23) 23 = some ((hour : Nat) : Int) :=
      parseNum_iff.mpr ⟨decimals 2 hour, rfl, fun h => absurd h (by decide),
        by rw [ofDigits_decimals_of_lt (by omega)], by omega, by omega⟩
    have hminute : parseNum (paddedText 2 minute) (-1) 0 59 = some ((minute : Nat) : Int) :=
      parseNum_iff.mpr ⟨decimals 2 minute, rfl, fun h => absurd h (by decide),
        by rw [ofDigits_decimals_of_lt (by omega)], by omega, by omega⟩
    cases negative with
    | false =>
      have htext : (IsoZone.offset false hour minute).text =
          43 :: (paddedText 2 hour ++ paddedText 2 minute) := rfl
      have hfactor : (if (43 : UInt8) = 45 then (1 : Int) else -1) = -1 := by decide
      rw [htext, dateZone_signed str (Or.inl rfl), if_neg hgood, htake, hdrop,
        requireNum_some hhour, ok_bind, requireNum_some hminute, ok_bind]
      dsimp only
      rw [hfactor, if_pos (by omega), IsoZone.seconds, if_neg (by decide)]
      congr 1
      omega
    | true =>
      have htext : (IsoZone.offset true hour minute).text =
          45 :: (paddedText 2 hour ++ paddedText 2 minute) := rfl
      rw [htext, dateZone_signed str (Or.inr rfl), if_neg hgood, htake, hdrop,
        requireNum_some hhour, ok_bind, requireNum_some hminute, ok_bind]
      dsimp only
      rw [if_pos rfl, if_pos (by omega), IsoZone.seconds, if_pos rfl]
      congr 1
      omega

/-- A timezone that is accepted is one of the grammar. -/
theorem dateZone_ok {str tz : Bytes} {adjustment : Int} (hne : tz ≠ [])
    (h : dateZone str tz = .ok adjustment) : ∃ z : IsoZone, tz = z.text := by
  cases tz with
  | nil => exact absurd rfl hne
  | cons sign zone =>
    by_cases hutc : sign = 90 ∧ zone = []
    · obtain ⟨rfl, rfl⟩ := hutc
      exact ⟨.utc, rfl⟩
    · by_cases hsign : sign = 43 ∨ sign = 45
      · rw [dateZone_signed str hsign] at h
        by_cases hbad : zone.length ≠ 4 ∨ digitsOnly zone = false
        · rw [if_pos hbad] at h
          cases h
        · rw [if_neg hbad] at h
          obtain ⟨hlen, -⟩ := not_or.mp hbad
          obtain ⟨hour, hhour, h⟩ := ok_of_bind h
          obtain ⟨minute, hminute, -⟩ := ok_of_bind h
          obtain ⟨hs, hhs, -, rfl, -, hmaxh⟩ := parseNum_iff.mp (requireNum_iff.mp hhour)
          obtain ⟨ms, hms, -, rfl, -, hmaxm⟩ := parseNum_iff.mp (requireNum_iff.mp hminute)
          have hhlen : hs.length = 2 := by
            rw [← digitText_length, ← hhs, List.length_take]
            omega
          have hmlen : ms.length = 2 := by
            rw [← digitText_length, ← hms, List.length_drop]
            omega
          have hzone : zone = paddedText 2 (ofDigits hs) ++ paddedText 2 (ofDigits ms) := by
            rw [← digitText_eq_padded hhlen, ← digitText_eq_padded hmlen, ← hhs, ← hms,
              List.take_append_drop]
          refine ⟨.offset (sign = 45) ⟨ofDigits hs, by omega⟩ ⟨ofDigits ms, by omega⟩, ?_⟩
          rw [hzone]
          rcases hsign with rfl | rfl <;> rfl
      · unfold dateZone at h
        dsimp only at h
        rw [if_neg hutc, if_neg hsign] at h
        cases h

theorem dateMillis_text (str : Bytes) (f : IsoFraction) :
    dateMillis str (digitText f.digits) = .ok f.millis := by
  have hlt := ofDigits_lt f.digits
  have hshort := f.short
  have hpos := List.length_pos_of_ne_nil f.nonempty
  have hgood : ¬ (3 < (digitText f.digits).length ∨ digitsOnly (digitText f.digits) = false) := by
    rw [digitText_length, digitsOnly_iff.mpr ⟨_, rfl⟩]
    intro h
    rcases h with h | h
    · omega
    · cases h
  rw [dateMillis, if_neg hgood, digitSum_digitText, Int.mul_one, digitText_length,
    IsoFraction.millis]
  obtain h1 | h2 | h3 : f.digits.length = 1 ∨ f.digits.length = 2 ∨ f.digits.length = 3 := by
    omega
  · rw [h1] at hlt ⊢
    dsimp only
    rw [if_pos rfl, if_neg (by omega)]
    push_cast
    rfl
  · rw [h2] at hlt ⊢
    dsimp only
    rw [if_neg (show ¬ 2 = 1 by decide), if_pos rfl, if_neg (by omega)]
    push_cast
    rfl
  · rw [h3] at hlt ⊢
    dsimp only
    rw [if_neg (show ¬ 3 = 1 by decide), if_neg (show ¬ 3 = 2 by decide), if_neg (by omega)]
    push_cast
    rw [Int.mul_one]

theorem dateMillis_ok {str s : Bytes} {millis : Int} (hne : s ≠ [])
    (h : dateMillis str s = .ok millis) : ∃ f : IsoFraction, s = digitText f.digits := by
  unfold dateMillis at h
  by_cases hbad : 3 < s.length ∨ digitsOnly s = false
  · rw [if_pos hbad] at h
    cases h
  · obtain ⟨hlen, honly⟩ := not_or.mp hbad
    obtain ⟨ds, rfl⟩ := digitsOnly_iff.mp (Bool.not_eq_false _ ▸ honly)
    rw [digitText_length] at hlen
    refine ⟨⟨ds, ?_, Nat.not_lt.mp hlen⟩, rfl⟩
    intro hnil
    exact hne (by rw [hnil]; rfl)

/-! ## The tokens -/

/-- A token that a terminal ends: its text, the terminal and what stands behind it. -/
structure TokSplits (str : Bytes) (tok : DateTok) (text : Bytes) (stop : UInt8) (behind : Bytes) :
    Prop where
  onto : str.drop (tok.ptr - 1) = stop :: behind
  found : tok.found = true
  outLen : tok.outLen = text.length
  text : tokText str tok = text
  stop : tokEnd str tok = stop
  behind : str.drop tok.ptr = behind

section Tokens

variable {str text behind : Bytes} {stop : UInt8} {ptr : Nat} {terminals : Bytes}

theorem length_of_drop {s : Bytes} (h : str.drop ptr = s) (hne : s ≠ []) :
    str.length = ptr + s.length := by
  have hlen := congrArg List.length h
  have hpos := List.length_pos_of_ne_nil hne
  rw [List.length_drop] at hlen
  omega

theorem getD_of_drop {s : Bytes} (h : str.drop ptr = s) (i : Nat) :
    str.getD (ptr + i) 0 = s.getD i 0 := by
  rw [← h, List.getD_eq_getElem?_getD, List.getD_eq_getElem?_getD, List.getElem?_drop]

/-- `get_tok` cuts the text at the first terminal. -/
theorem getTok_splits (hdrop : str.drop ptr = text ++ stop :: behind)
    (hnone : ∀ b ∈ text, b ∉ terminals) (hstop : stop ∈ terminals) :
    TokSplits str (getTok str terminals ptr) text stop behind := by
  have htake : ((str.drop ptr).takeWhile fun b => !terminals.contains b) = text := by
    rw [hdrop]
    apply takeWhile_stop
    · intro b hb
      simpa using hnone b hb
    · simpa using hstop
  have hlen := length_of_drop hdrop (by simp)
  rw [List.length_append, List.length_cons] at hlen
  have htok : getTok str terminals ptr = ⟨true, ptr, text.length, ptr + text.length + 1⟩ := by
    simp only [getTok, htake]
    rw [if_pos (by omega)]
  have honto : str.drop (ptr + text.length) = stop :: behind := by
    rw [← List.drop_drop, hdrop, List.drop_left]
  rw [htok]
  refine ⟨honto, rfl, rfl, ?_, ?_, ?_⟩
  · rw [tokText, hdrop, List.take_left]
  · rw [tokEnd, getD_of_drop hdrop, List.getD_eq_getElem?_getD, List.getElem?_append_right (by simp)]
    simp
  · rw [Nat.add_assoc, ← List.drop_drop, hdrop, List.drop_append]
    simp

/-- A token that is found splits the text. -/
theorem splits_of_found (h : (getTok str terminals ptr).found = true) :
    ∃ text stop behind, str.drop ptr = text ++ stop :: behind ∧ stop ∈ terminals ∧
      TokSplits str (getTok str terminals ptr) text stop behind := by
  have hcut := List.takeWhile_append_dropWhile (p := fun b => !terminals.contains b)
    (l := str.drop ptr)
  cases hrest : (str.drop ptr).dropWhile (fun b => !terminals.contains b) with
  | nil =>
    rw [hrest, List.append_nil] at hcut
    have hlen := congrArg List.length hcut
    rw [List.length_drop] at hlen
    simp only [getTok] at h
    rw [if_neg (by omega)] at h
    cases h
  | cons stop behind =>
    rw [hrest] at hcut
    have hstop : stop ∈ terminals := by
      have hhead := List.head?_dropWhile_not (fun b => !terminals.contains b) (str.drop ptr)
      rw [hrest] at hhead
      simpa using hhead
    refine ⟨_, stop, behind, hcut.symm, hstop, getTok_splits hcut.symm ?_ hstop⟩
    intro b hb
    have hp := List.mem_takeWhile_imp hb
    simpa using hp

/-- Without a terminal the token goes to the end of the text. -/
theorem rest_of_not_found (hlt : ptr < str.length)
    (h : (getTok str terminals ptr).found = false) :
    tokEnd str (getTok str terminals ptr) = 0 ∧
      ∃ b, str.drop ((getTok str terminals ptr).ptr - 1) = [b] ∧ b ∉ terminals := by
  have hcut := List.takeWhile_append_dropWhile (p := fun b => !terminals.contains b)
    (l := str.drop ptr)
  cases hrest : (str.drop ptr).dropWhile (fun b => !terminals.contains b) with
  | nil =>
    rw [hrest, List.append_nil] at hcut
    have htok : getTok str terminals ptr = ⟨false, ptr, str.length - ptr, str.length⟩ := by
      simp only [getTok, hcut, List.length_drop]
      rw [if_neg (by omega)]
      congr 1
      omega
    have hlast : str.drop (str.length - 1) = [str[str.length - 1]] := by
      rw [List.drop_eq_getElem_cons (by omega), List.drop_of_length_le (by omega)]
    rw [htok]
    refine ⟨?_, _, hlast, ?_⟩
    · rw [tokEnd, List.getD_eq_getElem?_getD, List.getElem?_eq_none (by dsimp only; omega)]
      rfl
    · have hmem : str[str.length - 1] ∈ (str.drop ptr).takeWhile fun b => !terminals.contains b := by
        rw [hcut, List.mem_drop_iff_getElem]
        exact ⟨str.length - 1 - ptr, by omega, by congr 1; omega⟩
      have hp := List.mem_takeWhile_imp hmem
      simpa using hp
  | cons stop behind =>
    rw [hrest] at hcut
    have hlen := congrArg List.length hcut
    rw [List.length_append, List.length_cons, List.length_drop] at hlen
    simp only [getTok] at h
    rw [if_pos (by omega)] at h
    cases h

end Tokens

/-! ## The seconds and the fraction -/

/-- The octets from the terminal of the minute to the timezone. -/
def secondsText : Option Bytes → Option Bytes → Bytes
  | none, _ => []
  | some ss, none => 58 :: ss
  | some ss, some ms => 58 :: (ss ++ 46 :: ms)

section Seconds

variable {str mi behind : Bytes} {stop : UInt8} {min : DateTok}

/-- One octet that is no sign and no `Z` is no timezone. -/
theorem dateZone_single {str : Bytes} {b : UInt8} {adjustment : Int} {terminals : Bytes}
    (hsub : [43, 45, 90] ⊆ terminals) (hb : b ∉ terminals) :
    dateZone str [b] ≠ .ok adjustment := by
  intro h
  obtain ⟨z, hz⟩ := dateZone_ok (by simp) h
  cases z with
  | utc =>
    rw [(List.cons.inj hz).1] at hb
    exact hb (hsub (by decide))
  | offset negative hour minute =>
    have hlen := congrArg List.length hz
    simp [IsoZone.text] at hlen

/-- What stands behind the minute when the seconds and the fraction are found and the rest
is a timezone. -/
theorem dateTail_ok (hmin : TokSplits str min mi stop behind)
    {sec millis : Option DateTok} {ptr ptr' : Nat} {adjustment : Int}
    (hsec : dateSeconds str min = .ok (sec, ptr))
    (hmillis : dateMillisTok str sec ptr = .ok (millis, ptr'))
    (hzone : dateZone str (str.drop (ptr' - 1)) = .ok adjustment) :
    stop :: behind = secondsText (sec.map (tokText str)) (millis.map (tokText str)) ++
        str.drop (ptr' - 1) ∧ str.drop (ptr' - 1) ≠ [] ∧
      (∀ tok ∈ sec, tokText str tok ≠ []) ∧ (∀ tok ∈ millis, tokText str tok ≠ []) ∧
      (sec = none → millis = none) := by
  unfold dateSeconds at hsec
  rw [hmin.stop] at hsec
  by_cases hcolon : stop = 58
  · rw [if_pos hcolon] at hsec
    by_cases hshort : str.length - min.ptr < 2
    · rw [if_pos hshort] at hsec
      cases hsec
    · rw [if_neg hshort] at hsec
      dsimp only at hsec
      have hnone : ¬ (getTok str (ascii ".+-Z") min.ptr).outLen = 0 := by
        intro h0
        rw [if_pos h0] at hsec
        cases hsec
      rw [if_neg hnone, Except.ok.injEq, Prod.mk.injEq] at hsec
      obtain ⟨rfl, rfl⟩ := hsec
      cases hfound : (getTok str (ascii ".+-Z") min.ptr).found with
      | false =>
        -- The seconds go to the end: their last digit would be the timezone.
        obtain ⟨hend, b, hlast, hb⟩ := rest_of_not_found (by omega) hfound
        unfold dateMillisTok at hmillis
        dsimp only at hmillis
        rw [hend, if_neg (by decide), Except.ok.injEq, Prod.mk.injEq] at hmillis
        obtain ⟨rfl, rfl⟩ := hmillis
        rw [hlast] at hzone
        exact absurd hzone (dateZone_single (by decide) hb)
      | true =>
        obtain ⟨ss, stop', behind', hdrop, -, hsplit⟩ := splits_of_found hfound
        have hss : ss ≠ [] := by
          intro hnil
          apply hnone
          rw [hsplit.outLen, hnil]
          rfl
        rw [hmin.behind] at hdrop
        unfold dateMillisTok at hmillis
        dsimp only at hmillis
        rw [hsplit.stop] at hmillis
        by_cases hpoint : stop' = 46
        · rw [if_pos hpoint] at hmillis
          by_cases hshort' : str.length - (getTok str (ascii ".+-Z") min.ptr).ptr < 2
          · rw [if_pos hshort'] at hmillis
            cases hmillis
          · rw [if_neg hshort'] at hmillis
            have hnone' : ¬ (getTok str (ascii "+-Z")
                (getTok str (ascii ".+-Z") min.ptr).ptr).outLen = 0 := by
              intro h0
              rw [if_pos h0] at hmillis
              cases hmillis
            rw [if_neg hnone', Except.ok.injEq, Prod.mk.injEq] at hmillis
            obtain ⟨rfl, rfl⟩ := hmillis
            cases hfound' : (getTok str (ascii "+-Z")
                (getTok str (ascii ".+-Z") min.ptr).ptr).found with
            | false =>
              obtain ⟨-, b, hlast, hb⟩ := rest_of_not_found (by omega) hfound'
              rw [hlast] at hzone
              exact absurd hzone (dateZone_single (by decide) hb)
            | true =>
              obtain ⟨ms, stop'', behind'', hdrop', -, hsplit'⟩ := splits_of_found hfound'
              have hms : ms ≠ [] := by
                intro hnil
                apply hnone'
                rw [hsplit'.outLen, hnil]
                rfl
              rw [hsplit.behind] at hdrop'
              simp only [Option.map_some, hsplit.text, hsplit'.text, hsplit'.onto, secondsText]
              refine ⟨?_, by simp, ?_, ?_, fun h => (nomatch h)⟩
              · rw [hcolon, hdrop, hpoint, hdrop']
                simp
              · intro tok htok
                rw [← Option.mem_some_iff.mp htok, hsplit.text]
                exact hss
              · intro tok htok
                rw [← Option.mem_some_iff.mp htok, hsplit'.text]
                exact hms
        · rw [if_neg hpoint, Except.ok.injEq, Prod.mk.injEq] at hmillis
          obtain ⟨rfl, rfl⟩ := hmillis
          simp only [Option.map_some, Option.map_none, hsplit.text, hsplit.onto, secondsText]
          refine ⟨?_, by simp, ?_, fun tok htok => (nomatch htok), fun h => (nomatch h)⟩
          · rw [hcolon, hdrop]
            simp
          · intro tok htok
            rw [← Option.mem_some_iff.mp htok, hsplit.text]
            exact hss
  · rw [if_neg hcolon, Except.ok.injEq, Prod.mk.injEq] at hsec
    obtain ⟨rfl, rfl⟩ := hsec
    unfold dateMillisTok at hmillis
    rw [Except.ok.injEq, Prod.mk.injEq] at hmillis
    obtain ⟨rfl, rfl⟩ := hmillis
    rw [hmin.onto]
    exact ⟨rfl, by simp, fun tok htok => (nomatch htok), fun tok htok => (nomatch htok),
      fun _ => rfl⟩

theorem noSeparator_digitText (ds : List (Fin 10)) : NoSeparator (digitText ds) := by
  apply noSeparator_of_digits
  intro b hb
  obtain ⟨d, -, rfl⟩ := List.mem_map.mp hb
  exact Or.inl (isDigit_digit d.val)

/-- The digits of a part, up to a terminal, are one token. -/
theorem getTok_digits {ds : List (Fin 10)} {ptr : Nat} {terminals : Bytes}
    (hsub : terminals ⊆ ascii ":+-ZT.") (hstop : stop ∈ terminals)
    (hdrop : str.drop ptr = digitText ds ++ stop :: behind) :
    TokSplits str (getTok str terminals ptr) (digitText ds) stop behind :=
  getTok_splits hdrop (fun b hb hmem => noSeparator_digitText ds b hb (hsub hmem)) hstop

theorem IsoZone.text_eq (z : IsoZone) : ∃ b rest, z.text = b :: rest ∧ b ∈ ascii "+-Z" := by
  cases z with
  | utc => exact ⟨90, [], rfl, by decide⟩
  | offset negative hour minute =>
    cases negative with
    | false => exact ⟨43, _, rfl, by decide⟩
    | true => exact ⟨45, _, rfl, by decide⟩

/-- The seconds and the fraction of the grammar are found, and the timezone behind them. -/
theorem dateTail_of (hmin : TokSplits str min mi stop behind) (s : Option IsoSeconds) (z : IsoZone)
    (htail : stop :: behind = IsoSeconds.optionText s ++ z.text) :
    ∃ sec millis ptr ptr', dateSeconds str min = .ok (sec, ptr) ∧
      dateMillisTok str sec ptr = .ok (millis, ptr') ∧ str.drop (ptr' - 1) = z.text ∧
      sec.map (tokText str) = s.map (fun s => paddedText 2 s.second) ∧
      millis.map (tokText str) = (s.bind fun s => s.fraction).map fun f => digitText f.digits := by
  obtain ⟨sign, zone, hz, hsign⟩ := IsoZone.text_eq z
  cases s with
  | none =>
    rw [IsoSeconds.optionText, List.nil_append] at htail
    have hcolon : stop ≠ 58 := by
      intro h
      rw [hz] at htail
      rw [← (List.cons.inj htail).1, h] at hsign
      exact absurd hsign (by decide)
    have hseconds : dateSeconds str min = .ok (none, min.ptr) := by
      rw [dateSeconds, hmin.stop, if_neg hcolon]
    exact ⟨none, none, min.ptr, min.ptr, hseconds, rfl, hmin.onto.trans htail, rfl, rfl⟩
  | some s =>
    obtain ⟨second, fraction⟩ := s
    have hcolon : stop = 58 := (List.cons.inj htail).1
    have hbehind : behind = paddedText 2 second ++ (IsoFraction.optionText fraction ++ z.text) := by
      rw [← List.append_assoc]
      exact (List.cons.inj htail).2
    have hlen : str.length - min.ptr = behind.length := by
      rw [← hmin.behind, List.length_drop]
    have hleast : 2 ≤ behind.length := by
      rw [hbehind, List.length_append, paddedText_length]
      omega
    cases fraction with
    | none =>
      rw [IsoFraction.optionText, List.nil_append, hz] at hbehind
      have hsplit : TokSplits str (getTok str (ascii ".+-Z") min.ptr) (paddedText 2 second) sign
          zone :=
        getTok_digits (by decide) (List.mem_cons_of_mem 46 hsign) (hmin.behind.trans hbehind)
      have hseconds : dateSeconds str min = .ok (some (getTok str (ascii ".+-Z") min.ptr),
          (getTok str (ascii ".+-Z") min.ptr).ptr) := by
        unfold dateSeconds
        rw [hmin.stop, if_pos hcolon, if_neg (by omega)]
        dsimp only
        rw [hsplit.outLen, if_neg (by simp)]
      have hmillis : dateMillisTok str (some (getTok str (ascii ".+-Z") min.ptr))
          (getTok str (ascii ".+-Z") min.ptr).ptr =
            .ok (none, (getTok str (ascii ".+-Z") min.ptr).ptr) := by
        unfold dateMillisTok
        dsimp only
        rw [hsplit.stop, if_neg]
        intro h
        rw [h] at hsign
        exact absurd hsign (by decide)
      refine ⟨_, _, _, _, hseconds, hmillis, hsplit.onto.trans hz.symm, ?_, rfl⟩
      rw [Option.map_some, hsplit.text]
      rfl
    | some f =>
      rw [IsoFraction.optionText, List.cons_append, hz] at hbehind
      have hsplit : TokSplits str (getTok str (ascii ".+-Z") min.ptr) (paddedText 2 second) 46
          (digitText f.digits ++ sign :: zone) :=
        getTok_digits (by decide) (by decide) (hmin.behind.trans hbehind)
      have hsplit' : TokSplits str (getTok str (ascii "+-Z") _) (digitText f.digits) sign zone :=
        getTok_digits (by decide) hsign hsplit.behind
      have hseconds : dateSeconds str min = .ok (some (getTok str (ascii ".+-Z") min.ptr),
          (getTok str (ascii ".+-Z") min.ptr).ptr) := by
        unfold dateSeconds
        rw [hmin.stop, if_pos hcolon, if_neg (by omega)]
        dsimp only
        rw [hsplit.outLen, if_neg (by simp)]
      have hrest : str.length - (getTok str (ascii ".+-Z") min.ptr).ptr =
          f.digits.length + (zone.length + 1) := by
        rw [← List.length_drop, hsplit.behind, List.length_append, digitText_length,
          List.length_cons]
      have hpos := List.length_pos_of_ne_nil f.nonempty
      have hmillis : dateMillisTok str (some (getTok str (ascii ".+-Z") min.ptr))
          (getTok str (ascii ".+-Z") min.ptr).ptr =
            .ok (some (getTok str (ascii "+-Z") (getTok str (ascii ".+-Z") min.ptr).ptr),
              (getTok str (ascii "+-Z") (getTok str (ascii ".+-Z") min.ptr).ptr).ptr) := by
        unfold dateMillisTok
        dsimp only
        rw [hsplit.stop, if_pos rfl, if_neg (by omega), hsplit'.outLen, digitText_length,
          if_neg (by omega)]
      refine ⟨_, _, _, _, hseconds, hmillis, hsplit'.onto.trans hz.symm, ?_, ?_⟩
      · rw [Option.map_some, hsplit.text]
        rfl
      · rw [Option.map_some, hsplit'.text]
        rfl

end Seconds

/-! ## The whole text -/

section Whole

variable (timegm : BsonTm → Int) {str : Bytes}

/-- The number of the seconds, where there are any. -/
def secondsNum (str : Bytes) : Option Bytes → Except JsonError Int
  | none => .ok 0
  | some ss => requireNum str ss 2 0 60 "seconds must be an integer"

/-- The number of the fraction, where there is one. -/
def millisNum (str : Bytes) : Option Bytes → Except JsonError Int
  | none => .ok 0
  | some ms => dateMillis str ms

/-- The numbers, once the tokens stand. -/
def readTokens (str yy mo dd hh mi : Bytes) (ss : Option Bytes) (tz : Bytes)
    (millis : Option Bytes) : Except JsonError Int := do
  let year ← requireNum str yy 4 (-9999) 9999 "year must be an integer"
  let month ← requireNum str mo 2 1 12 "month must be an integer"
  let day ← requireNum str dd 2 1 31 "day must be an integer"
  let hour ← requireNum str hh 2 0 23 "hour must be an integer"
  let min ← requireNum str mi 2 0 59 "minute must be an integer"
  let sec ← secondsNum str ss
  let tzAdjustment ← dateZone str tz
  let millis ← millisNum str millis
  let posixDate : BsonTm :=
    { tmSec := sec, tmMin := min, tmHour := hour, tmMday := day, tmMon := month - 1,
      tmYear := year - 1900 }
  .ok (1000 * timegm posixDate + millis + tzAdjustment * 1000)

/-- The fields of a date. -/
def isoTm (d : IsoDate) : BsonTm :=
  { tmSec := d.second
    tmMin := (d.minute : Nat)
    tmHour := (d.hour : Nat)
    tmMday := (d.day : Nat) + 1
    tmMon := (d.month : Nat)
    tmYear := (d.year : Nat) - 1900 }

/-- The milliseconds since the epoch that a date denotes. -/
def isoValue (d : IsoDate) : Int := 1000 * timegm (isoTm d) + d.millis - 1000 * d.zone.seconds

theorem requireNum_padded {str : Bytes} {width n : Nat} {min max : Int} {msg : String}
    (hlt : n < 10 ^ width) (hmin : min ≤ n) (hmax : n ≤ max) :
    requireNum str (paddedText width n) width min max msg = .ok (n : Int) :=
  requireNum_iff.mpr (parseNum_padded_iff.mpr ⟨n, hlt, rfl, rfl, hmin, hmax⟩)

theorem readTokens_text (d : IsoDate) :
    readTokens timegm str (paddedText 4 d.year) (paddedText 2 (d.month + 1))
        (paddedText 2 (d.day + 1)) (paddedText 2 d.hour) (paddedText 2 d.minute)
        (d.seconds.map fun s => paddedText 2 s.second) d.zone.text
        ((d.seconds.bind fun s => s.fraction).map fun f => digitText f.digits) =
      .ok (isoValue timegm d) := by
  have hyear : requireNum str (paddedText 4 d.year) 4 (-9999) 9999 "year must be an integer" =
      .ok (d.year : Nat) := requireNum_padded (by omega) (by omega) (by omega)
  have hmonth : requireNum str (paddedText 2 (d.month + 1)) 2 1 12 "month must be an integer" =
      .ok ((d.month + 1 : Nat) : Int) := requireNum_padded (by omega) (by omega) (by omega)
  have hday : requireNum str (paddedText 2 (d.day + 1)) 2 1 31 "day must be an integer" =
      .ok ((d.day + 1 : Nat) : Int) := requireNum_padded (by omega) (by omega) (by omega)
  have hhour : requireNum str (paddedText 2 d.hour) 2 0 23 "hour must be an integer" =
      .ok (d.hour : Nat) := requireNum_padded (by omega) (by omega) (by omega)
  have hminute : requireNum str (paddedText 2 d.minute) 2 0 59 "minute must be an integer" =
      .ok (d.minute : Nat) := requireNum_padded (by omega) (by omega) (by omega)
  have hsecond : secondsNum str (d.seconds.map fun s => paddedText 2 s.second) =
      .ok (d.second : Int) := by
    rw [IsoDate.second]
    cases d.seconds with
    | none => rfl
    | some s => exact requireNum_padded (by omega) (by omega) (by omega)
  have hfraction : millisNum str ((d.seconds.bind fun s => s.fraction).map fun f =>
      digitText f.digits) = .ok (d.millis : Int) := by
    rw [IsoDate.millis]
    cases d.seconds with
    | none => rfl
    | some s =>
      obtain ⟨second, fraction⟩ := s
      cases fraction with
      | none => rfl
      | some f => exact dateMillis_text str f
  have htm : BsonTm.mk d.second (d.minute : Nat) (d.hour : Nat) ((d.day + 1 : Nat) : Int)
      (((d.month + 1 : Nat) : Int) - 1) ((d.year : Nat) - 1900) = isoTm d := by
    rw [isoTm, BsonTm.mk.injEq]
    refine ⟨rfl, rfl, rfl, ?_, ?_, rfl⟩ <;> omega
  unfold readTokens
  rw [hyear, ok_bind, hmonth, ok_bind, hday, ok_bind, hhour, ok_bind, hminute, ok_bind,
    hsecond, ok_bind, dateZone_text, ok_bind, hfraction, ok_bind]
  dsimp only
  rw [htm, isoValue]
  congr 1
  omega

/-- The parts whose numbers are read are those of a date. -/
theorem readTokens_ok {str yy mo dd hh mi tz : Bytes} {ss millis : Option Bytes} {v : Int}
    (h : readTokens timegm str yy mo dd hh mi ss tz millis = .ok v) (htz : tz ≠ [])
    (hms : ∀ ms ∈ millis, ms ≠ []) (hnone : ss = none → millis = none) :
    ∃ d : IsoDate, yy = paddedText 4 d.year ∧ mo = paddedText 2 (d.month + 1) ∧
      dd = paddedText 2 (d.day + 1) ∧ hh = paddedText 2 d.hour ∧ mi = paddedText 2 d.minute ∧
      secondsText ss millis = IsoSeconds.optionText d.seconds ∧ tz = d.zone.text := by
  unfold readTokens at h
  obtain ⟨year, hyear, h⟩ := ok_of_bind h
  obtain ⟨month, hmonth, h⟩ := ok_of_bind h
  obtain ⟨day, hday, h⟩ := ok_of_bind h
  obtain ⟨hour, hhour, h⟩ := ok_of_bind h
  obtain ⟨minute, hminute, h⟩ := ok_of_bind h
  obtain ⟨second, hsecond, h⟩ := ok_of_bind h
  obtain ⟨adjustment, hzone, h⟩ := ok_of_bind h
  obtain ⟨fraction, hfraction, -⟩ := ok_of_bind h
  obtain ⟨y, hy, rfl, rfl, -, hy2⟩ := parseNum_padded_iff.mp (requireNum_iff.mp hyear)
  obtain ⟨mon, -, rfl, rfl, hmon1, hmon2⟩ := parseNum_padded_iff.mp (requireNum_iff.mp hmonth)
  obtain ⟨d, -, rfl, rfl, hd1, hd2⟩ := parseNum_padded_iff.mp (requireNum_iff.mp hday)
  obtain ⟨hr, -, rfl, rfl, -, hr2⟩ := parseNum_padded_iff.mp (requireNum_iff.mp hhour)
  obtain ⟨m, -, rfl, rfl, -, hm2⟩ := parseNum_padded_iff.mp (requireNum_iff.mp hminute)
  obtain ⟨zone, rfl⟩ := dateZone_ok htz hzone
  have hseconds : ∃ s, secondsText ss millis = IsoSeconds.optionText s := by
    cases ss with
    | none => exact ⟨none, rfl⟩
    | some ss =>
      obtain ⟨n, -, rfl, rfl, -, hn2⟩ := parseNum_padded_iff.mp (requireNum_iff.mp hsecond)
      cases millis with
      | none => exact ⟨some ⟨⟨n, by omega⟩, none⟩, by simp [secondsText, IsoSeconds.optionText,
          IsoFraction.optionText]⟩
      | some ms =>
        obtain ⟨f, rfl⟩ := dateMillis_ok (hms ms rfl) hfraction
        exact ⟨some ⟨⟨n, by omega⟩, some f⟩, rfl⟩
  obtain ⟨seconds, hseconds⟩ := hseconds
  refine ⟨⟨⟨y, hy⟩, ⟨mon - 1, by omega⟩, ⟨d - 1, by omega⟩, ⟨hr, by omega⟩, ⟨m, by omega⟩, seconds,
    zone⟩, rfl, ?_, ?_, rfl, rfl, hseconds, rfl⟩
  · dsimp only
    rw [Nat.sub_add_cancel (by omega)]
  · dsimp only
    rw [Nat.sub_add_cancel (by omega)]

section Head

variable {year month day hour min : DateTok} (hyear : getTok str (ascii "-") 0 = year)
  (hmonth : getTok str (ascii "-") year.ptr = month) (hday : getTok str (ascii "T") month.ptr = day)
  (hhour : getTok str (ascii ":") day.ptr = hour) (hmin : getTok str (ascii ":+-Z") hour.ptr = min)

include hyear hmonth hday hhour hmin

/-- With the five tokens in front found, the rest is read. -/
theorem parse_found
    (hfound : (year.found && month.found && day.found && hour.found && min.found) = true) :
    bsonIso8601DateParse str timegm =
      dateSeconds str min >>= fun (sec, ptr) =>
        dateMillisTok str sec ptr >>= fun (millis, ptr) =>
          readTokens timegm str (tokText str year) (tokText str month) (tokText str day)
            (tokText str hour) (tokText str min) (sec.map (tokText str)) (str.drop (ptr - 1))
            (millis.map (tokText str)) := by
  unfold bsonIso8601DateParse
  dsimp only
  rw [hyear, hmonth, hday, hhour, hmin, if_neg (by rw [hfound]; decide)]
  cases dateSeconds str min with
  | error e => rfl
  | ok p =>
    obtain ⟨sec, ptr⟩ := p
    rw [ok_bind, ok_bind]
    dsimp only
    cases dateMillisTok str sec ptr with
    | error e => rfl
    | ok p =>
      obtain ⟨millis, ptr⟩ := p
      simp only [ok_bind, readTokens, secondsNum, millisNum]
      cases sec <;> cases millis <;> rfl

theorem parse_not_found
    (hfound : (year.found && month.found && day.found && hour.found && min.found) = false)
    (v : Int) : bsonIso8601DateParse str timegm ≠ .ok v := by
  unfold bsonIso8601DateParse
  dsimp only
  rw [hyear, hmonth, hday, hhour, hmin, if_pos hfound]
  exact fun h => (nomatch h)

end Head

/-- Every text of the grammar is read, with its value. -/
theorem parse_text (d : IsoDate) : bsonIso8601DateParse d.text timegm = .ok (isoValue timegm d) := by
  obtain ⟨stop, behind, htail, hstop⟩ : ∃ stop behind,
      IsoSeconds.optionText d.seconds ++ d.zone.text = stop :: behind ∧ stop ∈ ascii ":+-Z" := by
    cases d.seconds with
    | none =>
      obtain ⟨sign, zone, hz, hsign⟩ := IsoZone.text_eq d.zone
      exact ⟨sign, zone, hz, List.mem_cons_of_mem 58 hsign⟩
    | some s => exact ⟨58, _, rfl, by decide⟩
  have hyear : TokSplits d.text (getTok d.text (ascii "-") 0) (paddedText 4 d.year) 45 _ :=
    getTok_digits (by decide) (by decide) rfl
  have hmonth : TokSplits d.text (getTok d.text (ascii "-") _) (paddedText 2 (d.month + 1)) 45 _ :=
    getTok_digits (by decide) (by decide) hyear.behind
  have hday : TokSplits d.text (getTok d.text (ascii "T") _) (paddedText 2 (d.day + 1)) 84 _ :=
    getTok_digits (by decide) (by decide) hmonth.behind
  have hhour : TokSplits d.text (getTok d.text (ascii ":") _) (paddedText 2 d.hour) 58 _ :=
    getTok_digits (by decide) (by decide) hday.behind
  have hbehind := hhour.behind
  rw [htail] at hbehind
  have hmin : TokSplits d.text (getTok d.text (ascii ":+-Z") _) (paddedText 2 d.minute) stop behind :=
    getTok_digits (by decide) hstop hbehind
  obtain ⟨sec, millis, ptr, ptr', hsec, hmillis, htz, hsecText, hmillisText⟩ :=
    dateTail_of hmin d.seconds d.zone htail.symm
  rw [parse_found timegm rfl rfl rfl rfl rfl
    (by rw [hyear.found, hmonth.found, hday.found, hhour.found, hmin.found]; rfl), hsec, ok_bind]
  dsimp only
  rw [hmillis, ok_bind]
  dsimp only
  rw [hyear.text, hmonth.text, hday.text, hhour.text, hmin.text, hsecText, htz, hmillisText]
  exact readTokens_text timegm d

/-- A text that is read is one of the grammar. -/
theorem parse_ok {v : Int} (h : bsonIso8601DateParse str timegm = .ok v) :
    ∃ d : IsoDate, d.text = str := by
  generalize hyear : getTok str (ascii "-") 0 = year
  generalize hmonth : getTok str (ascii "-") year.ptr = month
  generalize hday : getTok str (ascii "T") month.ptr = day
  generalize hhour : getTok str (ascii ":") day.ptr = hour
  generalize hmin : getTok str (ascii ":+-Z") hour.ptr = min
  cases hfound : (year.found && month.found && day.found && hour.found && min.found) with
  | false => exact absurd h (parse_not_found timegm hyear hmonth hday hhour hmin hfound v)
  | true =>
    rw [parse_found timegm hyear hmonth hday hhour hmin hfound] at h
    simp only [Bool.and_eq_true] at hfound
    obtain ⟨⟨⟨⟨hfy, hfmo⟩, hfd⟩, hfh⟩, hfmi⟩ := hfound
    subst hyear hmonth hday hhour hmin
    obtain ⟨yy, s1, b1, hd1, hs1, hy⟩ := splits_of_found hfy
    obtain ⟨mo, s2, b2, hd2, hs2, hmo⟩ := splits_of_found hfmo
    obtain ⟨dd, s3, b3, hd3, hs3, hdd⟩ := splits_of_found hfd
    obtain ⟨hh, s4, b4, hd4, hs4, hhh⟩ := splits_of_found hfh
    obtain ⟨mi, s5, b5, hd5, -, hmi⟩ := splits_of_found hfmi
    obtain ⟨⟨sec, ptr⟩, hsec, h⟩ := ok_of_bind h
    obtain ⟨⟨millis, ptr'⟩, hmillis, h⟩ := ok_of_bind h
    dsimp only at hmillis h
    obtain ⟨adjustment, hzone⟩ : ∃ adjustment, dateZone str (str.drop (ptr' - 1)) = .ok adjustment := by
      unfold readTokens at h
      obtain ⟨_, -, h⟩ := ok_of_bind h
      obtain ⟨_, -, h⟩ := ok_of_bind h
      obtain ⟨_, -, h⟩ := ok_of_bind h
      obtain ⟨_, -, h⟩ := ok_of_bind h
      obtain ⟨_, -, h⟩ := ok_of_bind h
      obtain ⟨_, -, h⟩ := ok_of_bind h
      obtain ⟨adjustment, hzone, -⟩ := ok_of_bind h
      exact ⟨adjustment, hzone⟩
    obtain ⟨htail, htz, -, hms, hnone⟩ := dateTail_ok hmi hsec hmillis hzone
    obtain ⟨d, hyy, hmm, hday, hhour, hminute, hseconds, hzoneText⟩ := readTokens_ok timegm h htz
      (by
        intro ms hmem
        obtain ⟨tok, htok, rfl⟩ := Option.mem_map.mp hmem
        exact hms tok htok)
      (by
        intro hn
        rw [Option.map_eq_none_iff] at hn ⊢
        exact hnone hn)
    rw [hy.text] at hyy
    rw [hmo.text] at hmm
    rw [hdd.text] at hday
    rw [hhh.text] at hhour
    rw [hmi.text] at hminute
    rw [hy.behind] at hd2
    rw [hmo.behind] at hd3
    rw [hdd.behind] at hd4
    rw [hhh.behind] at hd5
    have hdash : ascii "-" = [45] := by decide
    have ht : ascii "T" = [84] := by decide
    have hcolon : ascii ":" = [58] := by decide
    rw [hdash, List.mem_singleton] at hs1 hs2
    rw [ht, List.mem_singleton] at hs3
    rw [hcolon, List.mem_singleton] at hs4
    refine ⟨d, ?_⟩
    rw [List.drop_zero] at hd1
    rw [hd1, hd2, hd3, hd4, hd5, htail, hs1, hs2, hs3, hs4, IsoDate.text, hyy, hmm, hday, hhour,
      hminute, hseconds, hzoneText]

end Whole

end LibBson.Source
