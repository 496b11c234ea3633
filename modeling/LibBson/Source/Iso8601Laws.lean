import LibBson.Source.Iso8601
import LibBson.Library.Utf8

/-!
# What the date parser makes of a text in the printer's shape

The tokens first, then the numbers in them. The shape is that of
bson-iso8601.c:313-328, with any octets between the separators that are none.
-/

set_option autoImplicit false

namespace LibBson.Source
open LibBson.Library

/-- No octet that ends a token. -/
def NoSeparator (s : Bytes) : Prop := ∀ b ∈ s, b ∉ ascii ":+-ZT."

/-- A token: its text, the octet behind it and where the scan goes on. -/
structure TokIs (str : Bytes) (tok : DateTok) (text : Bytes) (stop : UInt8) (next : Nat) : Prop where
  found : tok.found = true
  outLen : tok.outLen = text.length
  text : tokText str tok = text
  stop : tokEnd str tok = stop
  ptr : tok.ptr = next

theorem takeWhile_stop {p : UInt8 → Bool} {xs post : Bytes} {t : UInt8} (hx : ∀ b ∈ xs, p b = true)
    (ht : p t = false) : (xs ++ t :: post).takeWhile p = xs := by
  induction xs with
  | nil => simp [ht]
  | cons b xs ih =>
    rw [List.cons_append, List.takeWhile_cons_of_pos (hx b List.mem_cons_self)]
    exact congrArg (b :: ·) (ih fun c hc => hx c (List.mem_cons_of_mem b hc))

theorem getTok_is {str xs post : Bytes} {t : UInt8} (pre terminals : Bytes) (ptr : Nat)
    (hstr : str = pre ++ (xs ++ t :: post)) (hptr : ptr = pre.length) (hx : NoSeparator xs)
    (hsub : terminals ⊆ ascii ":+-ZT.") (ht : t ∈ terminals) :
    TokIs str (getTok str terminals ptr) xs t (pre.length + xs.length + 1) := by
  subst hptr
  have hdrop : str.drop pre.length = xs ++ t :: post := by rw [hstr, List.drop_left]
  have htake : ((str.drop pre.length).takeWhile fun b => !terminals.contains b) = xs := by
    rw [hdrop]
    apply takeWhile_stop
    · intro b hb
      have hn : b ∉ terminals := fun h => hx b hb (hsub h)
      simpa using hn
    · simpa using ht
  have hlen : pre.length + xs.length < str.length := by
    rw [hstr]
    simp only [List.length_append, List.length_cons]
    omega
  have htok : getTok str terminals pre.length =
      ⟨true, pre.length, xs.length, pre.length + xs.length + 1⟩ := by
    simp only [getTok, htake]
    rw [if_pos hlen]
  rw [htok]
  refine ⟨rfl, rfl, ?_, ?_, rfl⟩
  · rw [tokText, hdrop, List.take_left]
  · rw [tokEnd, hstr]
    simp [List.getD_eq_getElem?_getD, ← List.append_assoc]

@[simp] theorem ok_bind {α β : Type} (a : α) (f : α → Except JsonError β) :
    (Except.ok a >>= f) = f a := rfl

@[simp] theorem error_bind {α β : Type} (e : JsonError) (f : α → Except JsonError β) :
    (Except.error e >>= f) = .error e := rfl

section Shape

variable {str yy mo dd hh mi ss : Bytes} (timegm : BsonTm → Int)

/-- What is read once the tokens stand: the numbers in order, the timezone, the fraction. -/
def readNumbers (str yy mo dd hh mi ss tz : Bytes) (millis : Option Bytes) :
    Except JsonError Int := do
  let year ← requireNum str yy 4 (-9999) 9999 "year must be an integer"
  let month ← requireNum str mo 2 1 12 "month must be an integer"
  let day ← requireNum str dd 2 1 31 "day must be an integer"
  let hour ← requireNum str hh 2 0 23 "hour must be an integer"
  let min ← requireNum str mi 2 0 59 "minute must be an integer"
  let sec ← requireNum str ss 2 0 60 "seconds must be an integer"
  let tzAdjustment ← dateZone str tz
  let millis ←
    match millis with
    | none => .ok 0
    | some millis => dateMillis str millis
  let posixDate : BsonTm :=
    { tmSec := sec, tmMin := min, tmHour := hour, tmMday := day, tmMon := month - 1,
      tmYear := year - 1900 }
  .ok (1000 * timegm posixDate + millis + tzAdjustment * 1000)

/-- The octets up to the seconds. -/
def dateHead (yy mo dd hh mi : Bytes) : Bytes :=
  yy ++ (45 :: mo ++ (45 :: dd ++ (84 :: hh ++ (58 :: mi ++ [58]))))

theorem parse_head {tail : Bytes} (hstr : str = dateHead yy mo dd hh mi ++ tail)
    (hy : NoSeparator yy) (hmo : NoSeparator mo) (hd : NoSeparator dd) (hh' : NoSeparator hh)
    (hmi : NoSeparator mi) :
    ∃ min : DateTok, TokIs str min mi 58 (dateHead yy mo dd hh mi).length ∧
      ∀ sec millis ptr ptr', dateSeconds str min = .ok (some sec, ptr) →
        dateMillisTok str (some sec) ptr = .ok (millis, ptr') →
        bsonIso8601DateParse str timegm =
          readNumbers timegm str yy mo dd hh mi (tokText str sec) (str.drop (ptr' - 1))
            (millis.map (tokText str)) := by
  have hyear := getTok_is [] (ascii "-") 0 (by simpa [dateHead] using hstr) rfl hy (by decide)
    (by decide)
  have hmonth := getTok_is (yy ++ [45]) (ascii "-") (getTok str (ascii "-") 0).ptr
    (by simpa [dateHead] using hstr) (by rw [hyear.ptr]; simp) hmo (by decide) (by decide)
  have hday := getTok_is (yy ++ 45 :: mo ++ [45]) (ascii "T") (getTok str (ascii "-") _).ptr
    (by simpa [dateHead] using hstr) (by rw [hmonth.ptr]; simp; omega) hd (by decide) (by decide)
  have hhour := getTok_is (yy ++ 45 :: mo ++ 45 :: dd ++ [84]) (ascii ":")
    (getTok str (ascii "T") _).ptr (by simpa [dateHead] using hstr)
    (by rw [hday.ptr]; simp; omega) hh' (by decide) (by decide)
  have hmin := getTok_is (yy ++ 45 :: mo ++ 45 :: dd ++ 84 :: hh ++ [58]) (ascii ":+-Z")
    (getTok str (ascii ":") _).ptr (by simpa [dateHead] using hstr)
    (by rw [hhour.ptr]; simp; omega) hmi (by decide) (by decide)
  have hend : (yy ++ 45 :: mo ++ 45 :: dd ++ 84 :: hh ++ [58]).length + mi.length + 1 =
      (dateHead yy mo dd hh mi).length := by
    simp [dateHead]
    omega
  rw [hend] at hmin
  refine ⟨_, hmin, ?_⟩
  intro sec millis ptr ptr' hsec hmillis
  unfold bsonIso8601DateParse readNumbers
  simp only [hyear.found, hmonth.found, hday.found, hhour.found, hmin.found, hsec, hmillis,
    hyear.text, hmonth.text, hday.text, hhour.text, hmin.text, ok_bind]
  cases millis <;> rfl

/-- `ss` and `Z` behind the minute. -/
theorem parse_plain (hstr : str = dateHead yy mo dd hh mi ++ (ss ++ [90]))
    (hy : NoSeparator yy) (hmo : NoSeparator mo) (hd : NoSeparator dd) (hh' : NoSeparator hh)
    (hmi : NoSeparator mi) (hs : NoSeparator ss) (hne : ss ≠ []) :
    bsonIso8601DateParse str timegm = readNumbers timegm str yy mo dd hh mi ss [90] none := by
  obtain ⟨min, hmin, hparse⟩ := parse_head timegm hstr hy hmo hd hh' hmi
  have hpos : 0 < ss.length := List.length_pos_of_ne_nil hne
  have hsec := getTok_is _ (ascii ".+-Z") min.ptr hstr hmin.ptr hs (by decide)
    (by decide : (90 : UInt8) ∈ ascii ".+-Z")
  have hlen : str.length = (dateHead yy mo dd hh mi).length + ss.length + 1 := by
    rw [hstr]
    simp
    omega
  have hseconds : dateSeconds str min =
      .ok (some (getTok str (ascii ".+-Z") min.ptr), (dateHead yy mo dd hh mi).length + ss.length + 1) := by
    unfold dateSeconds
    rw [if_pos hmin.stop, if_neg (by rw [hmin.ptr]; omega)]
    dsimp only
    rw [if_neg (by rw [hsec.outLen]; omega), hsec.ptr]
  have hmillis : dateMillisTok str (some (getTok str (ascii ".+-Z") min.ptr))
      ((dateHead yy mo dd hh mi).length + ss.length + 1) =
        .ok (none, (dateHead yy mo dd hh mi).length + ss.length + 1) := by
    unfold dateMillisTok
    dsimp only
    rw [if_neg (by rw [hsec.stop]; decide)]
  rw [hparse _ _ _ _ hseconds hmillis, hsec.text, Nat.add_sub_cancel, hstr, ← List.append_assoc,
    ← List.length_append, List.drop_left]
  rfl

/-- `ss`, a point, a fraction and `Z` behind the minute. -/
theorem parse_fraction {ms : Bytes} (hstr : str = dateHead yy mo dd hh mi ++ (ss ++ 46 :: (ms ++ [90])))
    (hy : NoSeparator yy) (hmo : NoSeparator mo) (hd : NoSeparator dd) (hh' : NoSeparator hh)
    (hmi : NoSeparator mi) (hs : NoSeparator ss) (hne : ss ≠ []) (hm : NoSeparator ms)
    (hmne : ms ≠ []) :
    bsonIso8601DateParse str timegm = readNumbers timegm str yy mo dd hh mi ss [90] (some ms) := by
  obtain ⟨min, hmin, hparse⟩ := parse_head timegm hstr hy hmo hd hh' hmi
  have hpos : 0 < ss.length := List.length_pos_of_ne_nil hne
  have hmpos : 0 < ms.length := List.length_pos_of_ne_nil hmne
  have hsec := getTok_is _ (ascii ".+-Z") min.ptr hstr hmin.ptr hs (by decide)
    (by decide : (46 : UInt8) ∈ ascii ".+-Z")
  have hstr' : str = (dateHead yy mo dd hh mi ++ ss ++ [46]) ++ (ms ++ [90]) := by
    rw [hstr]
    simp
  have hptr : (dateHead yy mo dd hh mi).length + ss.length + 1 =
      (dateHead yy mo dd hh mi ++ ss ++ [46]).length := by
    simp
    omega
  have hmil := getTok_is _ (ascii "+-Z") _ hstr' hptr hm (by decide)
    (by decide : (90 : UInt8) ∈ ascii "+-Z")
  have hlen : str.length = (dateHead yy mo dd hh mi).length + ss.length + 1 + ms.length + 1 := by
    rw [hstr]
    simp
    omega
  have hseconds : dateSeconds str min =
      .ok (some (getTok str (ascii ".+-Z") min.ptr), (dateHead yy mo dd hh mi).length + ss.length + 1) := by
    unfold dateSeconds
    rw [if_pos hmin.stop, if_neg (by rw [hmin.ptr]; omega)]
    dsimp only
    rw [if_neg (by rw [hsec.outLen]; omega), hsec.ptr]
  have hmillis : dateMillisTok str (some (getTok str (ascii ".+-Z") min.ptr))
      ((dateHead yy mo dd hh mi).length + ss.length + 1) =
        .ok (some (getTok str (ascii "+-Z") ((dateHead yy mo dd hh mi).length + ss.length + 1)),
          (dateHead yy mo dd hh mi ++ ss ++ [46]).length + ms.length + 1) := by
    unfold dateMillisTok
    dsimp only
    rw [if_pos hsec.stop, if_neg (by omega), if_neg (by rw [hmil.outLen]; omega), hmil.ptr]
  have hdrop : str.drop ((dateHead yy mo dd hh mi ++ ss ++ [46]).length + ms.length) = [90] := by
    rw [hstr', ← List.append_assoc, ← List.length_append, List.drop_left]
  rw [hparse _ _ _ _ hseconds hmillis, hsec.text, Nat.add_sub_cancel, hdrop, Option.map_some,
    hmil.text]

end Shape

/-! ## The numbers -/

theorem toNat_digit (n : Nat) : (digit n).toNat = 48 + n % 10 := toNat_ofNat_of_lt (by omega)

theorem isDigit_digit (n : Nat) : isDigit (digit n) = true := by
  have h := toNat_digit n
  simp only [isDigit, Bool.and_eq_true, decide_eq_true_eq, UInt8.le_iff_toNat_le, h]
  constructor
  · exact Nat.le_add_right 48 (n % 10)
  · have : n % 10 < 10 := Nat.mod_lt n (by decide)
    exact (by omega : 48 + n % 10 ≤ 57)

theorem noSeparator_of_digits {s : Bytes} (h : ∀ b ∈ s, isDigit b = true ∨ b = 32) :
    NoSeparator s := by
  have hnone : ∀ b ∈ ascii ":+-ZT.", isDigit b = false ∧ b ≠ 32 := by decide +kernel
  intro b hb hmem
  obtain ⟨hdigit, hspace⟩ := hnone b hmem
  rcases h b hb with hd | hs
  · rw [hdigit] at hd
    cases hd
  · exact hspace hs

theorem digitsBefore_digits (fuel n : Nat) (acc : Bytes) (h : ∀ b ∈ acc, isDigit b = true) :
    ∀ b ∈ digitsBefore fuel n acc, isDigit b = true := by
  induction fuel generalizing n acc with
  | zero => exact h
  | succ fuel ih =>
    have hcons : ∀ b ∈ digit n :: acc, isDigit b = true := by
      intro b hb
      rcases List.mem_cons.mp hb with rfl | hb
      · exact isDigit_digit n
      · exact h b hb
    rw [digitsBefore]
    split
    · exact hcons
    · exact ih (n / 10) _ hcons

theorem digitsBefore_grows (fuel n : Nat) (acc : Bytes) :
    acc.length ≤ (digitsBefore fuel n acc).length := by
  induction fuel generalizing n acc with
  | zero => exact le_refl _
  | succ fuel ih =>
    rw [digitsBefore]
    split
    · simp
    · have h := ih (n / 10) (digit n :: acc)
      rw [List.length_cons] at h
      omega

/-- One turn of the conversion on a number of more than one digit. -/
theorem digitsBefore_step {fuel n : Nat} {acc : Bytes} (h : 10 ≤ n) :
    digitsBefore (fuel + 1) n acc = digitsBefore fuel (n / 10) (digit n :: acc) := by
  rw [digitsBefore, if_neg (by omega)]

theorem digitsBefore_last {fuel n : Nat} {acc : Bytes} (h : n < 10) :
    digitsBefore (fuel + 1) n acc = digit n :: acc := by
  rw [digitsBefore, if_pos h]

theorem decimal_three {n : Nat} (h : 100 ≤ n) (h' : n ≤ 999) :
    decimal n = [digit (n / 10 / 10), digit (n / 10), digit n] := by
  obtain ⟨fuel, hf⟩ : ∃ fuel, n + 1 = fuel + 1 + 1 + 1 := ⟨n - 2, by omega⟩
  rw [decimal, hf, digitsBefore_step (by omega), digitsBefore_step (by omega),
    digitsBefore_last (by omega)]

theorem decimal_four {n : Nat} (h : 1000 ≤ n) (h' : n ≤ 9999) :
    decimal n = [digit (n / 10 / 10 / 10), digit (n / 10 / 10), digit (n / 10), digit n] := by
  obtain ⟨fuel, hf⟩ : ∃ fuel, n + 1 = fuel + 1 + 1 + 1 + 1 := ⟨n - 3, by omega⟩
  rw [decimal, hf, digitsBefore_step (by omega), digitsBefore_step (by omega),
    digitsBefore_step (by omega), digitsBefore_last (by omega)]

/-- From 10000 on a year has five digits. -/
theorem decimal_five {n : Nat} (h : 10000 ≤ n) : 5 ≤ (decimal n).length := by
  obtain ⟨fuel, hf⟩ : ∃ fuel, n + 1 = fuel + 1 + 1 + 1 + 1 + 1 := ⟨n - 4, by omega⟩
  rw [decimal, hf, digitsBefore_step (by omega), digitsBefore_step (by omega),
    digitsBefore_step (by omega), digitsBefore_step (by omega), digitsBefore]
  split
  · simp
  · have hlen := digitsBefore_grows fuel (n / 10 / 10 / 10 / 10 / 10)
      (digit (n / 10 / 10 / 10 / 10) :: digit (n / 10 / 10 / 10) :: digit (n / 10 / 10) ::
        digit (n / 10) :: [digit n])
    exact hlen

theorem twoDigits_digits (n : Int) : ∀ b ∈ twoDigits n, isDigit b = true := by
  simp [twoDigits, isDigit_digit]

@[simp] theorem digitSum_nil (magnitude : Int) : digitSum magnitude [] = 0 := rfl

theorem digitSum_cons (magnitude : Int) (n : Nat) (s : Bytes) :
    digitSum magnitude (digit n :: s) = (n % 10 : Nat) * magnitude + digitSum (magnitude * 10) s := by
  rw [digitSum, toNat_digit]
  push_cast
  congr 2
  omega

theorem parseNum_twoDigits {n min max : Int} (h0 : 0 ≤ n) (h : n < 100) (hmin : min ≤ n)
    (hmax : n ≤ max) : parseNum (twoDigits n) 2 min max = some n := by
  have hsum : digitSum 1 (twoDigits n).reverse = n := by
    rw [twoDigits, List.reverse_cons, List.reverse_singleton, List.singleton_append, digitSum_cons,
      digitSum_cons, digitSum_nil]
    omega
  have hdigits : digitsOnly (twoDigits n) = true := List.all_eq_true.mpr (twoDigits_digits n)
  have hlen : (twoDigits n).length = 2 := rfl
  rw [parseNum, if_neg (by simp [hdigits, hlen]), hsum]
  dsimp only
  rw [if_neg (by omega)]

theorem parseNum_year {y : Nat} (h : 1000 ≤ y) (h' : y ≤ 9999) :
    parseNum (decimal y) 4 (-9999) 9999 = some (y : Int) := by
  have hsum : digitSum 1 (decimal y).reverse = y := by
    rw [decimal_four h h']
    simp only [List.reverse_cons, List.reverse_nil, List.nil_append, List.cons_append,
      digitSum_cons, digitSum_nil]
    omega
  have hdigits : digitsOnly (decimal y) = true :=
    List.all_eq_true.mpr (digitsBefore_digits _ _ _ (by simp))
  have hlen : (decimal y).length = 4 := by rw [decimal_four h h']; rfl
  rw [parseNum, if_neg (by simp [hdigits, hlen]), hsum]
  dsimp only
  rw [if_neg (by omega)]

theorem parseNum_long {y : Nat} (h : 10000 ≤ y) : parseNum (decimal y) 4 (-9999) 9999 = none := by
  have hlen := decimal_five h
  rw [parseNum, if_pos (Or.inl ⟨by decide, by omega⟩)]

/-! ## The printed fraction -/

theorem printf3D_digits {p : Int} (h0 : 0 ≤ p) :
    ∀ b ∈ printf3D p, isDigit b = true ∨ b = 32 := by
  intro b hb
  rw [printf3D, printfD, if_neg (by omega)] at hb
  rcases List.mem_append.mp hb with hb | hb
  · exact Or.inr (List.eq_of_mem_replicate hb)
  · exact Or.inl (digitsBefore_digits _ _ _ (by simp) b hb)

theorem dateMillis_full {str : Bytes} {p : Int} (h : 100 ≤ p) (h' : p ≤ 999) :
    dateMillis str (printf3D p) = .ok p := by
  have htext : printf3D p = decimal p.natAbs := by
    rw [printf3D, printfD, if_neg (by omega), decimal_three (by omega) (by omega)]
    rfl
  have hsum : digitSum 1 (decimal p.natAbs).reverse = p := by
    rw [decimal_three (by omega) (by omega)]
    simp only [List.reverse_cons, List.reverse_nil, List.nil_append, List.cons_append,
      digitSum_cons, digitSum_nil]
    omega
  have hdigits : digitsOnly (decimal p.natAbs) = true :=
    List.all_eq_true.mpr (digitsBefore_digits _ _ _ (by simp))
  have hlen : (decimal p.natAbs).length = 3 := by
    rw [decimal_three (by omega) (by omega)]
    rfl
  rw [htext, dateMillis, if_neg (by simp [hdigits, hlen]), hsum, hlen]
  dsimp only
  rw [if_neg (by decide : ¬ 3 = 1), if_neg (by decide : ¬ 3 = 2), if_neg (by omega)]

/-- Below 100 the first octet is a space. -/
theorem dateMillis_short {str : Bytes} {p : Int} (h : 0 < p) (h' : p < 100) :
    ∃ e, dateMillis str (printf3D p) = .error e := by
  have hbad : digitsOnly (printf3D p) = false := by
    obtain ⟨n, rfl⟩ := Int.eq_ofNat_of_zero_le (by omega : 0 ≤ p)
    have htable : ∀ n : Nat, n < 100 → 0 < n → digitsOnly (printf3D (n : Int)) = false := by decide +kernel
    exact htable n (by omega) (by omega)
  rw [dateMillis, if_pos (Or.inr hbad)]
  exact ⟨_, rfl⟩

/-! ## Printed and parsed -/

theorem requireNum_some {str s : Bytes} {digits min max v : Int} {text : String}
    (h : parseNum s digits min max = some v) : requireNum str s digits min max text = .ok v := by
  rw [requireNum, h]

theorem requireNum_none {s : Bytes} {digits min max : Int} (str : Bytes) (text : String)
    (h : parseNum s digits min max = none) :
    ∃ e, requireNum str s digits min max text = .error e := by
  rw [requireNum, h]
  exact ⟨_, rfl⟩

/-- The fields `gmtime` sets, as two digits hold them. -/
structure BsonTm.Printable (tm : BsonTm) : Prop where
  sec : 0 ≤ tm.tmSec ∧ tm.tmSec ≤ 59
  min : 0 ≤ tm.tmMin ∧ tm.tmMin ≤ 59
  hour : 0 ≤ tm.tmHour ∧ tm.tmHour ≤ 23
  mday : 1 ≤ tm.tmMday ∧ tm.tmMday ≤ 31
  mon : 0 ≤ tm.tmMon ∧ tm.tmMon ≤ 11

theorem gmtime_printable (t : Int) : (gmtime t).Printable := by
  have hd := civil_dated (t / 86400)
  obtain ⟨hm1, hm12⟩ := hd.month
  obtain ⟨hd1, hdl⟩ := hd.day
  have hlen := (monthLength_bounds (civil (t / 86400)).1 (civil (t / 86400)).2.1).2
  have hmday : (gmtime t).tmMday = (civil (t / 86400)).2.2 := rfl
  have hmon : (gmtime t).tmMon = (civil (t / 86400)).2.1 - 1 := rfl
  constructor
  · exact (by omega : 0 ≤ t % 60 ∧ t % 60 ≤ 59)
  · exact (by omega : 0 ≤ t / 60 % 60 ∧ t / 60 % 60 ≤ 59)
  · exact (by omega : 0 ≤ t / 3600 % 24 ∧ t / 3600 % 24 ≤ 23)
  · omega
  · omega

theorem gmtime_year {t : Int} (h0 : 0 ≤ t) :
    70 ≤ (gmtime t).tmYear ∧ ((gmtime t).tmYear ≤ 8099 ↔ t < 253402300800) := by
  have hd := civil_dated (t / 86400)
  have hmin := hd.le_year (by omega)
  have hmax := hd.year_le
  simp only [gmtime]
  constructor
  · omega
  · constructor
    · intro h
      have := hmax.mp (by omega)
      omega
    · intro h
      have := hmax.mpr (by omega)
      omega

theorem strftimeIso_shape (tm : BsonTm) :
    strftimeIso tm =
      dateHead (decimal (tm.tmYear + 1900).toNat) (twoDigits (tm.tmMon + 1)) (twoDigits tm.tmMday)
        (twoDigits tm.tmHour) (twoDigits tm.tmMin) ++ twoDigits tm.tmSec := by
  have hdash : ascii "-" = [45] := by decide
  have ht : ascii "T" = [84] := by decide
  have hcolon : ascii ":" = [58] := by decide
  simp only [strftimeIso, dateHead, hdash, ht, hcolon]
  simp only [List.append_assoc, List.cons_append, List.nil_append]

section Numbers

variable {str : Bytes} {tm : BsonTm} (timegm : BsonTm → Int) (millis : Option Bytes)

/-- The numbers of a printed date, once the year has four digits. -/
theorem readNumbers_printed (hp : tm.Printable) (hyear : 70 ≤ tm.tmYear) (hmax : tm.tmYear ≤ 8099) :
    readNumbers timegm str (decimal (tm.tmYear + 1900).toNat) (twoDigits (tm.tmMon + 1))
        (twoDigits tm.tmMday) (twoDigits tm.tmHour) (twoDigits tm.tmMin) (twoDigits tm.tmSec) [90]
        millis =
      (match millis with
        | none => .ok 0
        | some millis => dateMillis str millis) >>= fun millis => .ok (1000 * timegm tm + millis) := by
  obtain ⟨hs, hmi, hh, hd, hmo⟩ := hp
  have hyy := parseNum_year (y := (tm.tmYear + 1900).toNat) (by omega) (by omega)
  have hzone : dateZone str [90] = .ok 0 := rfl
  have htm : BsonTm.mk tm.tmSec tm.tmMin tm.tmHour tm.tmMday (tm.tmMon + 1 - 1)
      (((tm.tmYear + 1900).toNat : Int) - 1900) = tm := by
    cases tm
    simp only [BsonTm.mk.injEq, true_and]
    dsimp only at hyear
    omega
  unfold readNumbers
  simp only [requireNum, hyy, hzone, ok_bind, htm,
    parseNum_twoDigits (show 0 ≤ tm.tmMon + 1 by omega) (by omega) (show 1 ≤ tm.tmMon + 1 by omega)
      (show tm.tmMon + 1 ≤ 12 by omega),
    parseNum_twoDigits (show 0 ≤ tm.tmMday by omega) (by omega) hd.1 hd.2,
    parseNum_twoDigits hh.1 (by omega) hh.1 hh.2, parseNum_twoDigits hmi.1 (by omega) hmi.1 hmi.2,
    parseNum_twoDigits hs.1 (by omega) hs.1 (show tm.tmSec ≤ 60 by omega)]
  cases millis with
  | none => simp
  | some millis => simp

/-- A year of five digits or more is refused. -/
theorem readNumbers_long {mo dd hh mi ss tz : Bytes} (hmax : 8099 < tm.tmYear) :
    ∃ e, readNumbers timegm str (decimal (tm.tmYear + 1900).toNat) mo dd hh mi ss tz millis =
      .error e := by
  obtain ⟨e, he⟩ := requireNum_none str "year must be an integer"
    (parseNum_long (y := (tm.tmYear + 1900).toNat) (by omega))
  unfold readNumbers
  rw [he]
  exact ⟨e, rfl⟩

end Numbers

/-- The printed text: the date, and the milliseconds unless they are zero. -/
theorem bsonIso8601DateFormat_eq {msec : Int} (h0 : 0 ≤ msec) :
    givenText (bsonIso8601DateFormat msec) =
      if msec % 1000 = 0 then strftimeIso (gmtime (msec / 1000)) ++ [90]
      else strftimeIso (gmtime (msec / 1000)) ++ 46 :: (printf3D (msec % 1000) ++ [90]) := by
  have hdot : ascii "." = [46] := by decide
  have hz : ascii "Z" = [90] := by decide
  rw [bsonIso8601DateFormat, Int.tmod_eq_emod_of_nonneg h0, Int.tdiv_eq_ediv_of_nonneg h0, hdot, hz]
  by_cases hzero : msec % 1000 = 0
  · simp [hzero, givenText, StringCall.given]
  · simp [hzero, givenText, StringCall.given]

/-- What the parser answers to the printed text. -/
theorem parse_format (timegm : BsonTm → Int) {msec : Int} (h0 : 0 ≤ msec) :
    (msec < 253402300800000 ∧ (msec % 1000 = 0 ∨ 100 ≤ msec % 1000) →
        bsonIso8601DateParse (givenText (bsonIso8601DateFormat msec)) timegm =
          .ok (1000 * timegm (gmtime (msec / 1000)) + msec % 1000)) ∧
      (¬ (msec < 253402300800000 ∧ (msec % 1000 = 0 ∨ 100 ≤ msec % 1000)) →
        ∃ e, bsonIso8601DateParse (givenText (bsonIso8601DateFormat msec)) timegm = .error e) := by
  have hp := gmtime_printable (msec / 1000)
  obtain ⟨hyear, hmax⟩ := gmtime_year (show 0 ≤ msec / 1000 by omega)
  have hplain : ∀ n, NoSeparator (twoDigits n) := fun n =>
    noSeparator_of_digits fun b hb => Or.inl (twoDigits_digits n b hb)
  have hdecimal : ∀ n, NoSeparator (decimal n) := fun n =>
    noSeparator_of_digits fun b hb => Or.inl (digitsBefore_digits _ _ _ (by simp) b hb)
  have hss : twoDigits (gmtime (msec / 1000)).tmSec ≠ [] := by simp [twoDigits]
  rw [bsonIso8601DateFormat_eq h0]
  by_cases hzero : msec % 1000 = 0
  · rw [if_pos hzero, parse_plain timegm (by rw [strftimeIso_shape, List.append_assoc]) (hdecimal _)
      (hplain _) (hplain _) (hplain _) (hplain _) (hplain _) hss]
    constructor
    · intro ⟨hlt, _⟩
      rw [readNumbers_printed timegm none hp hyear (hmax.mpr (by omega))]
      simp [hzero]
    · intro hnot
      exact readNumbers_long timegm none (by
        have := mt hmax.mp (by omega)
        omega)
  · have hmne : printf3D (msec % 1000) ≠ [] := by
      intro hnil
      have hlen := congrArg List.length hnil
      simp only [printf3D, List.length_append, List.length_replicate, List.length_nil] at hlen
      omega
    rw [if_neg hzero, parse_fraction timegm (by rw [strftimeIso_shape, List.append_assoc])
      (hdecimal _) (hplain _) (hplain _) (hplain _) (hplain _) (hplain _) hss
      (noSeparator_of_digits (printf3D_digits (by omega))) hmne]
    constructor
    · intro ⟨hlt, hfraction⟩
      rw [readNumbers_printed timegm _ hp hyear (hmax.mpr (by omega))]
      dsimp only
      rw [dateMillis_full (by omega) (by omega), ok_bind]
    · intro hnot
      by_cases hlong : (gmtime (msec / 1000)).tmYear ≤ 8099
      · have hlt := hmax.mp hlong
        rw [readNumbers_printed timegm _ hp hyear hlong]
        dsimp only
        obtain ⟨e, he⟩ := dateMillis_short (p := msec % 1000) (by omega) (by omega)
        rw [he]
        exact ⟨e, rfl⟩
      · exact readNumbers_long timegm _ (by omega)

end LibBson.Source
