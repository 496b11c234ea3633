import LibBson.Source.Decimal128
import LibBson.Spec.Decimal
import Mathlib.Tactic.NormNum.Ineq

/-!
# What `bson_decimal128_to_string` prints

Division of the words is division of the number they hold; the array receives
the 36 digits of the significand; the two formats are texts of numerals.
-/

set_option autoImplicit false

namespace LibBson.Source
open LibBson.Library LibBson.Spec

/-! ## Division -/

/-- The number held in words, from high to low. -/
def limbs (parts : List Nat) : Nat := parts.foldl (fun n p => n * 4294967296 + p) 0

def Words (parts : List Nat) : Prop := ∀ p ∈ parts, p < 4294967296

theorem foldl_limbs (parts : List Nat) (n : Nat) :
    parts.foldl (fun n p => n * 4294967296 + p) n =
      n * 4294967296 ^ parts.length + limbs parts := by
  induction parts generalizing n with
  | nil => simp [limbs]
  | cons p parts ih =>
    have hp := ih p
    have hn := ih (n * 4294967296 + p)
    simp only [List.foldl_cons, List.length_cons, limbs, Nat.zero_mul, Nat.zero_add] at hp hn ⊢
    rw [hn, hp, Nat.pow_succ]
    ring

theorem limbs_cons (p : Nat) (parts : List Nat) :
    limbs (p :: parts) = p * 4294967296 ^ parts.length + limbs parts := by
  rw [limbs, List.foldl_cons, foldl_limbs, Nat.zero_mul, Nat.zero_add]

theorem divideParts_spec (parts : List Nat) (rem : Nat) (hw : Words parts)
    (hrem : rem < 1000000000) :
    limbs (divideParts parts rem).1 * 1000000000 + (divideParts parts rem).2 =
        rem * 4294967296 ^ parts.length + limbs parts ∧
      (divideParts parts rem).2 < 1000000000 ∧
      (divideParts parts rem).1.length = parts.length ∧ Words (divideParts parts rem).1 := by
  induction parts generalizing rem with
  | nil => simpa [divideParts, limbs, Words] using hrem
  | cons p parts ih =>
    have hp : p < 4294967296 := hw p (by simp)
    have hcur : u64 (u64 (rem <<< 32) + p) = rem * 4294967296 + p := by
      rw [Nat.shiftLeft_eq]
      unfold u64
      omega
    have hq : u32 ((rem * 4294967296 + p) / 1000000000) =
        (rem * 4294967296 + p) / 1000000000 := u32_of_lt (by omega)
    obtain ⟨hv, hr, hl, hws⟩ := ih ((rem * 4294967296 + p) % 1000000000)
      (fun q hq => hw q (by simp [hq])) (Nat.mod_lt _ (by decide))
    simp only [divideParts, hcur, hq]
    refine ⟨?_, hr, by simp [hl], ?_⟩
    · rw [limbs_cons, limbs_cons, hl, List.length_cons, Nat.pow_succ]
      have hdm := Nat.div_add_mod (rem * 4294967296 + p) 1000000000
      calc
        _ = (rem * 4294967296 + p) / 1000000000 * 1000000000 * 4294967296 ^ parts.length +
            (limbs (divideParts parts ((rem * 4294967296 + p) % 1000000000)).1 * 1000000000 +
              (divideParts parts ((rem * 4294967296 + p) % 1000000000)).2) := by ring
        _ = (1000000000 * ((rem * 4294967296 + p) / 1000000000) +
              (rem * 4294967296 + p) % 1000000000) * 4294967296 ^ parts.length +
            limbs parts := by rw [hv]; ring
        _ = _ := by rw [hdm]; ring
    · intro q hq
      obtain rfl | hq := List.mem_cons.mp hq
      · omega
      · exact hws q hq

theorem limbs_eq_zero {parts : List Nat} : limbs parts = 0 ↔ parts.all (· == 0) = true := by
  induction parts with
  | nil => simp [limbs]
  | cons p parts ih =>
    have hp : 0 < 4294967296 ^ parts.length := Nat.pow_pos (by decide)
    rw [limbs_cons, List.all_cons, Bool.and_eq_true, ← ih, Nat.add_eq_zero_iff,
      Nat.mul_eq_zero, beq_iff_eq]
    constructor
    · rintro ⟨h | h, hr⟩
      · exact ⟨h, hr⟩
      · omega
    · rintro ⟨h, hr⟩
      exact ⟨Or.inl h, hr⟩

theorem bsonUint128Divide1B_spec {value : List Nat} (hw : Words value) :
    limbs (bsonUint128Divide1B value).1 = limbs value / 1000000000 ∧
      (bsonUint128Divide1B value).2 = limbs value % 1000000000 ∧
      Words (bsonUint128Divide1B value).1 := by
  unfold bsonUint128Divide1B
  split
  · rename_i h
    rw [limbs_eq_zero.mpr h]
    exact ⟨rfl, rfl, hw⟩
  · obtain ⟨hv, hr, -, hq⟩ := divideParts_spec value 0 hw (by decide)
    rw [Nat.zero_mul, Nat.zero_add] at hv
    refine ⟨?_, ?_, hq⟩
    · show limbs (divideParts value 0).1 = _
      omega
    · show u32 (divideParts value 0).2 = _
      rw [u32_of_lt (by omega)]
      omega

/-! ## The significand array -/

/-- The entries that hold the digits. -/
def digitWords (ds : List (Fin 10)) : List Nat := ds.map Fin.val

@[simp] theorem digitWords_length (ds : List (Fin 10)) : (digitWords ds).length = ds.length := by
  simp [digitWords]

@[simp] theorem digitWords_append (xs ys : List (Fin 10)) :
    digitWords (xs ++ ys) = digitWords xs ++ digitWords ys := by
  simp [digitWords]

namespace Significand

theorem storeDigits_words (base j least : Nat) (s : Significand)
    (h : base + j ≤ s.words.length) :
    (s.storeDigits base j least).words =
      s.words.take base ++ digitWords (decimals j least) ++ s.words.drop (base + j) := by
  induction j generalizing least s with
  | zero => simp [storeDigits, digitWords, decimals]
  | succ j ih =>
    have hlt : base + j < s.words.length := by omega
    rw [storeDigits, ih _ _ (by simpa [store] using by omega)]
    have hset : s.words.set (base + j) (least % 10) =
        s.words.take (base + j) ++ least % 10 :: s.words.drop (base + (j + 1)) := by
      rw [List.set_eq_take_append_cons_drop, if_pos hlt]
      rfl
    have htake : (s.words.set (base + j) (least % 10)).take base = s.words.take base :=
      List.take_set_of_le (by omega)
    have hdrop : (s.words.set (base + j) (least % 10)).drop (base + j) =
        least % 10 :: s.words.drop (base + (j + 1)) := by
      rw [hset, List.drop_left' (by simp; omega)]
    simp only [store]
    rw [htake, hdrop, decimals, digitWords_append, List.append_assoc, List.append_assoc,
      List.append_assoc]
    rfl

theorem storeDigits_accessed (base j least : Nat) (s : Significand) (h : base + j ≤ 36)
    (hs : ∀ i ∈ s.accessed, i < 36) : ∀ i ∈ (s.storeDigits base j least).accessed, i < 36 := by
  induction j generalizing least s with
  | zero => exact hs
  | succ j ih =>
    apply ih _ _ (by omega)
    intro i hi
    obtain rfl | hi := List.mem_cons.mp hi
    · omega
    · exact hs i hi

/-- The groups of nine leave the last `9 * k` digits in the array. -/
theorem storeGroups_words (k : Nat) (v : List Nat) (s : Significand) (hv : Words v)
    (hlen : k * 9 ≤ s.words.length) (hz : s.words.take (k * 9) = List.replicate (k * 9) 0) :
    (s.storeGroups k v).words = digitWords (decimals (k * 9) (limbs v)) ++ s.words.drop (k * 9) := by
  induction k generalizing v s with
  | zero => simp [storeGroups, digitWords, decimals]
  | succ k ih =>
    obtain ⟨hq, hr, hqw⟩ := bsonUint128Divide1B_spec hv
    have hz9 : s.words.take (k * 9) = List.replicate (k * 9) 0 := by
      have h := congrArg (List.take (k * 9)) hz
      rwa [List.take_take, List.take_replicate, Nat.min_eq_left (by omega)] at h
    have hgroup : (if (bsonUint128Divide1B v).2 = 0 then s
        else s.storeDigits (k * 9) 9 (bsonUint128Divide1B v).2).words =
        s.words.take (k * 9) ++ (digitWords (decimals 9 (limbs v)) ++
          s.words.drop ((k + 1) * 9)) := by
      rw [← decimals_mod 9 (limbs v), show (10 : Nat) ^ 9 = 1000000000 by norm_num, ← hr]
      split
      · rename_i h0
        -- a group of zeros is not stored: the entries are zero already
        rw [h0, decimals_zero, digitWords, List.map_replicate]
        conv_lhs => rw [← List.take_append_drop ((k + 1) * 9) s.words, hz]
        rw [hz9, ← List.append_assoc, Fin.val_zero, List.replicate_append_replicate,
          show k * 9 + 9 = (k + 1) * 9 by omega]
      · rw [storeDigits_words _ _ _ _ (by omega), List.append_assoc,
          show k * 9 + 9 = (k + 1) * 9 by omega]
    have hlk : (s.words.take (k * 9)).length = k * 9 := by rw [List.length_take]; omega
    rw [storeGroups, ih _ _ hqw (by rw [hgroup]; simp; omega)
      (by rw [hgroup, List.take_left' hlk, hz9]), hgroup, List.drop_left' hlk, hq,
      show (k + 1) * 9 = k * 9 + 9 by omega, decimals_add, digitWords_append,
      show (10 : Nat) ^ 9 = 1000000000 by norm_num, List.append_assoc]

theorem storeGroups_accessed (k : Nat) (v : List Nat) (s : Significand) (h : k * 9 ≤ 36)
    (hs : ∀ i ∈ s.accessed, i < 36) : ∀ i ∈ (s.storeGroups k v).accessed, i < 36 := by
  induction k generalizing v s with
  | zero => exact hs
  | succ k ih =>
    have hgroup : ∀ i ∈ (if (bsonUint128Divide1B v).2 = 0 then s
        else s.storeDigits (k * 9) 9 (bsonUint128Divide1B v).2).accessed, i < 36 := by
      by_cases h0 : (bsonUint128Divide1B v).2 = 0
      · rw [if_pos h0]
        exact hs
      · rw [if_neg h0]
        exact storeDigits_accessed _ _ _ _ (by omega) hs
    exact ih (bsonUint128Divide1B v).1 _ (by omega) hgroup

/-- The read pointer stops at the digit behind the zeros. -/
theorem skipZeros_spec (z i d : Nat) (ws : List Nat) (hd : d ≠ 0) :
    (skipZeros (List.replicate z 0 ++ d :: ws) i).1 = i + z ∧
      ∀ a ∈ (skipZeros (List.replicate z 0 ++ d :: ws) i).2, a ≤ i + z := by
  induction z generalizing i with
  | zero =>
    cases d with
    | zero => exact absurd rfl hd
    | succ d => simp [skipZeros]
  | succ z ih =>
    obtain ⟨hf, ha⟩ := ih (i + 1)
    simp only [List.replicate_succ, List.cons_append, skipZeros]
    refine ⟨by omega, ?_⟩
    intro a hm
    obtain rfl | hm := List.mem_cons.mp hm
    · omega
    · have := ha a hm
      omega

end Significand

/-! ## Digits on their way to the text -/

/-- The read pointer stands in front of the digits `ds`; no access was out of bounds. -/
structure Pending (p : Printing) (ds : List (Fin 10)) : Prop where
  words : ∃ rest, p.significand.words.drop p.significandRead = digitWords ds ++ rest
  room : p.significandRead + ds.length ≤ 36
  accessed : ∀ i ∈ p.significand.accessed, i < 36

namespace Pending

variable {p : Printing} {ds : List (Fin 10)}

theorem put (h : Pending p ds) (bs : Bytes) : Pending (p.put bs) ds :=
  ⟨h.words, h.room, h.accessed⟩

theorem putDigit {d : Fin 10} (h : Pending p (d :: ds)) :
    p.putDigit.out = p.out ++ [digit d.val] ∧ Pending p.putDigit ds := by
  obtain ⟨rest, hw⟩ := h.words
  have hroom := h.room
  rw [List.length_cons] at hroom
  have hget : p.significand.words.getD p.significandRead 0 = d.val := by
    have h0 := congrArg (fun l => l.getD 0 0) hw
    simpa [digitWords, List.getD_eq_getElem?_getD, List.getElem?_drop] using h0
  have hd : UInt8.ofNat (d.val + 48) = digit d.val := by
    rw [digit, Nat.mod_eq_of_lt d.isLt, Nat.add_comm]
  refine ⟨?_, ⟨rest, ?_⟩, ?_, ?_⟩
  · rw [Printing.putDigit, hget, hd]
  · have h1 := congrArg (List.drop 1) hw
    rw [List.drop_drop] at h1
    exact h1
  · show p.significandRead + 1 + ds.length ≤ 36
    omega
  · intro i hi
    obtain rfl | hi := List.mem_cons.mp hi
    · omega
    · exact h.accessed i hi

/-- Of `n` digits those are printed for which there is room. -/
theorem putDigits (limit n : Nat) (hn : n ≤ ds.length) (h : Pending p ds) :
    (Printing.putDigits limit n p).out =
        p.out ++ digitText (ds.take (min n (limit - p.out.length))) ∧
      Pending (Printing.putDigits limit n p) (ds.drop (min n (limit - p.out.length))) := by
  induction n generalizing p ds with
  | zero => simpa [Printing.putDigits, digitText] using h
  | succ n ih =>
    cases ds with
    | nil => simp at hn
    | cons d ds =>
      rw [Printing.putDigits]
      split
      · rename_i hlt
        obtain ⟨hout, hp⟩ := h.putDigit
        obtain ⟨hrest, hpr⟩ := ih (by simpa using hn) hp
        have hk : min (n + 1) (limit - p.out.length) =
            min n (limit - p.putDigit.out.length) + 1 := by
          rw [hout, List.length_append, List.length_singleton]
          omega
        rw [hk, List.take_succ_cons, List.drop_succ_cons]
        refine ⟨?_, hpr⟩
        rw [hrest, hout, List.append_assoc]
        rfl
      · rename_i hlt
        rw [show limit - p.out.length = 0 by omega, Nat.min_zero]
        simpa [digitText] using h

end Pending

/-! ## The exponent -/

theorem digitsBefore_text (fuel n : Nat) (acc : Bytes) (hn : n < fuel) :
    ∃ ds : List (Fin 10), digitsBefore fuel n acc = digitText ds ++ acc ∧ ofDigits ds = n ∧
      ds ≠ [] ∧ ∀ k, 1 ≤ k → n < 10 ^ k → ds.length ≤ k := by
  induction fuel generalizing n acc with
  | zero => omega
  | succ fuel ih =>
    have hlast : digit n = digit (⟨n % 10, Nat.mod_lt _ (by decide)⟩ : Fin 10).val := by
      simp [digit]
    rw [digitsBefore]
    split
    · rename_i h10
      refine ⟨[⟨n % 10, Nat.mod_lt _ (by decide)⟩], ?_, ?_, by simp, ?_⟩
      · rw [hlast]
        rfl
      · simp only [ofDigits, List.foldl_cons, List.foldl_nil]
        omega
      · intro k hk _
        simpa using hk
    · obtain ⟨ds, htext, hval, -, hlen⟩ := ih (n / 10) (digit n :: acc) (by omega)
      refine ⟨ds ++ [⟨n % 10, Nat.mod_lt _ (by decide)⟩], ?_, ?_, by simp, ?_⟩
      · rw [htext, hlast]
        simp [digitText]
      · rw [ofDigits_concat, hval]
        show n / 10 * 10 + n % 10 = n
        omega
      · intro k hk hlt
        obtain ⟨k, rfl⟩ : ∃ j, k = j + 1 := ⟨k - 1, by omega⟩
        have hk1 : 1 ≤ k := by
          by_contra h0
          obtain rfl : k = 0 := by omega
          omega
        have hdiv : n / 10 < 10 ^ k := by
          rw [Nat.pow_succ] at hlt
          omega
        have := hlen k hk1 hdiv
        rw [List.length_append, List.length_singleton]
        omega

/-- What `%+d` prints of an exponent is the exponent, in full. -/
theorem signedDecimal_text {x : Int} (hx : x.natAbs < 10000) :
    ∃ e : ExponentPart, e.value = x ∧ 69 :: (Printing.signedDecimal x).take 5 = e.text := by
  obtain ⟨ds, htext, hval, hne, hlen⟩ :=
    digitsBefore_text (x.natAbs + 1) x.natAbs [] (by omega)
  have h4 := hlen 4 (by decide) (by simpa using hx)
  refine ⟨⟨false, some (decide (x < 0)), ds, hne⟩, ?_, ?_⟩
  · simp only [ExponentPart.value, hval, Option.some.injEq, decide_eq_true_eq]
    split <;> omega
  · have hd : decimal x.natAbs = digitText ds := by rw [decimal, htext, List.append_nil]
    have htake : (digitText ds).take 4 = digitText ds :=
      List.take_of_length_le (by simpa [digitText] using h4)
    simp only [Printing.signedDecimal, hd, List.take_succ_cons, htake, ExponentPart.text]
    by_cases h0 : x < 0 <;> simp [h0, signText]

/-! ## The two formats -/

@[simp] theorem digitText_length (ds : List (Fin 10)) : (digitText ds).length = ds.length := by
  simp [digitText]

@[simp] theorem digitText_append (xs ys : List (Fin 10)) :
    digitText (xs ++ ys) = digitText xs ++ digitText ys := by
  simp [digitText]

/-- One digit, the others behind the radix, and an exponent. -/
def scientificNumeral (s : Option Bool) (d : Fin 10) (ds : List (Fin 10)) (e : ExponentPart) :
    Numeral :=
  { sign := s
    whole := [d]
    fraction := if ds = [] then none else some ds
    exponent := some e
    nonempty := by simp }

/-- Up to 33 digits behind a sign, 34 behind none, the format is complete; a digit
for which there is no room is left out. -/
theorem scientific_spec {p : Printing} {s : Option Bool} {d : Fin 10} {ds : List (Fin 10)}
    {x : Int} (h : Pending p (d :: ds)) (hs : p.out = signText s) (hx : x.natAbs < 10000) :
    ∃ e : ExponentPart, e.value = x ∧
      (p.scientific (ds.length + 1) x).str =
        (scientificNumeral s d (ds.take (34 - p.out.length)) e).text ∧
      (p.scientific (ds.length + 1) x).written ≤ 43 ∧
      ∀ i ∈ (p.scientific (ds.length + 1) x).accessed, i < 36 := by
  obtain ⟨e, hev, het⟩ := signedDecimal_text hx
  have hsl : (signText s).length ≤ 1 := by rcases s with - | - | - <;> decide
  obtain ⟨hout, hp1⟩ := h.putDigit
  refine ⟨e, hev, ?_⟩
  cases ds with
  | nil =>
    simp only [Printing.scientific, List.length_nil, Nat.zero_add, Nat.sub_self, ne_eq,
      not_true_eq_false, if_false, Printing.putDigits, Printing.bsonSnprintf, Printing.put,
      Nat.add_one_sub_one, hout, List.take_nil, List.length_append, List.length_singleton]
    refine ⟨?_, by rw [hs]; omega, hp1.accessed⟩
    rw [List.append_assoc, List.append_assoc, hs, List.singleton_append, List.singleton_append,
      het]
    rfl
  | cons c ds =>
    obtain ⟨hout2, hp2⟩ := (hp1.put [46]).putDigits 36 (c :: ds).length le_rfl
    have hlen : (p.putDigit.put [46]).out.length = p.out.length + 2 := by
      simp [Printing.put, hout]
    have hk : ∃ k, 34 - p.out.length = k + 1 := ⟨33 - p.out.length, by rw [hs]; omega⟩
    have hne : (c :: ds).take (34 - p.out.length) ≠ [] := by
      obtain ⟨k, hk⟩ := hk
      rw [hk]
      simp
    have hmin : min (c :: ds).length (36 - (p.putDigit.put [46]).out.length) =
        min (c :: ds).length (34 - p.out.length) := by rw [hlen]; omega
    rw [hmin] at hout2 hp2
    have htake : (c :: ds).take (min (c :: ds).length (34 - p.out.length)) =
        (c :: ds).take (34 - p.out.length) := by
      rcases Nat.le_total (c :: ds).length (34 - p.out.length) with hle | hle
      · rw [Nat.min_eq_left hle, List.take_length, List.take_of_length_le hle]
      · rw [Nat.min_eq_right hle]
    have hscientific : p.scientific ((c :: ds).length + 1) x =
        ((Printing.putDigits 36 (c :: ds).length (p.putDigit.put [46])).put [69]).bsonSnprintf
          6 x := by
      simp [Printing.scientific]
    rw [hscientific]
    refine ⟨?_, ?_, hp2.accessed⟩
    · simp only [Printing.bsonSnprintf, Printing.put] at hout2 ⊢
      rw [hout2, htake, hout, hs, List.append_assoc, List.singleton_append,
        show 6 - 1 = 5 from rfl, het]
      simp [Numeral.text, scientificNumeral, hs ▸ hne, Numeral.fractionText,
        Numeral.exponentText, digitText]
    · simp only [Printing.bsonSnprintf, Printing.put] at hout2 hlen ⊢
      rw [hout2, List.length_append, List.length_append, hlen, digitText_length,
        List.length_take, List.length_singleton, hs]
      omega

theorem scientificNumeral_digits (s : Option Bool) (d : Fin 10) (ds : List (Fin 10))
    (e : ExponentPart) : (scientificNumeral s d ds e).digits = d :: ds := by
  unfold scientificNumeral Numeral.digits
  split
  · rename_i h
    simp [h]
  · rfl

theorem scientificNumeral_scale (s : Option Bool) (d : Fin 10) (ds : List (Fin 10))
    (e : ExponentPart) : (scientificNumeral s d ds e).scale = e.value - ds.length := by
  unfold scientificNumeral Numeral.scale
  split
  · rename_i h
    simp [h, Numeral.power]
  · rfl

/-- Room for all of the digits. -/
theorem Pending.putAll {p : Printing} {ds rest : List (Fin 10)} (h : Pending p (ds ++ rest))
    (limit : Nat) (hroom : p.out.length + ds.length ≤ limit) :
    (Printing.putDigits limit ds.length p).out = p.out ++ digitText ds ∧
      Pending (Printing.putDigits limit ds.length p) rest := by
  obtain ⟨hout, hp⟩ := h.putDigits limit ds.length (by simp)
  rw [Nat.min_eq_left (by omega)] at hout hp
  rw [List.take_left' rfl] at hout
  rw [List.drop_left' rfl] at hp
  exact ⟨hout, hp⟩

/-- The format shows every digit; what it takes is more than 43 octets for a sign,
35 digits and five zeros behind the radix. -/
theorem regular_spec {p : Printing} {s : Option Bool} {ds : List (Fin 10)} {x : Int}
    (h : Pending p ds) (hs : p.out = signText s) (hne : ds ≠ []) (hlen : ds.length ≤ 35)
    (hx : x ≤ 0) (hsci : -6 ≤ (ds.length : Int) - 1 + x) :
    ∃ n : Numeral, n.sign = s ∧ (p.regular ds.length x).str = n.text ∧
      ofDigits n.digits = ofDigits ds ∧ n.scale = x ∧ n.power = 0 ∧
      (43 < (p.regular ds.length x).written ↔
        (signText s).length = 1 ∧ ds.length = 35 ∧ x = -40) ∧
      ∀ i ∈ (p.regular ds.length x).accessed, i < 36 := by
  have hsl : (signText s).length ≤ 1 := by rcases s with - | - | - <;> decide
  have hpos : 0 < ds.length := List.length_pos_iff.mpr hne
  have hol : p.out.length = (signText s).length := by rw [hs]
  unfold Printing.regular
  split
  · -- no radix
    rename_i h0
    obtain rfl : x = 0 := by omega
    rw [← List.append_nil ds] at h
    obtain ⟨hout, hp⟩ := h.putAll 36 (by omega)
    refine ⟨⟨s, ds, none, none, by simpa using hne⟩, rfl, ?_, by simp [Numeral.digits], rfl,
      rfl, ?_, hp.accessed⟩
    · simp [Printing.finish, hout, hs, Numeral.text, Numeral.fractionText, Numeral.exponentText]
    · simp only [Printing.finish, hout, List.length_append, digitText_length]
      omega
  · rename_i h0
    have hrp : i32 (ofInt32 ((ds.length : Int) + x)) = ds.length + x :=
      i32_ofInt32 (by omega) (by omega)
    simp only [hrp]
    split
    · -- digits in front of the radix
      rename_i hr
      obtain ⟨k, hk⟩ : ∃ k : Nat, (ds.length : Int) + x = k := ⟨_, (Int.toNat_of_nonneg (by omega)).symm⟩
      have hzero : (-((ds.length : Int) + x)).toNat = 0 := by omega
      have hmax : (max ((ds.length : Int) + x) 0 + 1 - 1 : Int) = k := by omega
      have hkl : (ds.take k).length = k := by rw [List.length_take]; omega
      have hdl : (ds.drop k).length = ds.length - k := List.length_drop
      have hsplit : Pending p (ds.take k ++ ds.drop k) := by rwa [List.take_append_drop]
      obtain ⟨hout1, hp1⟩ := hsplit.putAll bsonDecimal128String
        (by unfold bsonDecimal128String; omega)
      rw [hkl] at hout1 hp1
      have hp2 := hp1.put [46]
      rw [← List.append_nil (ds.drop k)] at hp2
      obtain ⟨hout2, hp3⟩ := hp2.putAll bsonDecimal128String (by
        simp only [Printing.put, hout1, List.length_append, digitText_length, hkl,
          List.length_singleton]
        unfold bsonDecimal128String
        omega)
      have hn : u32sub ds.length (max (max ((ds.length : Int) + x) 0 + 1 - 1) 0).toNat =
          (ds.drop k).length := by
        rw [hmax, hdl, u32sub_of_le (by omega) (by omega)]
        omega
      have hput : ∀ q : Printing, q.put (List.replicate 0 48) = q := by
        intro q
        simp [Printing.put]
      rw [hn, hzero, hput, hk, Int.toNat_natCast]
      refine ⟨⟨s, ds.take k, some (ds.drop k), none, by simpa using hne⟩, rfl, ?_,
        by simp [Numeral.digits], ?_, rfl, ?_, hp3.accessed⟩
      · simp only [Printing.finish, hout2]
        simp [Printing.put, hout1, hs, Numeral.text, Numeral.fractionText, Numeral.exponentText]
      · simp only [Numeral.scale, Numeral.power, Option.elim, Option.getD_some, hdl]
        omega
      · simp only [Printing.finish, hout2]
        simp only [Printing.put, hout1, List.length_append, digitText_length, hkl, hdl,
          List.length_singleton]
        omega
    · -- leading zeros
      rename_i hr
      obtain ⟨z, hz⟩ : ∃ z : Nat, (ds.length : Int) + x = -z :=
        ⟨(-((ds.length : Int) + x)).toNat, by omega⟩
      have hmax : (max (max ((ds.length : Int) + x) 0 + 1 - 1) 0).toNat = 0 := by omega
      have hzero : (-((ds.length : Int) + x)).toNat = z := by omega
      have hp2 := ((h.put [48]).put [46]).put (List.replicate z 48)
      rw [← List.append_nil ds] at hp2
      obtain ⟨hout2, hp3⟩ := hp2.putAll bsonDecimal128String (by
        simp only [Printing.put, List.length_append, List.length_replicate,
          List.length_singleton]
        unfold bsonDecimal128String
        omega)
      have hzeros : (List.replicate z 48 : Bytes) = digitText (List.replicate z 0) := by
        rw [digitText, List.map_replicate]
        rfl
      rw [hmax, u32sub_of_le (by omega) (by omega), Nat.sub_zero, hzero]
      refine ⟨⟨s, [0], some (List.replicate z 0 ++ ds), none, by simp⟩, rfl, ?_, ?_, ?_, rfl, ?_,
        hp3.accessed⟩
      · simp only [Printing.finish, hout2]
        simp [Printing.put, hs, Numeral.text, Numeral.fractionText, Numeral.exponentText, hzeros]
        rfl
      · simp only [Numeral.digits, Option.getD_some]
        rw [List.singleton_append, ofDigits_cons, ofDigits_append, ofDigits_replicate]
        simp
      · simp only [Numeral.scale, Numeral.power, Option.elim, Option.getD_some,
          List.length_append, List.length_replicate]
        omega
      · simp only [Printing.finish, hout2]
        simp only [Printing.put, List.length_append, digitText_length, List.length_replicate,
          List.length_singleton]
        omega

/-! ## A finite number -/

/-- The number the printer shows: a coefficient that needs more than 113 bits is zero. -/
def shownCoefficient (v : Nat) : Nat := if v < 2 ^ 113 then v else 0

theorem shownCoefficient_lt (v : Nat) : shownCoefficient v < 10 ^ 35 := by
  unfold shownCoefficient
  split
  · rename_i h
    exact Nat.lt_trans h (by norm_num)
  · norm_num

/-- A number below the next power of ten but one: zeros, then its digits. -/
theorem decimals_split {n v : Nat} (h0 : v ≠ 0) (hv : v < 10 ^ n) :
    ∃ (z : Nat) (d : Fin 10) (ds : List (Fin 10)), d ≠ 0 ∧
      decimals n v = List.replicate z 0 ++ d :: ds := by
  have hval := ofDigits_decimals_of_lt hv
  generalize decimals n v = l at hval
  induction l with
  | nil => exact absurd hval.symm h0
  | cons c l ih =>
    by_cases hc : c = 0
    · rw [hc, ofDigits_cons] at hval
      obtain ⟨z, d, ds, hd, hl⟩ := ih (by simpa using hval)
      exact ⟨z + 1, d, ds, hd, by rw [hl, hc]; rfl⟩
    · exact ⟨0, c, l, hc, rfl⟩

/-- A digit in front counts: the digits are as many as the number needs. -/
theorem length_of_lead {d : Fin 10} (hd : d ≠ 0) (ds : List (Fin 10)) {k : Nat} :
    10 ^ k ≤ ofDigits (d :: ds) ↔ k ≤ ds.length := by
  have hlo := le_ofDigits hd ds
  have hhi := ofDigits_lt (d :: ds)
  constructor
  · intro h
    by_contra hk
    have hp : 10 ^ (ds.length + 1) ≤ 10 ^ k := Nat.pow_le_pow_right (by decide) (by omega)
    rw [List.length_cons] at hhi
    omega
  · intro h
    exact Nat.le_trans (Nat.pow_le_pow_right (by decide) h) hlo

/-- What `printFinite` has when it comes to the format. -/
structure Prepared (v : Nat) (p : Printing) (d : Fin 10) (ds : List (Fin 10)) : Prop where
  pending : Pending p (d :: ds)
  value : ofDigits (d :: ds) = v
  lead : d ≠ 0 ∨ d = 0 ∧ ds = []

theorem Prepared.length_le {v : Nat} {p : Printing} {d : Fin 10} {ds : List (Fin 10)}
    (h : Prepared v p d ds) {k : Nat} (hv : v < 10 ^ (k + 1)) : ds.length ≤ k := by
  obtain hd | ⟨-, hds⟩ := h.lead
  · by_contra hk
    have := (length_of_lead hd ds (k := k + 1)).mpr (by omega)
    rw [h.value] at this
    omega
  · rw [hds]
    exact Nat.zero_le _

theorem Prepared.le_length {v : Nat} {p : Printing} {d : Fin 10} {ds : List (Fin 10)}
    (h : Prepared v p d ds) {k : Nat} (hk : 1 ≤ k) : k ≤ ds.length ↔ 10 ^ k ≤ v := by
  obtain hd | ⟨hd, hds⟩ := h.lead
  · rw [← h.value, length_of_lead hd ds]
  · have hp : 0 < 10 ^ k := Nat.pow_pos (by decide)
    rw [← h.value, hd, hds]
    simp only [List.length_nil, ofDigits_cons, ofDigits_nil]
    constructor
    · omega
    · intro h
      simp at h

theorem Prepared.ne_zero {v : Nat} {p : Printing} {d : Fin 10} {ds : List (Fin 10)}
    (h : Prepared v p d ds) (hv : v ≠ 0) : d ≠ 0 := by
  obtain hd | ⟨hd, hds⟩ := h.lead
  · exact hd
  · exact absurd (by rw [← h.value, hd, hds]; rfl) hv

/-- The array and the read pointer of a significand that is not zero. -/
theorem prepared_significand {parts : List Nat} (hw : Words parts) (out : Bytes)
    (h0 : limbs parts ≠ 0) (hv : limbs parts < 2 ^ 113) :
    let s := Significand.new.storeGroups 4 parts
    let r := Significand.skipZeros s.words 0
    ∃ (d : Fin 10) (ds : List (Fin 10)),
      Prepared (limbs parts)
        { out := out, significand := { s with accessed := r.2 ++ s.accessed }
          significandRead := r.1 } d ds ∧
      36 - r.1 = ds.length + 1 := by
  intro s r
  have hlt : limbs parts < 10 ^ 36 := Nat.lt_trans hv (by norm_num)
  obtain ⟨z, d, ds, hd, hsplit⟩ := decimals_split h0 hlt
  have hwords : s.words = List.replicate z 0 ++ d.val :: digitWords ds := by
    have hg := Significand.storeGroups_words 4 parts Significand.new hw (by decide) (by decide)
    rw [show s.words = _ from hg, show 4 * 9 = 36 from rfl, hsplit]
    simp [digitWords, Significand.new]
  have hlen : z + (ds.length + 1) = 36 := by
    have := congrArg List.length hsplit
    simpa using this.symm
  have hdv : d.val ≠ 0 := fun h => hd (Fin.ext h)
  obtain ⟨hread, hacc⟩ := Significand.skipZeros_spec z 0 d.val (digitWords ds) hdv
  rw [← hwords] at hread hacc
  have hr : r.1 = z := by
    show (Significand.skipZeros s.words 0).1 = z
    omega
  refine ⟨d, ds, ⟨⟨⟨[], ?_⟩, ?_, ?_⟩, ?_, Or.inl hd⟩, by omega⟩
  · show s.words.drop r.1 = _
    rw [hr, hwords, List.drop_left' (by simp)]
    simp [digitWords]
  · show r.1 + (ds.length + 1) ≤ 36
    omega
  · intro i hi
    obtain hi | hi := List.mem_append.mp hi
    · have := hacc i hi
      omega
    · exact Significand.storeGroups_accessed 4 parts _ (by decide) (by simp [Significand.new]) i hi
  · have h := ofDigits_decimals_of_lt hlt
    rw [hsplit, ofDigits_append, ofDigits_replicate] at h
    simpa using h

theorem prepared_zero (out : Bytes) :
    Prepared 0 { out := out, significand := Significand.new.store 0 0, significandRead := 0 }
      0 [] := by
  refine ⟨⟨⟨List.replicate 35 0, rfl⟩, ?_, ?_⟩, rfl, Or.inr ⟨rfl, rfl⟩⟩
  · show 0 + 1 ≤ 36
    decide
  · intro i hi
    obtain rfl : i = 0 := by simpa [Significand.store, Significand.new] using hi
    decide

/-- Both formats, on digits that are ready. -/
theorem format_spec {v : Nat} {p : Printing} {d : Fin 10} {ds : List (Fin 10)} {s : Option Bool}
    {x : Int} (h : Prepared v p d ds) (hs : p.out = signText s) (hv : v < 10 ^ 35)
    (hlo : -6176 ≤ x) (hhi : x ≤ 6111) :
    let e := i32 (ofInt32 (((ds.length + 1 : Nat) : Int) - 1 + x))
    let printed :=
      if e < -6 ∨ 0 < x then p.scientific (ds.length + 1) e else p.regular (ds.length + 1) x
    ∃ n : Numeral, n.sign = s ∧ printed.str = n.text ∧ n.power.natAbs < 10000 ∧
      (v < coefficientLimit → ofDigits n.digits = v ∧ n.scale = x) ∧
      (v ≠ 0 → ofDigits n.digits ≠ 0) ∧
      (43 < printed.written ↔ (signText s).length = 1 ∧ coefficientLimit ≤ v ∧ x = -40) ∧
      ∀ i ∈ printed.accessed, i < 36 := by
  intro e printed
  have hlen : ds.length ≤ 34 := h.length_le hv
  have hlimit : 34 ≤ ds.length ↔ coefficientLimit ≤ v := h.le_length (by decide)
  have hsl : (signText s).length ≤ 1 := by rcases s with - | - | - <;> decide
  have he : e = ds.length + x := by
    show i32 (ofInt32 _) = _
    rw [i32_ofInt32] <;> omega
  by_cases hcase : e < -6 ∨ 0 < x
  · have hp : printed = p.scientific (ds.length + 1) e := if_pos hcase
    obtain ⟨ex, hex, htext, hwritten, hacc⟩ := scientific_spec h.pending hs
      (x := e) (by omega)
    rw [hp]
    refine ⟨_, rfl, htext, ?_, ?_, ?_, ?_, hacc⟩
    · show ex.value.natAbs < 10000
      omega
    · intro hlt
      have hl : ds.length ≤ 33 := by
        by_contra hc
        have := hlimit.mp (by omega)
        omega
      have htake : ds.take (34 - p.out.length) = ds := by
        apply List.take_of_length_le
        rw [hs]
        omega
      rw [scientificNumeral_digits, scientificNumeral_scale, htake, h.value, hex]
      exact ⟨rfl, by omega⟩
    · intro hv0
      have hpos := le_ofDigits (h.ne_zero hv0) (ds.take (34 - p.out.length))
      have hp10 : 0 < 10 ^ (ds.take (34 - p.out.length)).length := Nat.pow_pos (by decide)
      rw [scientificNumeral_digits]
      omega
    · constructor
      · omega
      · rintro ⟨-, hc, rfl⟩
        have := hlimit.mpr hc
        omega
  · have hp : printed = p.regular (ds.length + 1) x := if_neg hcase
    obtain ⟨n, hns, htext, hval, hscale, hpower, hwritten, hacc⟩ :=
      regular_spec (x := x) h.pending hs (by simp) (by rw [List.length_cons]; omega) (by omega)
        (by rw [List.length_cons]; omega)
    rw [hp]
    refine ⟨n, hns, htext, by rw [hpower]; decide, fun _ => ⟨by rw [hval, h.value], hscale⟩, ?_,
      ?_, hacc⟩
    · rw [hval, h.value]
      exact id
    · rw [← hlimit]
      rw [List.length_cons] at hwritten
      rw [hwritten]
      constructor
      · rintro ⟨h1, h2, h3⟩
        exact ⟨h1, by omega, h3⟩
      · rintro ⟨h1, h2, h3⟩
        exact ⟨h1, by omega, h3⟩

/-- What is printed of a finite number with the sign in front. -/
structure PrintsFinite (s : Option Bool) (v : Nat) (x : Int) (printed : Printed) : Prop where
  numeral : ∃ n : Numeral, n.sign = s ∧ printed.str = n.text ∧ n.power.natAbs < 10000 ∧
    (v < coefficientLimit → ofDigits n.digits = v ∧ n.scale = x) ∧
    (v ≠ 0 → ofDigits n.digits ≠ 0)
  written : 43 < printed.written ↔ (signText s).length = 1 ∧ coefficientLimit ≤ v ∧ x = -40
  accessed : ∀ i ∈ printed.accessed, i < 36

theorem printFinite_spec {a b c e : Nat} {x : Int} (s : Option Bool) (hw : Words [a, b, c, e])
    (hlo : -6176 ≤ x) (hhi : x ≤ 6111) :
    PrintsFinite s (shownCoefficient (limbs [a, b, c, e])) x
      (printFinite (signText s) x [a, b, c, e]) := by
  have hb : b < 4294967296 := hw b (by simp)
  have hc : c < 4294967296 := hw c (by simp)
  have he : e < 4294967296 := hw e (by simp)
  have hval : limbs [a, b, c, e] =
      ((a * 4294967296 + b) * 4294967296 + c) * 4294967296 + e := by
    simp [limbs]
  have hv35 := shownCoefficient_lt (limbs [a, b, c, e])
  by_cases hz : ([a, b, c, e].all (· == 0) || decide (1 <<< 17 ≤ [a, b, c, e].headD 0)) = true
  · have hshown : shownCoefficient (limbs [a, b, c, e]) = 0 := by
      rw [Bool.or_eq_true, ← limbs_eq_zero, decide_eq_true_eq] at hz
      unfold shownCoefficient
      split
      · obtain hz | hz := hz
        · exact hz
        · simp only [List.headD_cons, Nat.shiftLeft_eq] at hz
          omega
      · rfl
    obtain ⟨n, h1, h2, h3, h4, h5, h6, h7⟩ :=
      format_spec (prepared_zero (signText s)) (s := s) (x := x) rfl (by decide) hlo hhi
    rw [hshown]
    simp only [printFinite, hz, if_true]
    exact ⟨⟨n, h1, h2, h3, h4, h5⟩, h6, h7⟩
  · have hnz := hz
    rw [Bool.or_eq_true, ← limbs_eq_zero, decide_eq_true_eq, not_or] at hnz
    have hlt : limbs [a, b, c, e] < 2 ^ 113 := by
      have ha := hnz.2
      simp only [List.headD_cons, Nat.shiftLeft_eq] at ha
      omega
    obtain ⟨d, ds, hp, hdigits⟩ := prepared_significand hw (signText s) hnz.1 hlt
    have hshown : shownCoefficient (limbs [a, b, c, e]) = limbs [a, b, c, e] := if_pos hlt
    rw [hshown] at hv35 ⊢
    obtain ⟨n, h1, h2, h3, h4, h5, h6, h7⟩ := format_spec hp (s := s) (x := x) rfl hv35 hlo hhi
    simp only [printFinite, hz, if_false, Bool.false_eq_true, hdigits]
    exact ⟨⟨n, h1, h2, h3, h4, h5⟩, h6, h7⟩

/-! ## The fields of a pattern -/

/-- The 128 bits as one number. -/
def BsonDecimal128.pattern (dec : BsonDecimal128) : Nat :=
  dec.high.toNat * 2 ^ 64 + dec.low.toNat

/-- The sign `-` for a set sign bit, none otherwise. -/
def signOf (negative : Bool) : Option Bool := if negative then some true else none

theorem negative_signOf (b : Bool) : (signOf b == some true) = b := by cases b <;> rfl

def BsonDecimal128.negative (dec : BsonDecimal128) : Bool := bits dec.pattern 127 1 == 1

theorem mask (x n : Nat) : x &&& (2 ^ n - 1) = x % 2 ^ n := Nat.and_two_pow_sub_one_eq_mod x n

section Fields

variable (dec : BsonDecimal128)

theorem sign_text : (if dec.high.toInt < 0 then [45] else [] : Bytes) =
    signText (signOf dec.negative) := by
  have hh := dec.high.isLt
  have hl := dec.low.isLt
  have hneg : dec.high.toInt < 0 ↔ dec.negative = true := by
    rw [BsonDecimal128.negative, beq_iff_eq, bits, BsonDecimal128.pattern,
      BitVec.toInt_eq_toNat_cond]
    split <;> omega
  unfold signOf
  by_cases hc : dec.negative = true
  · rw [if_pos (hneg.mpr hc), if_pos hc]
    rfl
  · rw [if_neg (fun h => hc (hneg.mp h)), if_neg hc]
    rfl

theorem combination_eq :
    (u32 (dec.high.toNat >>> 32) >>> 26) &&& 0x1f = bits dec.pattern 122 5 := by
  have hh := dec.high.isLt
  have hl := dec.low.isLt
  rw [show (0x1f : Nat) = 2 ^ 5 - 1 from rfl, mask, Nat.shiftRight_eq_div_pow,
    Nat.shiftRight_eq_div_pow]
  unfold u32 bits BsonDecimal128.pattern
  omega

/-- The words from which the significand is read, and the biased exponent. -/
theorem decodeCombination_fields :
    let high := u32 (dec.high.toNat >>> 32)
    let fields := decodeCombination high
    let parts := [(high &&& 0x3fff) + ((fields.2 &&& 0xf) <<< 14), u32 dec.high.toNat,
      u32 (dec.low.toNat >>> 32), u32 dec.low.toNat]
    Words parts ∧ fields.1 = (bidFields dec.pattern).1 ∧ limbs parts = (bidFields dec.pattern).2 := by
  intro high fields parts
  have hh := dec.high.isLt
  have hl := dec.low.isLt
  have hhigh : high = dec.high.toNat / 4294967296 := by
    show u32 (dec.high.toNat >>> 32) = _
    rw [Nat.shiftRight_eq_div_pow]
    exact u32_of_lt (by omega)
  have m5 : ∀ n, n &&& 0x1f = n % 32 := fun n => mask n 5
  have m14 : ∀ n, n &&& 0x3fff = n % 16384 := fun n => mask n 14
  have m1 : ∀ n, n &&& 0x1 = n % 2 := fun n => mask n 1
  have m3 : ∀ n, n &&& 0x7 = n % 8 := fun n => mask n 3
  have m4 : ∀ n, n &&& 0xf = n % 16 := fun n => mask n 4
  have hlayout : ((high >>> 26) &&& 0x1f) >>> 3 = 3 ↔ bits dec.pattern 125 2 = 3 := by
    rw [m5, Nat.shiftRight_eq_div_pow, Nat.shiftRight_eq_div_pow, hhigh]
    unfold bits BsonDecimal128.pattern
    omega
  have hwords : ∀ msb : Nat, msb < 16 → Words [(high &&& 0x3fff) + ((msb &&& 0xf) <<< 14),
      u32 dec.high.toNat, u32 (dec.low.toNat >>> 32), u32 dec.low.toNat] ∧
      limbs [(high &&& 0x3fff) + ((msb &&& 0xf) <<< 14),
        u32 dec.high.toNat, u32 (dec.low.toNat >>> 32), u32 dec.low.toNat] =
        msb * 2 ^ 110 + bits dec.pattern 0 110 := by
    intro msb hmsb
    rw [m14, m4, Nat.shiftLeft_eq, hhigh, Nat.mod_eq_of_lt hmsb]
    constructor
    · intro p hp
      simp only [List.mem_cons, List.not_mem_nil, or_false] at hp
      obtain rfl | rfl | rfl | rfl := hp
      · omega
      · exact u32_lt _
      · exact u32_lt _
      · exact u32_lt _
    · simp only [limbs, List.foldl_cons, List.foldl_nil, Nat.shiftRight_eq_div_pow]
      unfold u32 bits BsonDecimal128.pattern
      omega
  by_cases hc : bits dec.pattern 125 2 = 3
  · have hf : fields = ((high >>> 15) &&& 0x3fff, 0x8 + ((high >>> 14) &&& 0x1)) :=
      if_pos (hlayout.mpr hc)
    have hb : bidFields dec.pattern = (bits dec.pattern 111 14,
      (8 + bits dec.pattern 110 1) * 2 ^ 110 + bits dec.pattern 0 110) := if_pos hc
    have hmsb : fields.2 = 8 + bits dec.pattern 110 1 := by
      rw [hf, m1, Nat.shiftRight_eq_div_pow, hhigh]
      unfold bits BsonDecimal128.pattern
      omega
    obtain ⟨h1, h2⟩ := hwords fields.2 (by rw [hmsb]; unfold bits; omega)
    refine ⟨h1, ?_, by rw [h2, hb, hmsb]⟩
    rw [hf, hb, m14, Nat.shiftRight_eq_div_pow, hhigh]
    unfold bits BsonDecimal128.pattern
    omega
  · have hf : fields = ((high >>> 17) &&& 0x3fff, (high >>> 14) &&& 0x7) :=
      if_neg (fun h => hc (hlayout.mp h))
    have hb : bidFields dec.pattern = (bits dec.pattern 113 14, bits dec.pattern 0 113) :=
      if_neg hc
    have hmsb : fields.2 = bits dec.pattern 110 3 := by
      rw [hf, m3, Nat.shiftRight_eq_div_pow, hhigh]
      unfold bits BsonDecimal128.pattern
      omega
    obtain ⟨h1, h2⟩ := hwords fields.2 (by rw [hmsb]; unfold bits; omega)
    refine ⟨h1, ?_, ?_⟩
    · rw [hf, hb, m14, Nat.shiftRight_eq_div_pow, hhigh]
      unfold bits BsonDecimal128.pattern
      omega
    · rw [h2, hb, hmsb]
      unfold bits
      omega

/-- A pattern that is no infinity and no NaN. -/
def IsNumber (pattern : Nat) : Prop := bits pattern 122 5 ≠ 30 ∧ bits pattern 122 5 ≠ 31

theorem finite_of_layout {pattern : Nat} (h : bits pattern 125 2 ≠ 3) : IsNumber pattern := by
  unfold bits at h
  unfold IsNumber bits
  omega

theorem bidValue_finite {pattern : Nat} (h : IsNumber pattern) :
    bidValue pattern = .finite (bits pattern 127 1 == 1)
      (if (bidFields pattern).2 < coefficientLimit then (bidFields pattern).2 else 0)
      (((bidFields pattern).1 : Int) - 6176) := by
  simp only [bidValue, if_neg h.1, if_neg h.2]

theorem bidFields_fst_lt {pattern : Nat} (h : IsNumber pattern) :
    (bidFields pattern).1 < 12288 := by
  unfold IsNumber bits at h
  unfold bidFields bits
  split <;> dsimp only <;> omega

theorem bsonDecimal128ToString_finite (h : IsNumber dec.pattern) :
    PrintsFinite (signOf dec.negative) (shownCoefficient (bidFields dec.pattern).2)
      (((bidFields dec.pattern).1 : Int) - 6176) (bsonDecimal128ToString dec) := by
  obtain ⟨hw, he, hc⟩ := decodeCombination_fields dec
  have hlt := bidFields_fst_lt h
  have hx : i32 (u32sub (bidFields dec.pattern).1 6176) =
      ((bidFields dec.pattern).1 : Int) - 6176 := by
    unfold i32 u32sub
    split <;> omega
  have hp := printFinite_spec (signOf dec.negative) hw (x := ((bidFields dec.pattern).1 : Int) - 6176)
    (by omega) (by omega)
  rw [hc] at hp
  simp only [bsonDecimal128ToString, combination_eq, sign_text, if_neg h.1, if_neg h.2, he, hx]
  exact hp

theorem bsonDecimal128ToString_infinity (h : bits dec.pattern 122 5 = 30) :
    bsonDecimal128ToString dec =
      { str := signText (signOf dec.negative) ++ ascii "Infinity"
        written := (signText (signOf dec.negative)).length + 9
        accessed := [] } := by
  simp only [bsonDecimal128ToString, combination_eq, sign_text, h, if_true, List.length_append]
  rfl

theorem bsonDecimal128ToString_nan (h : bits dec.pattern 122 5 = 31) :
    bsonDecimal128ToString dec =
      { str := ascii "NaN"
        written := max (signText (signOf dec.negative)).length 4
        accessed := [] } := by
  simp only [bsonDecimal128ToString, combination_eq, sign_text, h]
  rfl

end Fields

end LibBson.Source
