import LibBson.Library.Base64
import LibBson.Source.Base64
import Mathlib.Tactic.IntervalCases

/-!
# Base 64 texts and the octets they stand for

One function over the text says which digits the loops see and where they stop; each loop
then ends at the state of those digits.
-/

set_option autoImplicit false

namespace LibBson.Source
open LibBson.Library LibBson.Library.Base64

/-! ## Characters -/

deriving instance DecidableEq for B64Class

/-- The digit of a character. -/
def digitOf (c : UInt8) : Option (Fin 64) := (List.finRange 64).find? fun d => char d == c

theorem digitOf_char (d : Fin 64) : digitOf (char d) = some d := by
  revert d
  decide +kernel

theorem char_digitOf {c : UInt8} {d : Fin 64} (h : digitOf c = some d) : char d = c := by
  have hfound := List.find?_some h
  exact beq_iff_eq.mp hfound

theorem base64Char_char (d : Fin 64) : base64Char (UInt8.ofNat d) = char d := by
  revert d
  decide +kernel

/-- The class of a character other than NUL, by what it is. -/
def b64ClassOf (c : UInt8) : B64Class :=
  if isSpace c then .space
  else
    match digitOf c with
    | some d => .ofs (UInt8.ofNat d)
    | none => if c = 61 then .end else .invalid

theorem b64Class_eq (before : UInt8 → B64Class) {c : UInt8} (hascii : c < 128) (hnul : c ≠ 0) :
    b64Class before c = b64ClassOf c := by
  have hall : ∀ n < 128, n ≠ 0 → b64rmap (UInt8.ofNat n) = b64ClassOf (UInt8.ofNat n) := by
    decide +kernel
  have hc := hall c.toNat (UInt8.lt_iff_toNat_lt.mp hascii) fun h => hnul (UInt8.toNat_inj.mp h)
  rw [UInt8.ofNat_toNat] at hc
  rw [b64Class, if_pos hascii, hc]

theorem char_plain (d : Fin 64) : isSpace (char d) = false ∧ char d < 128 ∧ char d ≠ 0 ∧
    char d ≠ 61 := by
  revert d
  decide +kernel

/-! ## What the loops see -/

/-- The digits in front of the first other character, white space left out, and the text
from that character on. -/
def b64Scan : Bytes → Digits × Bytes
  | [] => ([], [])
  | ch :: src =>
    if isSpace ch then b64Scan src
    else
      match digitOf ch with
      | some d => (d :: (b64Scan src).1, (b64Scan src).2)
      | none => ([], ch :: src)

/-- Where the loops stop without an error. -/
def B64Ends (rest : Bytes) : Prop := rest = [] ∨ rest.head? = some 61

instance (rest : Bytes) : Decidable (B64Ends rest) := inferInstanceAs (Decidable (_ ∨ _))

/-- A text of the loops: up to the NUL, and inside `b64rmap`. -/
def B64Text (src : Bytes) : Prop := ∀ c ∈ src, c < 128 ∧ c ≠ 0

/-- The text without its white space. -/
def visible (src : Bytes) : Bytes := src.filter fun c => !isSpace c

theorem B64Text.tail {ch : UInt8} {src : Bytes} (h : B64Text (ch :: src)) : B64Text src :=
  fun c hc => h c (List.mem_cons_of_mem ch hc)

theorem b64Text_cText {src : Bytes} (h : ∀ c ∈ src, c < 128) : B64Text (cText src) := by
  intro c hc
  refine ⟨h c (List.takeWhile_subset _ hc), ?_⟩
  rintro rfl
  exact not_mem_cText src hc

theorem visible_space {ch : UInt8} (h : isSpace ch = true) (src : Bytes) :
    visible (ch :: src) = visible src := by
  rw [visible, List.filter_cons_of_neg (by simp [h]), visible]

theorem visible_plain {ch : UInt8} (h : isSpace ch = false) (src : Bytes) :
    visible (ch :: src) = ch :: visible src := by
  rw [visible, List.filter_cons_of_pos (by simp [h]), visible]

theorem scan_space {ch : UInt8} (h : isSpace ch = true) (src : Bytes) :
    b64Scan (ch :: src) = b64Scan src := by
  rw [b64Scan, if_pos h]

theorem scan_digit (d : Fin 64) (src : Bytes) :
    b64Scan (char d :: src) = (d :: (b64Scan src).1, (b64Scan src).2) := by
  rw [b64Scan, (char_plain d).1, if_neg Bool.false_ne_true, digitOf_char]

theorem scan_stop {ch : UInt8} (hspace : isSpace ch = false) (hdigit : digitOf ch = none)
    (src : Bytes) : b64Scan (ch :: src) = ([], ch :: src) := by
  rw [b64Scan, hspace, if_neg Bool.false_ne_true, hdigit]

/-- What stands at the head of a text, for the map of characters and for the scan. -/
theorem head_cases (before : UInt8 → B64Class) {ch : UInt8} {src : Bytes}
    (h : B64Text (ch :: src)) :
    (isSpace ch = true ∧ b64Class before ch = .space ∧ b64Scan (ch :: src) = b64Scan src) ∨
    (∃ d, char d = ch ∧ b64Class before ch = .ofs (UInt8.ofNat d) ∧
      b64Scan (ch :: src) = (d :: (b64Scan src).1, (b64Scan src).2)) ∨
    (ch = 61 ∧ b64Class before ch = .end ∧ b64Scan (ch :: src) = ([], ch :: src)) ∨
    (isSpace ch = false ∧ ch ≠ 61 ∧ digitOf ch = none ∧ b64Class before ch = .invalid ∧
      b64Scan (ch :: src) = ([], ch :: src)) := by
  obtain ⟨hascii, hnul⟩ := h ch List.mem_cons_self
  rw [b64Class_eq before hascii hnul, b64ClassOf]
  cases hspace : isSpace ch with
  | true => exact .inl ⟨rfl, if_pos rfl, scan_space hspace src⟩
  | false =>
    rw [if_neg Bool.false_ne_true]
    cases hdigit : digitOf ch with
    | some d =>
      obtain rfl := char_digitOf hdigit
      exact .inr (.inl ⟨d, rfl, rfl, scan_digit d src⟩)
    | none =>
      by_cases hpad : ch = 61
      · exact .inr (.inr (.inl ⟨hpad, if_pos hpad, scan_stop hspace hdigit src⟩))
      · exact .inr (.inr (.inr ⟨rfl, hpad, rfl, if_neg hpad, scan_stop hspace hdigit src⟩))

theorem b64Scan_text {src : Bytes} (h : B64Text src) : B64Text (b64Scan src).2 := by
  induction src with
  | nil => exact h
  | cons ch src ih =>
    cases hspace : isSpace ch with
    | true =>
      rw [scan_space hspace]
      exact ih h.tail
    | false =>
      cases hdigit : digitOf ch with
      | some d =>
        obtain rfl := char_digitOf hdigit
        rw [scan_digit]
        exact ih h.tail
      | none => rwa [scan_stop hspace hdigit]

/-- The visible characters are those of the digits and those of the rest. -/
theorem visible_scan (src : Bytes) :
    visible src = (b64Scan src).1.map char ++ visible (b64Scan src).2 := by
  induction src with
  | nil => rfl
  | cons ch src ih =>
    cases hspace : isSpace ch with
    | true =>
      rw [scan_space hspace, ← ih, visible_space hspace]
    | false =>
      cases hdigit : digitOf ch with
      | some d =>
        obtain rfl := char_digitOf hdigit
        rw [scan_digit, visible_plain hspace, ih, List.map_cons, List.cons_append]
      | none => rw [scan_stop hspace hdigit, List.map_nil, List.nil_append]

/-- A text whose visible characters are digits and padding is scanned as just these. -/
theorem scan_visible {ds : Digits} {pad src : Bytes} (hpad : ∀ c ∈ pad, c = 61)
    (h : visible src = ds.map char ++ pad) :
    (b64Scan src).1 = ds ∧ visible (b64Scan src).2 = pad ∧ B64Ends (b64Scan src).2 := by
  induction src generalizing ds with
  | nil =>
    obtain ⟨hds, rfl⟩ := List.append_eq_nil_iff.mp h.symm
    exact ⟨(List.map_eq_nil_iff.mp hds).symm, rfl, .inl rfl⟩
  | cons ch src ih =>
    cases hspace : isSpace ch with
    | true =>
      rw [visible_space hspace] at h
      rw [scan_space hspace]
      exact ih h
    | false =>
      have hcons := visible_plain hspace src
      rw [hcons] at h
      cases ds with
      | cons d ds =>
        rw [List.map_cons, List.cons_append, List.cons.injEq] at h
        obtain ⟨rfl, h⟩ := h
        obtain ⟨hds, hrest⟩ := ih h
        rw [scan_digit]
        exact ⟨by rw [hds], hrest⟩
      | nil =>
        rw [List.map_nil, List.nil_append] at h
        have heq : ch = 61 := hpad ch (h ▸ List.mem_cons_self)
        subst heq
        rw [scan_stop hspace (by decide +kernel)]
        exact ⟨rfl, hcons.trans h, .inr rfl⟩

/-! ## The state of digits -/

/-- What the loops hold after the digits: the octets filled, and the bits left over at the
top of `part`. -/
structure B64At (ds : Digits) (state : Nat) (target : Bytes) (part : UInt8) : Prop where
  state : state = ds.length % 4
  length : target.length = 6 * ds.length / 8
  whole : beNat target = value ds / 2 ^ (6 * ds.length % 8)
  part : part.toNat = value ds % 2 ^ (6 * ds.length % 8) * 2 ^ (8 - 6 * ds.length % 8)

/-- One digit more. -/
def b64Next : Nat → Bytes → UInt8 → UInt8 → Nat × Bytes × UInt8
  | 0, target, _, ofs => (1, target, ofs <<< 2)
  | 1, target, part, ofs => (2, target ++ [part ||| ofs >>> 4], (ofs &&& 0x0f) <<< 4)
  | 2, target, part, ofs => (3, target ++ [part ||| ofs >>> 2], (ofs &&& 0x03) <<< 6)
  | _, target, part, ofs => (0, target ++ [part ||| ofs], 0)

theorem or_toNat {p q : UInt8} {i a : Nat} (hp : p.toNat = 2 ^ i * a) (hq : q.toNat < 2 ^ i) :
    (p ||| q).toNat = p.toNat + q.toNat := by
  rw [UInt8.toNat_or, hp, Nat.two_pow_add_eq_or_of_lt hq]

/-- The upper and the lower bits of a digit, where each state puts them. -/
theorem digit_bits (d : Fin 64) :
    (UInt8.ofNat d <<< 2).toNat = d.val * 4 ∧
      (UInt8.ofNat d >>> 4).toNat = d.val / 16 ∧
      ((UInt8.ofNat d &&& 0x0f) <<< 4).toNat = d.val % 16 * 16 ∧
      (UInt8.ofNat d >>> 2).toNat = d.val / 4 ∧
      ((UInt8.ofNat d &&& 0x03) <<< 6).toNat = d.val % 4 * 64 ∧
      (UInt8.ofNat d).toNat = d.val := by
  revert d
  decide +kernel

theorem beNat_append_one (bs : Bytes) (b : UInt8) : beNat (bs ++ [b]) = beNat bs * 256 + b.toNat := by
  rw [beNat_append]
  simp [beNat]

theorem b64Next_at {ds : Digits} {state : Nat} {target : Bytes} {part : UInt8}
    (h : B64At ds state target part) (d : Fin 64) :
    B64At (ds ++ [d]) (b64Next state target part (UInt8.ofNat d)).1
      (b64Next state target part (UInt8.ofNat d)).2.1
      (b64Next state target part (UInt8.ofNat d)).2.2 := by
  obtain ⟨hstate, hlength, hwhole, hpart⟩ := h
  obtain ⟨hshift0, hshift1, hlow1, hshift2, hlow2, hofs⟩ := digit_bits d
  have hd := d.isLt
  have hnext : (ds ++ [d]).length = ds.length + 1 := List.length_append
  obtain hk | hk | hk | hk : ds.length % 4 = 0 ∨ ds.length % 4 = 1 ∨ ds.length % 4 = 2 ∨
    ds.length % 4 = 3 := by omega
  all_goals
    rw [hk] at hstate
    subst hstate
    simp only [b64Next]
  · have hr : 6 * ds.length % 8 = 0 := by omega
    have hr' : 6 * (ds.length + 1) % 8 = 6 := by omega
    rw [hr] at hwhole hpart
    refine ⟨by omega, by omega, ?_, ?_⟩
    · rw [hnext, hr', value_append_one]
      omega
    · rw [hnext, hr', value_append_one]
      omega
  · have hr : 6 * ds.length % 8 = 6 := by omega
    have hr' : 6 * (ds.length + 1) % 8 = 4 := by omega
    rw [hr] at hwhole hpart
    have hor := @or_toNat part (UInt8.ofNat d >>> 4) 2 (value ds % 2 ^ 6) (by omega) (by omega)
    refine ⟨by omega, ?_, ?_, ?_⟩
    · rw [hnext, List.length_append, List.length_singleton]
      omega
    · rw [hnext, hr', value_append_one, beNat_append_one, hor]
      omega
    · rw [hnext, hr', value_append_one]
      omega
  · have hr : 6 * ds.length % 8 = 4 := by omega
    have hr' : 6 * (ds.length + 1) % 8 = 2 := by omega
    rw [hr] at hwhole hpart
    have hor := @or_toNat part (UInt8.ofNat d >>> 2) 4 (value ds % 2 ^ 4) (by omega) (by omega)
    refine ⟨by omega, ?_, ?_, ?_⟩
    · rw [hnext, List.length_append, List.length_singleton]
      omega
    · rw [hnext, hr', value_append_one, beNat_append_one, hor]
      omega
    · rw [hnext, hr', value_append_one]
      omega
  · have hr : 6 * ds.length % 8 = 2 := by omega
    have hr' : 6 * (ds.length + 1) % 8 = 0 := by omega
    rw [hr] at hwhole hpart
    have hor := @or_toNat part (UInt8.ofNat d) 6 (value ds % 2 ^ 2) (by omega) (by omega)
    refine ⟨by omega, ?_, ?_, ?_⟩
    · rw [hnext, List.length_append, List.length_singleton]
      omega
    · rw [hnext, hr', value_append_one, beNat_append_one, hor]
      omega
    · rw [hnext, hr', value_append_one, Nat.pow_zero, Nat.mod_one, Nat.zero_mul]
      rfl

theorem b64At_nil : B64At [] 0 [] 0 := ⟨rfl, rfl, rfl, rfl⟩

/-- The octets in front of `tarindex` are those of the digits. -/
theorem B64At.octets_eq {ds : Digits} {state : Nat} {target : Bytes} {part : UInt8}
    (h : B64At ds state target part) : octets ds = target :=
  Base64.octets_eq h.length h.whole

/-! ## The loop of the merged passes -/

section Loops

variable (before : UInt8 → B64Class)

theorem b64Digits_digit {ch ofs : UInt8} (h : b64Class before ch = .ofs ofs) (state : Nat)
    (target : Bytes) (part : UInt8) (src : Bytes) :
    b64Digits before state target part (ch :: src) =
      b64Digits before (b64Next state target part ofs).1 (b64Next state target part ofs).2.1
        (b64Next state target part ofs).2.2 src := by
  rw [b64Digits, h]
  rcases state with _ | _ | _ | state <;> rfl

theorem b64Digits_ends {src : Bytes} (hsrc : B64Text src) (hends : B64Ends (b64Scan src).2)
    {ds : Digits} {state : Nat} {target : Bytes} {part : UInt8} (h : B64At ds state target part) :
    ∃ state' target' part', b64Digits before state target part src =
        some (state', target', (b64Scan src).2) ∧
      B64At (ds ++ (b64Scan src).1) state' target' part' := by
  induction src generalizing ds state target part with
  | nil => exact ⟨state, target, part, rfl, by rwa [b64Scan, List.append_nil]⟩
  | cons ch src ih =>
    obtain ⟨-, hclass, hscan⟩ | ⟨d, -, hclass, hscan⟩ | ⟨-, hclass, hscan⟩ |
      ⟨-, hpad, -, -, hscan⟩ := head_cases before hsrc
    · rw [hscan] at hends ⊢
      rw [b64Digits, hclass]
      exact ih hsrc.tail hends h
    · rw [hscan] at hends ⊢
      rw [b64Digits_digit before hclass, List.append_cons]
      exact ih hsrc.tail hends (b64Next_at h d)
    · rw [hscan, b64Digits, hclass, List.append_nil]
      exact ⟨state, target, part, rfl, h⟩
    · rw [hscan] at hends
      rcases hends with hnil | hhead
      · cases hnil
      · exact absurd (Option.some.inj hhead) hpad

theorem b64Digits_none {src : Bytes} (hsrc : B64Text src) (hends : ¬ B64Ends (b64Scan src).2)
    (state : Nat) (target : Bytes) (part : UInt8) :
    b64Digits before state target part src = none := by
  induction src generalizing state target part with
  | nil => exact absurd (.inl rfl) hends
  | cons ch src ih =>
    obtain ⟨-, hclass, hscan⟩ | ⟨d, -, hclass, hscan⟩ | ⟨hpad, hclass, hscan⟩ |
      ⟨-, -, -, hclass, hscan⟩ := head_cases before hsrc
    · rw [hscan] at hends
      rw [b64Digits, hclass]
      exact ih hsrc.tail hends state target part
    · rw [hscan] at hends
      rw [b64Digits_digit before hclass]
      exact ih hsrc.tail hends _ _ _
    · rw [hscan, hpad] at hends
      exact absurd (.inr rfl) hends
    · rw [b64Digits, hclass]

/-! ## The loop that counts -/

section Steps

variable {before} {ch : UInt8} (state tarindex : Nat) (src : Bytes)

theorem b64LenDigits_space (h : b64Class before ch = .space) :
    b64LenDigits before state tarindex (ch :: src) = b64LenDigits before state tarindex src := by
  rcases state with _ | _ | _ | state <;> simp only [b64LenDigits, h]

theorem b64LenDigits_end (h : b64Class before ch = .end) :
    b64LenDigits before state tarindex (ch :: src) = some (state, tarindex, ch :: src) := by
  rcases state with _ | _ | _ | state <;> simp only [b64LenDigits, h]

theorem b64LenDigits_invalid (h : b64Class before ch = .invalid) :
    b64LenDigits before state tarindex (ch :: src) = none := by
  rcases state with _ | _ | _ | state <;> simp only [b64LenDigits, h]

end Steps

theorem b64LenDigits_digit {ch ofs : UInt8} (h : b64Class before ch = .ofs ofs) {ds : Digits}
    (d : Fin 64) (src : Bytes) :
    b64LenDigits before (ds.length % 4) (6 * ds.length / 8) (ch :: src) =
      b64LenDigits before ((ds ++ [d]).length % 4) (6 * (ds ++ [d]).length / 8) src := by
  rw [List.length_append, List.length_singleton]
  obtain hk | hk | hk | hk : ds.length % 4 = 0 ∨ ds.length % 4 = 1 ∨ ds.length % 4 = 2 ∨
    ds.length % 4 = 3 := by omega
  · have hstate : (ds.length + 1) % 4 = 1 := by omega
    have hindex : 6 * (ds.length + 1) / 8 = 6 * ds.length / 8 := by omega
    simp only [hk, hstate, hindex, b64LenDigits, h]
  · have hstate : (ds.length + 1) % 4 = 2 := by omega
    have hindex : 6 * (ds.length + 1) / 8 = 6 * ds.length / 8 + 1 := by omega
    simp only [hk, hstate, hindex, b64LenDigits, h]
  · have hstate : (ds.length + 1) % 4 = 3 := by omega
    have hindex : 6 * (ds.length + 1) / 8 = 6 * ds.length / 8 + 1 := by omega
    simp only [hk, hstate, hindex, b64LenDigits, h]
  · have hstate : (ds.length + 1) % 4 = 0 := by omega
    have hindex : 6 * (ds.length + 1) / 8 = 6 * ds.length / 8 + 1 := by omega
    simp only [hk, hstate, hindex, b64LenDigits, h]

theorem b64LenDigits_eq {src : Bytes} (hsrc : B64Text src) (ds : Digits) :
    b64LenDigits before (ds.length % 4) (6 * ds.length / 8) src =
      if B64Ends (b64Scan src).2 then
        some ((ds ++ (b64Scan src).1).length % 4, 6 * (ds ++ (b64Scan src).1).length / 8,
          (b64Scan src).2)
      else none := by
  induction src generalizing ds with
  | nil => rw [b64Scan, if_pos (.inl rfl), List.append_nil, b64LenDigits]
  | cons ch src ih =>
    obtain ⟨-, hclass, hscan⟩ | ⟨d, -, hclass, hscan⟩ | ⟨hpad, hclass, hscan⟩ |
      ⟨-, hpad, -, hclass, hscan⟩ := head_cases before hsrc
    · rw [hscan, b64LenDigits_space _ _ _ hclass]
      exact ih hsrc.tail ds
    · rw [hscan, b64LenDigits_digit before hclass d, ih hsrc.tail, List.append_assoc,
        List.singleton_append]
    · have hends : B64Ends (ch :: src) := .inr (congrArg some hpad)
      rw [hscan, if_pos hends, List.append_nil, b64LenDigits_end _ _ _ hclass]
    · have hno : ¬ B64Ends (ch :: src) := by
        rintro (hnil | hhead)
        · cases hnil
        · exact hpad (Option.some.inj hhead)
      rw [hscan, if_neg hno, b64LenDigits_invalid _ _ _ hclass]

/-! ## The loop that stores -/

/-- The state in memory. -/
structure B64In (ds : Digits) (state tarindex : Nat) (target : Mem) : Prop where
  index : tarindex = 6 * ds.length / 8
  held : ∃ part, B64At ds state (target.slice 0 tarindex) part ∧ (state ≠ 0 → target tarindex = part)

theorem holds_write_before (m : Mem) (o : Nat) (bs : Bytes) :
    Holds (m.write o bs) 0 (m.slice 0 o) :=
  Mem.holds_write_frame (holds_slice m 0 o) (.inl (by rw [Mem.slice_length, Nat.zero_add]))

theorem slice_write_append (m : Mem) (o : Nat) (bs : Bytes) :
    (m.write o bs).slice 0 (o + bs.length) = m.slice 0 o ++ bs := by
  have hall : Holds (m.write o bs) 0 (m.slice 0 o ++ bs) := by
    rw [holds_append, Mem.slice_length, Nat.zero_add]
    exact ⟨holds_write_before m o bs, Mem.holds_write_self m o bs⟩
  exact hall.slice_of_length (by rw [List.length_append, Mem.slice_length])

/-- `target[tarindex]` and the octet behind it, written at once. -/
theorem slice_write_two (m : Mem) (o : Nat) (x y : UInt8) :
    (m.write o [x, y]).slice 0 (o + 1) = m.slice 0 o ++ [x] := by
  have hall := slice_write_append m o [x, y]
  have htwo : o + [x, y].length = (o + 1) + 1 := rfl
  rw [htwo, Mem.slice_add, List.append_cons (m.slice 0 o) x [y]] at hall
  have hlength : ((m.write o [x, y]).slice 0 (o + 1)).length = (m.slice 0 o ++ [x]).length := by
    simp
  exact (List.append_inj hall hlength).1

/-- The octets a digit makes are stored when there is room for the whole ones. -/
theorem b64DoDigits_digit {ch : UInt8} {ds : Digits} {d : Fin 64}
    (hclass : b64Class before ch = .ofs (UInt8.ofNat d)) {targsize state tarindex : Nat}
    {target : Mem} (h : B64In ds state tarindex target)
    (room : 6 * (ds ++ [d]).length / 8 < targsize) (src : Bytes) :
    ∃ state' tarindex' target', b64DoDigits before targsize state tarindex target (ch :: src) =
        b64DoDigits before targsize state' tarindex' target' src ∧
      B64In (ds ++ [d]) state' tarindex' target' := by
  obtain ⟨hindex, part, hat, hpart⟩ := h
  have hnext := b64Next_at hat d
  rw [List.length_append, List.length_singleton] at room
  have hstate := hat.state
  obtain hk | hk | hk | hk : ds.length % 4 = 0 ∨ ds.length % 4 = 1 ∨ ds.length % 4 = 2 ∨
    ds.length % 4 = 3 := by omega
  all_goals
    rw [hk] at hstate
    subst hstate
    simp only [b64Next] at hnext
    simp only [b64DoDigits, hclass]
  · rw [if_neg (by omega)]
    refine ⟨1, tarindex, _, rfl, ?_, UInt8.ofNat d <<< 2, ?_, fun _ => ?_⟩
    · rw [List.length_append, List.length_singleton]
      omega
    · rwa [(holds_write_before target tarindex _).slice_of_length (Mem.slice_length _ _ _)]
    · exact Mem.write_at target tarindex 0 [UInt8.ofNat d <<< 2] Nat.one_pos
  · rw [if_neg (by omega), hpart (by decide)]
    refine ⟨2, tarindex + 1, _, rfl, ?_, (UInt8.ofNat d &&& 0x0f) <<< 4, ?_, fun _ => ?_⟩
    · rw [List.length_append, List.length_singleton]
      omega
    · rwa [slice_write_two]
    · exact Mem.write_at target tarindex 1 [_, _] Nat.one_lt_two
  · rw [if_neg (by omega), hpart (by decide)]
    refine ⟨3, tarindex + 1, _, rfl, ?_, (UInt8.ofNat d &&& 0x03) <<< 6, ?_, fun _ => ?_⟩
    · rw [List.length_append, List.length_singleton]
      omega
    · rwa [slice_write_two]
    · exact Mem.write_at target tarindex 1 [_, _] Nat.one_lt_two
  · rw [if_neg (by omega), hpart (by decide)]
    refine ⟨0, tarindex + 1, _, rfl, ?_, 0, ?_, fun h => absurd rfl h⟩
    · rw [List.length_append, List.length_singleton]
      omega
    · rwa [show tarindex + 1 = tarindex + [part ||| UInt8.ofNat d].length from rfl,
        slice_write_append]

section Steps

variable {before} {ch : UInt8} (targsize state tarindex : Nat) (target : Mem) (src : Bytes)

theorem b64DoDigits_space (h : b64Class before ch = .space) :
    b64DoDigits before targsize state tarindex target (ch :: src) =
      b64DoDigits before targsize state tarindex target src := by
  rcases state with _ | _ | _ | state <;> simp only [b64DoDigits, h]

theorem b64DoDigits_end (h : b64Class before ch = .end) :
    b64DoDigits before targsize state tarindex target (ch :: src) =
      (some (state, tarindex, ch :: src), target) := by
  rcases state with _ | _ | _ | state <;> simp only [b64DoDigits, h]

theorem b64DoDigits_invalid (h : b64Class before ch = .invalid) :
    b64DoDigits before targsize state tarindex target (ch :: src) = (none, target) := by
  rcases state with _ | _ | _ | state <;> simp only [b64DoDigits, h]

end Steps

theorem b64DoDigits_ends {src : Bytes} (hsrc : B64Text src) (hends : B64Ends (b64Scan src).2)
    {ds : Digits} {targsize state tarindex : Nat} {target : Mem}
    (h : B64In ds state tarindex target)
    (room : 6 * (ds ++ (b64Scan src).1).length / 8 < targsize) :
    ∃ state' tarindex' target', b64DoDigits before targsize state tarindex target src =
        (some (state', tarindex', (b64Scan src).2), target') ∧
      B64In (ds ++ (b64Scan src).1) state' tarindex' target' := by
  induction src generalizing ds state tarindex target with
  | nil =>
    exact ⟨state, tarindex, target, by rw [b64DoDigits, b64Scan], by rwa [b64Scan, List.append_nil]⟩
  | cons ch src ih =>
    obtain ⟨-, hclass, hscan⟩ | ⟨d, -, hclass, hscan⟩ | ⟨-, hclass, hscan⟩ |
      ⟨-, hpad, -, -, hscan⟩ := head_cases before hsrc
    · rw [hscan] at hends room ⊢
      rw [b64DoDigits_space _ _ _ _ _ hclass]
      exact ih hsrc.tail hends h room
    · rw [hscan] at hends room ⊢
      rw [List.append_cons] at room ⊢
      have hroom : 6 * (ds ++ [d]).length / 8 < targsize := by
        have hlength : ((ds ++ [d]) ++ (b64Scan src).1).length =
            (ds ++ [d]).length + (b64Scan src).1.length := List.length_append
        omega
      obtain ⟨state', tarindex', target', hstep, hin⟩ := b64DoDigits_digit before hclass h hroom src
      rw [hstep]
      exact ih hsrc.tail hends hin room
    · rw [hscan, b64DoDigits_end _ _ _ _ _ hclass, List.append_nil]
      exact ⟨state, tarindex, target, rfl, h⟩
    · rw [hscan] at hends
      rcases hends with hnil | hhead
      · cases hnil
      · exact absurd (Option.some.inj hhead) hpad

theorem b64In_nil (target : Mem) : B64In [] 0 0 target :=
  ⟨rfl, 0, b64At_nil, fun h => absurd rfl h⟩

/-- The bits left over are zero when the octet they stand in is. -/
theorem B64In.bits {ds : Digits} {state tarindex : Nat} {target : Mem}
    (h : B64In ds state tarindex target) (hstate : state ≠ 0) :
    target tarindex = 0 ↔ value ds % 2 ^ (6 * ds.length % 8) = 0 := by
  obtain ⟨hindex, part, hat, hpart⟩ := h
  have hpos : 0 < 2 ^ (8 - 6 * ds.length % 8) := Nat.pow_pos (by decide)
  rw [hpart hstate, ← UInt8.toNat_inj, hat.part]
  constructor
  · intro hzero
    exact (Nat.mul_eq_zero.mp hzero).resolve_right (by omega)
  · intro hzero
    rw [hzero, Nat.zero_mul]
    rfl

end Loops

/-! ## The padding -/

theorem b64Class_space (before : UInt8 → B64Class) {ch : UInt8} {src : Bytes}
    (h : B64Text (ch :: src)) : b64Class before ch = .space ↔ isSpace ch = true := by
  obtain ⟨hspace, hclass, -⟩ | ⟨d, rfl, hclass, -⟩ | ⟨rfl, hclass, -⟩ |
    ⟨hspace, -, -, hclass, -⟩ := head_cases before h
  · exact iff_of_true hclass hspace
  · exact iff_of_false (by simp [hclass]) (by simp [(char_plain d).1])
  · exact iff_of_false (by simp [hclass]) (by decide)
  · exact iff_of_false (by simp [hclass]) (by simp [hspace])

theorem b64AllSpace_iff (before : UInt8 → B64Class) {src : Bytes} (hsrc : B64Text src) :
    b64AllSpace before src = true ↔ visible src = [] := by
  induction src with
  | nil => exact ⟨fun _ => rfl, fun _ => rfl⟩
  | cons ch src ih =>
    have hclass := b64Class_space before hsrc
    cases hspace : isSpace ch with
    | true =>
      rw [visible_space hspace, ← ih hsrc.tail, b64AllSpace, List.all_cons, hclass.mpr hspace,
        Bool.true_and, ← b64AllSpace]
    | false =>
      rw [visible_plain hspace, b64AllSpace, List.all_cons]
      rw [hspace] at hclass
      cases hread : b64Class before ch with
      | space => cases hclass.mp hread
      | ofs n => simp
      | «end» => simp
      | invalid => simp

/-- White space is skipped up to a visible character or the end. -/
theorem b64SkipSpace_cases (before : UInt8 → B64Class) {src : Bytes} (hsrc : B64Text src) :
    b64SkipSpace before src = [] ∧ visible src = [] ∨
      ∃ ch rest, b64SkipSpace before src = ch :: rest ∧ visible src = ch :: visible rest ∧
        B64Text rest := by
  induction src with
  | nil => exact .inl ⟨rfl, rfl⟩
  | cons ch src ih =>
    have hclass := b64Class_space before hsrc
    cases hspace : isSpace ch with
    | true =>
      rw [b64SkipSpace, hclass.mpr hspace, visible_space hspace]
      exact ih hsrc.tail
    | false =>
      rw [hspace] at hclass
      refine .inr ⟨ch, src, ?_, visible_plain hspace src, hsrc.tail⟩
      cases hread : b64Class before ch with
      | space => cases hclass.mp hread
      | ofs n => simp only [b64SkipSpace, hread]
      | «end» => simp only [b64SkipSpace, hread]
      | invalid => simp only [b64SkipSpace, hread]

theorem padding_cases (k : Nat) :
    k % 4 = 0 ∧ padding k = [] ∨ k % 4 = 1 ∧ padding k = [61, 61, 61] ∨
      k % 4 = 2 ∧ padding k = [61, 61] ∨ k % 4 = 3 ∧ padding k = [61] := by
  have hk := Nat.mod_lt k (by decide : 4 > 0)
  unfold padding
  interval_cases k % 4 <;> simp [List.replicate]

theorem b64Padding_nil (before : UInt8 → B64Class) (k : Nat) :
    b64Padding before (k % 4) [] = true ↔ k % 4 ≠ 1 ∧ visible [] = padding k := by
  rcases padding_cases k with ⟨hk, hpad⟩ | ⟨hk, hpad⟩ | ⟨hk, hpad⟩ | ⟨hk, hpad⟩ <;>
    simp [hk, hpad, b64Padding, visible]

theorem b64Padding_pad (before : UInt8 → B64Class) {src : Bytes} (hsrc : B64Text src) (k : Nat) :
    b64Padding before (k % 4) (61 :: src) = true ↔
      k % 4 ≠ 1 ∧ visible (61 :: src) = padding k := by
  rw [visible_plain (by decide)]
  rcases padding_cases k with ⟨hk, hpad⟩ | ⟨hk, hpad⟩ | ⟨hk, hpad⟩ | ⟨hk, hpad⟩
  · simp [hk, hpad, b64Padding]
  · simp [hk, b64Padding]
  · rw [hk, hpad, b64Padding]
    obtain ⟨hskip, hvisible⟩ | ⟨ch, rest, hskip, hvisible, htext⟩ := b64SkipSpace_cases before hsrc
    · simp [hskip, hvisible]
    · rw [hskip, hvisible]
      by_cases heq : ch = 61
      · subst heq
        simp [b64AllSpace_iff before htext]
      · simp [heq]
  · simp [hk, hpad, b64Padding, b64AllSpace_iff before hsrc]

/-- What is accepted behind the digits is the padding, white space anywhere. -/
theorem b64Padding_iff (before : UInt8 → B64Class) {rest : Bytes} (hrest : B64Text rest)
    (hends : B64Ends rest) (k : Nat) :
    b64Padding before (k % 4) rest = true ↔ k % 4 ≠ 1 ∧ visible rest = padding k := by
  cases rest with
  | nil => exact b64Padding_nil before k
  | cons ch src =>
    rcases hends with hnil | hhead
    · cases hnil
    · obtain rfl : ch = 61 := Option.some.inj hhead
      exact b64Padding_pad before hrest.tail k

/-! ## Whole texts -/

/-- A text that the loops and the check of the padding accept. -/
structure B64Accepts (src : Bytes) : Prop where
  ends : B64Ends (b64Scan src).2
  count : (b64Scan src).1.length % 4 ≠ 1
  padded : visible (b64Scan src).2 = padding (b64Scan src).1.length

instance (src : Bytes) : Decidable (B64Accepts src) :=
  decidable_of_iff (_ ∧ _ ∧ _) ⟨fun h => ⟨h.1, h.2.1, h.2.2⟩, fun h => ⟨h.ends, h.count, h.padded⟩⟩

theorem B64Accepts.text_eq {src : Bytes} (h : B64Accepts src) :
    visible src = text (b64Scan src).1 := by
  rw [visible_scan, h.padded, text]

theorem accepts_text {src : Bytes} {ds : Digits} (hds : ds.length % 4 ≠ 1)
    (h : visible src = text ds) : (b64Scan src).1 = ds ∧ B64Accepts src := by
  have hpad : ∀ c ∈ padding ds.length, c = 61 := fun c hc => (List.mem_replicate.mp hc).2
  obtain ⟨hscan, hrest, hends⟩ := scan_visible hpad h
  exact ⟨hscan, hends, by rwa [hscan], by rwa [hscan]⟩

/-- Whole octets need no padding. -/
theorem B64Accepts.rest_nil {src : Bytes} (h : B64Accepts src) :
    (b64Scan src).2 = [] ↔ (b64Scan src).1.length % 4 = 0 := by
  obtain ⟨hends, hcount, hpadded⟩ := h
  have hcases := padding_cases (b64Scan src).1.length
  constructor
  · intro hnil
    rw [hnil, visible, List.filter_nil] at hpadded
    simpa [← hpadded, hcount] using hcases
  · intro hzero
    rcases hends with hnil | hhead
    · exact hnil
    · obtain ⟨rest, hrest⟩ := List.head?_eq_some_iff.mp hhead
      rw [hrest, visible_plain (by decide)] at hpadded
      simp [hzero, ← hpadded] at hcases

section Results

variable (before : UInt8 → B64Class)

theorem b64Accepts_iff {src : Bytes} (hsrc : B64Text src) (hends : B64Ends (b64Scan src).2) :
    b64Padding before ((b64Scan src).1.length % 4) (b64Scan src).2 = true ↔ B64Accepts src := by
  rw [b64Padding_iff before (b64Scan_text hsrc) hends]
  exact ⟨fun h => ⟨hends, h.1, h.2⟩, fun h => ⟨h.count, h.padded⟩⟩

/-- Fewer octets than characters. -/
theorem octets_scan_short (src : Bytes) : (octets (b64Scan src).1).length ≤ src.length := by
  have hlength : (octets (b64Scan src).1).length = 6 * (b64Scan src).1.length / 8 :=
    beBytes_length _ _
  have hscan : (b64Scan src).1.length ≤ src.length := by
    have hvisible := congrArg List.length (visible_scan src)
    have hall : (visible src).length ≤ src.length := List.length_filter_le _ src
    rw [List.length_append, List.length_map] at hvisible
    omega
  omega

theorem octets_cText_short {src : Bytes} (hshort : src.length < 2147483648) :
    (octets (b64Scan (cText src)).1).length < 2147483648 := by
  have hoctets := octets_scan_short (cText src)
  have htext := (List.takeWhile_prefix (p := (· ≠ 0)) (l := src)).length_le
  unfold cText at hoctets ⊢
  omega

theorem b64Pton_eq {src : Bytes} (hsrc : B64Text (cText src))
    (hshort : (octets (b64Scan (cText src)).1).length < 2147483648) :
    b64Pton before src =
      if B64Accepts (cText src) then some (octets (b64Scan (cText src)).1) else none := by
  by_cases hends : B64Ends (b64Scan (cText src)).2
  · obtain ⟨state, target, part, hrun, hat⟩ := b64Digits_ends before hsrc hends b64At_nil
    rw [List.nil_append] at hat
    have hpadding := b64Accepts_iff before hsrc hends
    rw [← hat.state] at hpadding
    have hlength : target.length < 2147483648 := by
      rw [← hat.octets_eq]
      exact hshort
    rw [b64Pton, hrun, hat.octets_eq]
    dsimp only
    simp only [hlength, decide_true, Bool.and_true, hpadding]
  · rw [b64Pton, b64Digits_none before hsrc hends, if_neg fun h => hends h.ends]

theorem b64PtonLen_eq {src : Bytes} (hsrc : B64Text (cText src))
    (hshort : (octets (b64Scan (cText src)).1).length < 2147483648) :
    b64PtonLen before src =
      if B64Accepts (cText src) then ((octets (b64Scan (cText src)).1).length : Int) else -1 := by
  have hrun := b64LenDigits_eq before hsrc []
  rw [List.nil_append] at hrun
  rw [b64PtonLen, show b64LenDigits before 0 0 (cText src) = _ from hrun]
  by_cases hends : B64Ends (b64Scan (cText src)).2
  · rw [if_pos hends]
    dsimp only
    have hlength : (octets (b64Scan (cText src)).1).length =
        6 * (b64Scan (cText src)).1.length / 8 := beBytes_length _ _
    rw [hlength] at hshort
    simp only [b64Accepts_iff before hsrc hends, hlength, i32_of_lt hshort]
  · rw [if_neg hends, if_neg fun h => hends h.ends]

/-- The second pass over an accepted text, with room for one octet more than there are. -/
theorem b64PtonDo_eq {src : Bytes} (hsrc : B64Text (cText src))
    (hshort : (octets (b64Scan (cText src)).1).length < 2147483648)
    (h : B64Accepts (cText src)) (target : Mem) {targsize : Nat}
    (room : (octets (b64Scan (cText src)).1).length < targsize) :
    (b64PtonDo before src target targsize).1 =
        (if value (b64Scan (cText src)).1 % 2 ^ (6 * (b64Scan (cText src)).1.length % 8) = 0 then
          ((octets (b64Scan (cText src)).1).length : Int)
        else -1) ∧
      (b64PtonDo before src target targsize).2.slice 0 (octets (b64Scan (cText src)).1).length =
        octets (b64Scan (cText src)).1 := by
  have hlength : (octets (b64Scan (cText src)).1).length =
      6 * (b64Scan (cText src)).1.length / 8 := beBytes_length _ _
  rw [hlength] at room hshort ⊢
  obtain ⟨state, tarindex, target', hrun, hin⟩ := b64DoDigits_ends before hsrc h.ends
    (b64In_nil target) room
  rw [List.nil_append] at hin
  obtain ⟨part, hat, hpart⟩ := hin.held
  have hindex := hin.index
  have hpadding := (b64Accepts_iff before hsrc h.ends).mpr h
  rw [← hat.state] at hpadding
  have hwhole := hat.octets_eq
  rw [hindex] at hwhole
  unfold b64PtonDo
  rw [hrun]
  dsimp only
  rw [if_pos hpadding]
  have hrest := h.rest_nil
  by_cases hstate : state = 0
  · have hzero : (b64Scan (cText src)).1.length % 4 = 0 := by rw [← hat.state, hstate]
    have hbits : 6 * (b64Scan (cText src)).1.length % 8 = 0 := by omega
    rw [if_neg fun hno => hno.1 (hrest.mpr hzero), hbits, Nat.pow_zero, Nat.mod_one, if_pos rfl,
      hindex]
    exact ⟨i32_of_lt hshort, hwhole.symm⟩
  · have hne : (b64Scan (cText src)).2 ≠ [] := fun hnil =>
      hstate (hat.state.trans (hrest.mp hnil))
    have hleft := hin.bits hstate
    by_cases hbits : target' tarindex = 0
    · rw [if_neg fun hno => hno.2 hbits, if_pos (hleft.mp hbits), hindex]
      exact ⟨i32_of_lt hshort, hwhole.symm⟩
    · rw [if_pos ⟨hne, hbits⟩, if_neg fun hzero => hbits (hleft.mpr hzero)]
      exact ⟨rfl, hwhole.symm⟩

end Results

/-! ## The printer -/

/-- No bits are left over in the digits of octets, and in no other digits. -/
theorem sextets_octets_iff {ds : Digits} (h : ds.length % 4 ≠ 1) :
    value ds % 2 ^ (6 * ds.length % 8) = 0 ↔ ds = sextets (octets ds) := by
  have hlength : (octets ds).length = 6 * ds.length / 8 := beBytes_length _ _
  have hcount : digitCount (6 * ds.length / 8) = ds.length := by
    obtain ⟨m, j, hm, hj⟩ : ∃ m j, ds.length = 4 * m + j ∧ j < 4 :=
      ⟨ds.length / 4, ds.length % 4, by omega, Nat.mod_lt _ (by decide)⟩
    rw [hm] at h ⊢
    unfold digitCount
    interval_cases j <;> omega
  have hleft : 6 * ds.length - 8 * (6 * ds.length / 8) = 6 * ds.length % 8 := by omega
  have hvalue := sextets_value (octets ds)
  rw [hlength, hcount, hleft, beNat_octets] at hvalue
  constructor
  · intro hzero
    refine value_inj (by rw [sextets_length, hlength, hcount]) ?_
    rw [hvalue, Nat.div_mul_cancel (Nat.dvd_of_mod_eq_zero hzero)]
  · intro heq
    rw [← heq] at hvalue
    rw [hvalue]
    exact Nat.mul_mod_left _ _

theorem base64Char_of {n : UInt8} {d : Fin 64} (h : n.toNat = d.val) : base64Char n = char d := by
  rw [← base64Char_char, ← h, UInt8.ofNat_toNat]

/-- The six bits of the four digits of a triple. -/
theorem triple_bits (a b c : UInt8) :
    (a >>> 2).toNat = a.toNat / 4 ∧
      (((a &&& 0x03) <<< 4) + (b >>> 4)).toNat = a.toNat % 4 * 16 + b.toNat / 16 ∧
      (((b &&& 0x0f) <<< 2) + (c >>> 6)).toNat = b.toNat % 16 * 4 + c.toNat / 64 ∧
      (c &&& 0x3f).toNat = c.toNat % 64 := by
  have ha := Nat.and_two_pow_sub_one_eq_mod a.toNat 2
  have hb := Nat.and_two_pow_sub_one_eq_mod b.toNat 4
  have hc := Nat.and_two_pow_sub_one_eq_mod c.toNat 6
  have hlta := a.toNat_lt
  have hltb := b.toNat_lt
  have hltc := c.toNat_lt
  simp at ha hb hc
  simp [UInt8.toNat_shiftRight, UInt8.toNat_shiftLeft, Nat.shiftRight_eq_div_pow,
    Nat.shiftLeft_eq, ha, hb, hc]
  omega

theorem beNat_three (a b c : UInt8) :
    beNat [a, b, c] = a.toNat * 65536 + b.toNat * 256 + c.toNat := by
  simp [beNat, Nat.add_assoc]

/-- A triple of octets is printed as its four digits. -/
theorem print_three (a b c : UInt8) :
    [base64Char (a >>> 2), base64Char (((a &&& 0x03) <<< 4) + (b >>> 4)),
      base64Char (((b &&& 0x0f) <<< 2) + (c >>> 6)), base64Char (c &&& 0x3f)] =
      (digits 4 (beNat [a, b, c])).map char := by
  obtain ⟨h0, h1, h2, h3⟩ := triple_bits a b c
  have hnumber := beNat_three a b c
  have ha := a.toNat_lt
  have hb := b.toNat_lt
  have hc := c.toNat_lt
  generalize beNat [a, b, c] = n at hnumber
  have hdigits : digits 4 n = [⟨n / 64 / 64 / 64 % 64, Nat.mod_lt _ (by decide)⟩,
      ⟨n / 64 / 64 % 64, Nat.mod_lt _ (by decide)⟩, ⟨n / 64 % 64, Nat.mod_lt _ (by decide)⟩,
      ⟨n % 64, Nat.mod_lt _ (by decide)⟩] := rfl
  rw [hdigits, List.map_cons, List.map_cons, List.map_cons, List.map_cons, List.map_nil]
  congr 1
  · exact base64Char_of (by rw [h0]; dsimp only; omega)
  congr 1
  · exact base64Char_of (by rw [h1]; dsimp only; omega)
  congr 1
  · exact base64Char_of (by rw [h2]; dsimp only; omega)
  congr 1
  exact base64Char_of (by rw [h3]; dsimp only; omega)

/-- `b64_ntop` prints the digits of the octets and the padding. -/
theorem b64Ntop_eq (src : Bytes) : b64Ntop src = text (sextets src) := by
  induction src using b64Ntop.induct with
  | case1 => rfl
  | case2 a =>
    obtain ⟨h0, h1, -, -⟩ := triple_bits a 0 0
    have ha := a.toNat_lt
    rw [show (0 : UInt8) >>> 4 = 0 from rfl, UInt8.add_zero,
      show (0 : UInt8).toNat = 0 from rfl] at h1
    have hdigits : sextets [a] = [⟨a.toNat * 16 / 64 % 64, Nat.mod_lt _ (by decide)⟩,
        ⟨a.toNat * 16 % 64, Nat.mod_lt _ (by decide)⟩] := by
      simp [sextets, digitCount, beNat, digits]
    rw [hdigits, text, b64Ntop, List.map_cons, List.map_cons, List.map_nil]
    congr 1
    · exact base64Char_of (by rw [h0]; dsimp only; omega)
    congr 1
    exact base64Char_of (by rw [h1]; dsimp only; omega)
  | case3 a b =>
    obtain ⟨h0, h1, h2, -⟩ := triple_bits a b 0
    have ha := a.toNat_lt
    have hb := b.toNat_lt
    rw [show (0 : UInt8) >>> 6 = 0 from rfl, UInt8.add_zero,
      show (0 : UInt8).toNat = 0 from rfl] at h2
    have hdigits : sextets [a, b] =
        [⟨(a.toNat * 256 + b.toNat) * 4 / 64 / 64 % 64, Nat.mod_lt _ (by decide)⟩,
          ⟨(a.toNat * 256 + b.toNat) * 4 / 64 % 64, Nat.mod_lt _ (by decide)⟩,
          ⟨(a.toNat * 256 + b.toNat) * 4 % 64, Nat.mod_lt _ (by decide)⟩] := by
      simp [sextets, digitCount, beNat, digits]
    rw [hdigits, text, b64Ntop, List.map_cons, List.map_cons, List.map_cons, List.map_nil]
    congr 1
    · exact base64Char_of (by rw [h0]; dsimp only; omega)
    congr 1
    · exact base64Char_of (by rw [h1]; dsimp only; omega)
    congr 1
    exact base64Char_of (by rw [h2]; dsimp only; omega)
  | case4 a b c src ih =>
    rw [sextets_three, text_append (digits_length _ _), ← print_three, ← ih, b64Ntop]
    rfl

/-- The characters `b64_ntop` prints. -/
theorem b64Ntop_mem {src : Bytes} {c : UInt8} (h : c ∈ b64Ntop src) :
    isSpace c = false ∧ c < 128 ∧ c ≠ 0 := by
  rw [b64Ntop_eq, text] at h
  rcases List.mem_append.mp h with hdigit | hpad
  · obtain ⟨d, -, rfl⟩ := List.mem_map.mp hdigit
    obtain ⟨hspace, hascii, hnul, -⟩ := char_plain d
    exact ⟨hspace, hascii, hnul⟩
  · obtain rfl := (List.mem_replicate.mp hpad).2
    decide

theorem visible_b64Ntop (src : Bytes) : visible (b64Ntop src) = b64Ntop src := by
  refine List.filter_eq_self.mpr fun c hc => ?_
  rw [(b64Ntop_mem hc).1]
  rfl

theorem b64Ntop_length (src : Bytes) : (b64Ntop src).length = (src.length + 2) / 3 * 4 := by
  induction src using b64Ntop.induct with
  | case1 => rfl
  | case2 a => simp [b64Ntop]
  | case3 a b => simp [b64Ntop]
  | case4 a b c src ih =>
    have hlength : (b64Ntop (a :: b :: c :: src)).length = (b64Ntop src).length + 4 := rfl
    rw [hlength, ih, List.length_cons, List.length_cons, List.length_cons]
    omega

end LibBson.Source
