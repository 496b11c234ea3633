import LibBson.Source.Utf8Char
import LibBson.Source.BsonString
import LibBson.Library.Ascii
import LibBson.Library.JsonString

/-!
# Escaping a string for JSON

Source: bson-utf8.c:266-334, bson-string.c:225-246. The loop decodes with
`bson_utf8_get_char` and ends at the first character it reads as NUL, unless a
length was given and the octet there is NUL.
-/

set_option autoImplicit false

namespace LibBson.Source
open LibBson.Library

/-- `BSON_ASSERT (unichar)` ends the process, which is no result. -/
def bsonStringAppendUnichar (string : BsonString) (unichar : Nat) : Option BsonString :=
  if unichar = 0 then none
  else
    let (str, len) := bsonUtf8FromUnichar unichar
    if len ≤ 6 then bsonStringAppend string str else some string

def hexDigit (n : Nat) : UInt8 := UInt8.ofNat (if n < 10 then 48 + n else 87 + n)

/-- `printf ("\\u%04x", c)` for a `c` of at most 16 bits. -/
def printfU04x (c : Nat) : Bytes :=
  ascii "\\u" ++
    [hexDigit (c / 4096), hexDigit (c / 256 % 16), hexDigit (c / 16 % 16), hexDigit (c % 16)]

/-- The `switch (c)`. -/
def escapeChar (str : BsonString) (c : Nat) : Option BsonString :=
  if c = 0x5C ∨ c = 0x22 then
    match bsonStringAppendC str 0x5C with
    | none => none
    | some str => bsonStringAppendUnichar str c
  else if c = 0x08 then bsonStringAppend str (ascii "\\b")
  else if c = 0x0C then bsonStringAppend str (ascii "\\f")
  else if c = 0x0A then bsonStringAppend str (ascii "\\n")
  else if c = 0x0D then bsonStringAppend str (ascii "\\r")
  else if c = 0x09 then bsonStringAppend str (ascii "\\t")
  else if c < 0x20 then bsonStringAppend str (printfU04x c)
  else bsonStringAppendUnichar str c

/-- `lost`: an octet behind `utf8` is read or the buffer is overrun. -/
inductive Escaped where
  | lost
  | null
  | text (str : Bytes)
  deriving DecidableEq

/-- `utf8` is what can be read from the pointer, `left` how far `end` is ahead of it. -/
def escapeLoop (lengthProvided : Bool) : Nat → Bytes → Nat → BsonString → Escaped
  | 0, _, _, _ => .lost
  | turns + 1, utf8, left, str =>
    if left = 0 then .text str.str
    else
      match bsonUtf8GetChar utf8 with
      | none => .lost
      | some c =>
        match escapeChar str c with
        | none => .lost
        | some str =>
          if c ≠ 0 then
            match bsonUtf8NextChar utf8 with
            | none => .lost
            | some num => escapeLoop lengthProvided turns (utf8.drop num) (left - num) str
          else if lengthProvided = true ∧ utf8.headD 0 = 0 then
            escapeLoop lengthProvided turns (utf8.drop 1) (left - 1) str
          else .null

def bsonUtf8EscapeForJson (utf8 : Bytes) (utf8Len : Int) : Escaped :=
  if utf8Len < 0 then
    if 0 ∈ utf8 then escapeLoop false (strlen utf8 + 1) utf8 (strlen utf8) bsonStringNew
    else .lost
  else escapeLoop true (utf8Len.toNat + 1) utf8 utf8Len.toNat bsonStringNew

/-! ## The piece for one character -/

def escapedChar (c : Nat) : Bytes :=
  if c = 0x5C ∨ c = 0x22 then [0x5C, UInt8.ofNat c]
  else if c = 0x08 then ascii "\\b"
  else if c = 0x0C then ascii "\\f"
  else if c = 0x0A then ascii "\\n"
  else if c = 0x0D then ascii "\\r"
  else if c = 0x09 then ascii "\\t"
  else if c < 0x20 then printfU04x c
  else utf8Encode c

/-- What an octet of the string takes in the escaped text. -/
def escapedWidth (b : UInt8) : Nat :=
  if b = 0x5C ∨ b = 0x22 ∨ b = 0x08 ∨ b = 0x0C ∨ b = 0x0A ∨ b = 0x0D ∨ b = 0x09 then 2
  else if b < 0x20 then 6
  else 1

def escapedLength (s : Bytes) : Nat := (s.map escapedWidth).sum

theorem utf8Encode_nonzero {c : Nat} (hc : c ≠ 0) (h : c ≤ 0x1FFFFF) : 0 ∉ utf8Encode c := by
  have hne : ∀ n < 256, n ≠ 0 → UInt8.ofNat n ≠ 0 := by
    intro n hlt hn hz
    have := toNat_ofNat_of_lt hlt
    rw [hz] at this
    exact hn this.symm
  intro hmem
  unfold utf8Encode at hmem
  split_ifs at hmem <;> simp only [List.mem_cons, List.not_mem_nil, or_false] at hmem
  · exact hne c (by omega) hc hmem.symm
  · rcases hmem with hmem | hmem
    · exact hne _ (by omega) (by omega) hmem.symm
    · exact hne _ (by omega) (by omega) hmem.symm
  · rcases hmem with hmem | hmem | hmem
    · exact hne _ (by omega) (by omega) hmem.symm
    · exact hne _ (by omega) (by omega) hmem.symm
    · exact hne _ (by omega) (by omega) hmem.symm
  · rcases hmem with hmem | hmem | hmem | hmem
    · exact hne _ (by omega) (by omega) hmem.symm
    · exact hne _ (by omega) (by omega) hmem.symm
    · exact hne _ (by omega) (by omega) hmem.symm
    · exact hne _ (by omega) (by omega) hmem.symm

theorem utf8Encode_length (c : Nat) : (utf8Encode c).length ≤ 4 := by
  unfold utf8Encode
  split_ifs <;> simp

theorem bsonStringAppendUnichar_takes {string : BsonString} (hd : string.Doubled) {c : Nat}
    (hc : c ≠ 0) (h : c ≤ 0x1FFFFF) :
    string.Takes (utf8Encode c) (bsonStringAppendUnichar string c) := by
  have hlen := utf8Encode_length c
  rw [bsonStringAppendUnichar, if_neg hc, bsonUtf8FromUnichar_encode h]
  dsimp only
  rw [if_pos (by omega)]
  exact bsonStringAppend_takes hd (utf8Encode_nonzero hc h) (by omega)

/-- Two appends in turn. -/
theorem BsonString.Takes.bind {string : BsonString} {xs ys : Bytes} {r : Option BsonString}
    {f : BsonString → Option BsonString} (h : string.Takes xs r)
    (hf : ∀ string' : BsonString, string'.Doubled → string'.Takes ys (f string')) :
    string.Takes (xs ++ ys) (r.bind f) := by
  rcases h with ⟨hlt, string', rfl, hd, hstr⟩ | ⟨hge, rfl⟩
  · have h' := hf string' hd
    rw [BsonString.Takes, hstr, List.length_append, List.append_assoc] at h'
    rw [BsonString.Takes, List.length_append]
    simpa [Nat.add_assoc] using h'
  · rw [BsonString.Takes, List.length_append]
    exact Or.inr ⟨by omega, rfl⟩

theorem printfU04x_table : ∀ c < 32, 0 ∉ printfU04x c ∧ (printfU04x c).length = 6 ∧
    printfU04x c = [0x5C, 0x75, 48, 48, hexDigit (c / 16 % 16), hexDigit (c % 16)] ∧
    hexUnit 48 48 (hexDigit (c / 16 % 16)).toNat (hexDigit (c % 16)).toNat = some c ∧
    (0 < (hexDigit (c / 16 % 16)).toNat ∧ (hexDigit (c / 16 % 16)).toNat < 0x80) ∧
    0 < (hexDigit (c % 16)).toNat ∧ (hexDigit (c % 16)).toNat < 0x80 := by
  decide +kernel

theorem escapeChar_takes {string : BsonString} (hd : string.Doubled) {c : Nat}
    (h : c ≤ 0x1FFFFF) : string.Takes (escapedChar c) (escapeChar string c) := by
  unfold escapeChar escapedChar
  split_ifs with h1 h2 h3 h4 h5 h6 h7
  · have henc : [UInt8.ofNat c] = utf8Encode c := by rw [utf8Encode, if_pos (by omega)]
    have hbind := (bsonStringAppendC_takes hd (by decide : (0x5C : UInt8) ≠ 0)).bind
      (f := (bsonStringAppendUnichar · c)) fun string' hd' =>
        bsonStringAppendUnichar_takes hd' (by omega) h
    rw [← henc] at hbind
    cases hc : bsonStringAppendC string 0x5C <;> rw [hc] at hbind <;> exact hbind
  · exact bsonStringAppend_takes hd (by decide) (by decide)
  · exact bsonStringAppend_takes hd (by decide) (by decide)
  · exact bsonStringAppend_takes hd (by decide) (by decide)
  · exact bsonStringAppend_takes hd (by decide) (by decide)
  · exact bsonStringAppend_takes hd (by decide) (by decide)
  · obtain ⟨hnul, hlen, -⟩ := printfU04x_table c h7
    exact bsonStringAppend_takes hd hnul (by omega)
  · exact bsonStringAppendUnichar_takes hd (by omega) h

/-! ## The escaped text is read back -/

theorem jsonBody_escaped {c : Nat} (hc : Scalar c) {text : Bytes} {cs : List Nat}
    (h : JsonBody text cs) : JsonBody (escapedChar c ++ text) (c :: cs) := by
  unfold escapedChar
  split_ifs with h1 h2 h3 h4 h5 h6 h7
  · rcases h1 with rfl | rfl
    · exact h.short (by decide) (by decide) (by decide)
    · exact h.short (by decide) (by decide) (by decide)
  · exact h.short (by rw [h2]; decide) (by decide) (by decide)
  · exact h.short (by rw [h3]; decide) (by decide) (by decide)
  · exact h.short (by rw [h4]; decide) (by decide) (by decide)
  · exact h.short (by rw [h5]; decide) (by decide) (by decide)
  · exact h.short (by rw [h6]; decide) (by decide) (by decide)
  · obtain ⟨-, -, htext, hunit, hx, hy⟩ := printfU04x_table c h7
    rw [htext]
    exact h.unit hunit h7 hx hy
  · exact h.plain ⟨hc, by omega, by omega, by omega⟩

theorem escaped_body {cs : List Nat} (h : ∀ c ∈ cs, Scalar c) :
    JsonBody (cs.flatMap escapedChar) cs := by
  induction cs with
  | nil => exact JsonBody.nil
  | cons c cs ih =>
    rw [List.flatMap_cons]
    exact jsonBody_escaped (h c List.mem_cons_self)
      (ih fun d hd => h d (List.mem_cons_of_mem c hd))

/-! ## The loop -/

theorem escapedWidth_table : ∀ c < 128, escapedLength (utf8Encode c) = (escapedChar c).length ∧
    0xC0 ∉ utf8Encode c := by
  decide +kernel

theorem escapedWidth_high {b : UInt8} (h : 0x80 ≤ b.toNat) : escapedWidth b = 1 := by
  have hne : ∀ n : UInt8, n.toNat < 0x80 → b ≠ n := by
    rintro n hn rfl
    omega
  have hlt : ¬ b < 0x20 := by
    rw [UInt8.lt_iff_toNat_lt]
    exact Nat.not_lt.mpr (by simpa using by omega)
  rw [escapedWidth, if_neg (by simp [hne]), if_neg hlt]

/-- Behind ASCII an octet is `80` or higher, and none is `C0`. -/
theorem utf8Encode_high {c : Nat} (hlow : 0x80 ≤ c) (h : c ≤ 0x1FFFFF) :
    ∀ b ∈ utf8Encode c, 0x80 ≤ b.toNat ∧ b.toNat ≠ 0xC0 := by
  have hb : ∀ n < 256, 0x80 ≤ n → n ≠ 0xC0 →
      0x80 ≤ (UInt8.ofNat n).toNat ∧ (UInt8.ofNat n).toNat ≠ 0xC0 := by
    intro n hlt hge hne
    rw [toNat_ofNat_of_lt hlt]
    exact ⟨hge, hne⟩
  unfold utf8Encode
  rw [if_neg (by omega)]
  split_ifs <;> simp only [List.forall_mem_cons, List.not_mem_nil, false_implies, implies_true,
    and_true]
  · exact ⟨hb _ (by omega) (by omega) (by omega), hb _ (by omega) (by omega) (by omega)⟩
  · exact ⟨hb _ (by omega) (by omega) (by omega), hb _ (by omega) (by omega) (by omega),
      hb _ (by omega) (by omega) (by omega)⟩
  · exact ⟨hb _ (by omega) (by omega) (by omega), hb _ (by omega) (by omega) (by omega),
      hb _ (by omega) (by omega) (by omega), hb _ (by omega) (by omega) (by omega)⟩

theorem escapedLength_append (s t : Bytes) :
    escapedLength (s ++ t) = escapedLength s + escapedLength t := by
  simp [escapedLength]

theorem escapedLength_high {s : Bytes} (h : ∀ b ∈ s, 0x80 ≤ b.toNat) :
    escapedLength s = s.length := by
  induction s with
  | nil => rfl
  | cons b s ih =>
    have hs := ih fun d hd => h d (List.mem_cons_of_mem b hd)
    rw [escapedLength] at hs
    rw [escapedLength, List.map_cons, List.sum_cons, hs, escapedWidth_high (h b List.mem_cons_self),
      List.length_cons, Nat.add_comm]

theorem escapedLength_encode {c : Nat} (h : c ≤ 0x1FFFFF) :
    escapedLength (utf8Encode c) = (escapedChar c).length ∧ 0xC0 ∉ utf8Encode c := by
  rcases Nat.lt_or_ge c 0x80 with hlt | hge
  · exact escapedWidth_table c hlt
  · have hhigh := utf8Encode_high hge h
    constructor
    · rw [escapedLength_high fun b hb => (hhigh b hb).1, escapedChar, if_neg (by omega),
        if_neg (by omega), if_neg (by omega), if_neg (by omega), if_neg (by omega),
        if_neg (by omega), if_neg (by omega)]
    · intro hmem
      exact (hhigh _ hmem).2 rfl

/-- The two octets `C0 80` are read as NUL, like one octet `00`. -/
theorem overlong_decodes : Decodes [0xC0, 0x80] 0 := (Lead.two 0 (by decide)).decodes [0x80] rfl

section Loop

variable {turns : Nat} {str : BsonString} {s : Bytes} {lengthProvided : Bool}

/-- One turn on a character that is not NUL. -/
theorem escapeLoop_char {c : Nat} (hc : c ≠ 0) (h : c ≤ 0x1FFFFF) :
    escapeLoop lengthProvided (turns + 1) (utf8Encode c ++ s) (utf8Encode c ++ s).length str =
      match escapeChar str c with
      | none => .lost
      | some str => escapeLoop lengthProvided turns s s.length str := by
  obtain ⟨hget, hnext⟩ := utf8Encode_decodes h
  have hne : (utf8Encode c ++ s).length ≠ 0 := by
    unfold utf8Encode
    split_ifs <;> simp
  rw [escapeLoop, if_neg hne, hget s]
  dsimp only
  cases escapeChar str c with
  | none => rfl
  | some str =>
    dsimp only
    rw [if_pos hc, hnext s]
    simp

/-- One turn on a NUL octet when the length was given. -/
theorem escapeLoop_nul :
    escapeLoop true (turns + 1) (0 :: s) (s.length + 1) str =
      match escapeChar str 0 with
      | none => .lost
      | some str => escapeLoop true turns s s.length str := by
  have hget : bsonUtf8GetChar (0 :: s) = some 0 := (utf8Encode_decodes (c := 0) (by decide)).getChar s
  rw [escapeLoop, if_neg (by omega), hget]
  dsimp only
  cases escapeChar str 0 with
  | none => rfl
  | some str => rfl

/-- On `C0 80` the loop gives up. -/
theorem escapeLoop_overlong (n : Nat) :
    escapeLoop lengthProvided turns (0xC0 :: 0x80 :: s) (n + 1) str = .lost ∨
      escapeLoop lengthProvided turns (0xC0 :: 0x80 :: s) (n + 1) str = .null := by
  cases turns with
  | zero => exact Or.inl rfl
  | succ turns =>
    have hget : bsonUtf8GetChar (0xC0 :: 0x80 :: s) = some 0 := overlong_decodes.getChar s
    rw [escapeLoop, if_neg (by omega), hget]
    dsimp only
    cases escapeChar str 0 with
    | none => exact Or.inl rfl
    | some str =>
      dsimp only
      rw [if_neg (by simp), if_neg (by simp)]
      exact Or.inr rfl

end Loop

/-- From any buffer the loop appends `text` for `s`, unless `C0 80` stands in `s`
or the buffer cannot hold it. -/
def LoopEscapes (s text : Bytes) : Prop :=
  ∀ (turns : Nat) (str : BsonString), str.Doubled → s.length < turns →
    (0xC0 ∉ s → str.str.length + escapedLength s < 2147483648 →
        escapeLoop true turns s s.length str = .text (str.str ++ text)) ∧
      (0xC0 ∈ s ∨ 2147483648 ≤ str.str.length + escapedLength s →
        escapeLoop true turns s s.length str = .lost ∨
          escapeLoop true turns s s.length str = .null)

theorem LoopEscapes.nil : LoopEscapes [] [] := by
  intro turns str hd hturns
  obtain ⟨turns, rfl⟩ : ∃ n, turns = n + 1 := ⟨turns - 1, by omega⟩
  obtain ⟨k, hk, halloc⟩ := hd
  have hfits := str.fits
  have hmax := Nat.pow_le_pow_right (show 0 < 2 by decide) hk
  constructor
  · intro _ _
    simp [escapeLoop]
  · intro h
    simp only [List.not_mem_nil, false_or, escapedLength, List.map_nil, List.sum_nil] at h
    omega

/-- A turn that appends the piece for `c`, then the rest. -/
theorem LoopEscapes.cons {p s text : Bytes} {c : Nat} (hc : c ≤ 0x1FFFFF) (hp : 0 < p.length)
    (hwidth : escapedLength p = (escapedChar c).length ∧ 0xC0 ∉ p)
    (hturn : ∀ (turns : Nat) (str : BsonString),
      escapeLoop true (turns + 1) (p ++ s) (p ++ s).length str =
        match escapeChar str c with
        | none => .lost
        | some str => escapeLoop true turns s s.length str)
    (h : LoopEscapes s text) : LoopEscapes (p ++ s) (escapedChar c ++ text) := by
  intro turns str hd hturns
  obtain ⟨turns, rfl⟩ : ∃ n, turns = n + 1 := ⟨turns - 1, by omega⟩
  rw [List.length_append] at hturns
  rw [hturn, escapedLength_append, hwidth.1, List.mem_append]
  rcases escapeChar_takes hd hc with ⟨hlt, str', hstr, hd', htext⟩ | ⟨hge, hstr⟩
  · rw [hstr]
    obtain ⟨hgood, hbad⟩ := h turns str' hd' (by omega)
    rw [htext, List.length_append, List.append_assoc] at hgood
    rw [htext, List.length_append] at hbad
    constructor
    · intro hnot hroom
      exact hgood (fun hmem => hnot (Or.inr hmem)) (by omega)
    · intro hor
      apply hbad
      rcases hor with (hmem | hmem) | hbig
      · exact absurd hmem hwidth.2
      · exact Or.inl hmem
      · exact Or.inr (by omega)
  · rw [hstr]
    constructor
    · intro _ hroom
      omega
    · intro _
      exact Or.inl rfl

theorem LoopEscapes.overlong (s text : Bytes) : LoopEscapes (0xC0 :: 0x80 :: s) text := by
  intro turns str _ _
  constructor
  · intro hnot
    exact absurd List.mem_cons_self hnot
  · intro _
    exact escapeLoop_overlong _

theorem escapeLoop_points {s : Bytes} {cs : List Nat} (hs : Utf8Points true s cs) :
    LoopEscapes s (cs.flatMap escapedChar) := by
  induction hs with
  | nil => exact LoopEscapes.nil
  | char c s cs hc hn _ ih =>
    obtain ⟨hmax, -⟩ := hc
    rw [List.flatMap_cons]
    by_cases hzero : c = 0
    · subst hzero
      exact ih.cons (p := [0]) (by omega) (by decide) (escapedWidth_table 0 (by decide))
        fun turns str => escapeLoop_nul
    · have hpos : 0 < (utf8Encode c).length := by
        unfold utf8Encode
        split_ifs <;> simp
      exact ih.cons (by omega) hpos (escapedLength_encode (by omega))
        fun turns str => escapeLoop_char hzero (by omega)
  | nul s cs hn _ ih => exact LoopEscapes.overlong s _

/-- On valid text of given length: the escaped characters, or no string. -/
theorem bsonUtf8EscapeForJson_spec {s : Bytes} {cs : List Nat} (hs : Utf8Points true s cs) :
    (0xC0 ∉ s ∧ escapedLength s < 2147483648 →
        bsonUtf8EscapeForJson s s.length = .text (cs.flatMap escapedChar)) ∧
      (¬ (0xC0 ∉ s ∧ escapedLength s < 2147483648) →
        bsonUtf8EscapeForJson s s.length = .lost ∨ bsonUtf8EscapeForJson s s.length = .null) := by
  obtain ⟨hgood, hbad⟩ := escapeLoop_points hs (s.length + 1) bsonStringNew bsonStringNew_doubled
    (Nat.lt_succ_self _)
  have hlen : bsonUtf8EscapeForJson s s.length =
      escapeLoop true (s.length + 1) s s.length bsonStringNew := by
    rw [bsonUtf8EscapeForJson, if_neg (by omega), Int.toNat_natCast]
  have hzero : bsonStringNew.str.length = 0 := rfl
  rw [hzero, Nat.zero_add] at hgood hbad
  rw [hlen]
  constructor
  · intro ⟨hc0, hroom⟩
    exact hgood hc0 hroom
  · intro hnot
    apply hbad
    by_contra hor
    rw [not_or, Nat.not_le] at hor
    exact hnot hor

end LibBson.Source
