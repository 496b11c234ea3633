import LibBson.Source.Base64Bounds

/-!
# Base 64

Which texts are read, as which octets; that what is printed is read back; and that
neither direction leaves its buffer. Source: b64_ntop.h:112-190, b64_pton.h:108-420.
-/

set_option autoImplicit false

namespace LibBson.Guarantees
open LibBson.Library LibBson.Library.Base64 LibBson.Source

/-- A text of fewer than 2^31 ASCII characters is read exactly when, white space left out, it is
a row of digits with its padding, as the octets that the bits of the digits fill. -/
theorem base64_text_iff (before : UInt8 → B64Class) (src octs : Bytes)
    (plain : ∀ c ∈ src, c < 128) (short : src.length < 2147483648) :
    b64Pton before src = some octs ↔
      ∃ ds : Digits, ds.length % 4 ≠ 1 ∧ visible (cText src) = text ds ∧ octets ds = octs := by
  rw [b64Pton_eq before (b64Text_cText plain) (octets_cText_short short)]
  constructor
  · intro h
    split at h
    · rename_i haccepts
      exact ⟨_, haccepts.count, haccepts.text_eq, Option.some.inj h⟩
    · cases h
  · rintro ⟨ds, hcount, htext, rfl⟩
    obtain ⟨hscan, haccepts⟩ := accepts_text hcount htext
    rw [if_pos haccepts, hscan]

theorem base64_text_spaced :
    b64Pton (fun _ => .invalid) (ascii "TW Fu\nZ28 =") = some (ascii "Mango") ↔
      ∃ ds : Digits, ds.length % 4 ≠ 1 ∧ visible (cText (ascii "TW Fu\nZ28 =")) = text ds ∧
        octets ds = ascii "Mango" :=
  base64_text_iff (fun _ => .invalid) _ _ (by simp [ascii]) (by simp [ascii])

/-- The two calls of the reader. The first answers how many octets there are, the second,
with room for one more, stores them, whatever stood in the buffer. The answer of the second
is their number for the text `b64_ntop` prints and -1 for any other with bits left over. -/
theorem base64_two_passes (before : UInt8 → B64Class) (src : Bytes) (plain : ∀ c ∈ src, c < 128)
    (short : src.length < 2147483648) (target : Mem) (targsize : Nat) :
    (b64Pton before src = none → b64PtonLen before src = -1) ∧
      ∀ octs, b64Pton before src = some octs →
        b64PtonLen before src = octs.length ∧
        (octs.length < targsize →
          (b64PtonDo before src target targsize).2.slice 0 octs.length = octs ∧
          (b64PtonDo before src target targsize).1 =
            if visible (cText src) = b64Ntop octs then (octs.length : Int) else -1) := by
  have hsrc := b64Text_cText plain
  have hshort := octets_cText_short short
  rw [b64Pton_eq before hsrc hshort, b64PtonLen_eq before hsrc hshort]
  by_cases haccepts : B64Accepts (cText src)
  · rw [if_pos haccepts, if_pos haccepts]
    refine ⟨Option.some_ne_none _ |>.elim, fun octs heq => ?_⟩
    obtain rfl := Option.some.inj heq
    refine ⟨rfl, fun room => ?_⟩
    obtain ⟨hanswer, hstored⟩ := b64PtonDo_eq before hsrc hshort haccepts target room
    refine ⟨hstored, ?_⟩
    have hcanonical : visible (cText src) = b64Ntop (octets (b64Scan (cText src)).1) ↔
        value (b64Scan (cText src)).1 % 2 ^ (6 * (b64Scan (cText src)).1.length % 8) = 0 := by
      rw [sextets_octets_iff haccepts.count, b64Ntop_eq]
      constructor
      · exact fun h => (accepts_text (sextets_count _) h).1
      · intro h
        rw [← h]
        exact haccepts.text_eq
    rw [hanswer]
    simp only [hcanonical]
  · rw [if_neg haccepts, if_neg haccepts]
    exact ⟨fun _ => rfl, fun octs h => absurd h (Option.some_ne_none octs).symm⟩

/-- A text with bits left over, and one without. -/
theorem base64_two_passes_mango :
    (b64Pton (fun _ => .invalid) (ascii "TWFuZ29=") = none →
        b64PtonLen (fun _ => .invalid) (ascii "TWFuZ29=") = -1) ∧
      ∀ octs, b64Pton (fun _ => .invalid) (ascii "TWFuZ29=") = some octs →
        b64PtonLen (fun _ => .invalid) (ascii "TWFuZ29=") = octs.length ∧
        (octs.length < 6 →
          (b64PtonDo (fun _ => .invalid) (ascii "TWFuZ29=") (fun _ => 7) 6).2.slice 0
              octs.length = octs ∧
          (b64PtonDo (fun _ => .invalid) (ascii "TWFuZ29=") (fun _ => 7) 6).1 =
            if visible (cText (ascii "TWFuZ29=")) = b64Ntop octs then (octs.length : Int)
            else -1) :=
  base64_two_passes (fun _ => .invalid) (ascii "TWFuZ29=") (by simp [ascii]) (by simp [ascii])
    (fun _ => 7) 6

/-- Whatever the text and the octets are, and whatever room there is, nothing from
`targsize` on is looked at or changed: a run over memory that holds others there is the
same run. -/
theorem base64_confined (before : UInt8 → B64Class) (src octs : Bytes) (target fresh : Mem)
    (targsize : Nat) :
    b64PtonDo before src (target.copyPrefix fresh targsize) targsize =
        ((b64PtonDo before src target targsize).1,
          (b64PtonDo before src target targsize).2.copyPrefix fresh targsize) ∧
      b64NtopInto octs (target.copyPrefix fresh targsize) targsize =
        ((b64NtopInto octs target targsize).1,
          (b64NtopInto octs target targsize).2.copyPrefix fresh targsize) :=
  ⟨b64PtonDo_copyPrefix before src target fresh targsize,
    b64NtopFrom_copyPrefix targsize octs target fresh 0⟩

/-! ## There and back -/

/-- The buffer of `_bson_as_json_visit_binary`. -/
def visitBinaryLen (n : Nat) : Nat := (n / 3 + 1) * 4 + 1

/-- What `_bson_as_json_visit_binary` prints of fewer than 2^31 octets, the two calls of the
reader store again. -/
theorem base64_print_read (before : UInt8 → B64Class) (octs : Bytes) (buf target : Mem)
    (short : octs.length < 2147483648) :
    let printed := b64NtopInto octs buf (visitBinaryLen octs.length)
    let src := printed.2.slice 0 (visitBinaryLen octs.length)
    let stored := b64PtonDo before src target (octs.length + 1)
    printed.1 = ((octs.length + 2) / 3 * 4 : Nat) ∧ b64PtonLen before src = octs.length ∧
      stored.1 = octs.length ∧ stored.2.slice 0 octs.length = octs := by
  have hroom : 0 + (b64Ntop octs).length < visitBinaryLen octs.length := by
    rw [b64Ntop_length, visitBinaryLen]
    omega
  have hprinted := b64NtopFrom_fits buf hroom
  rw [Nat.zero_add] at hprinted hroom
  have htext : cText ((buf.write 0 (b64Ntop octs ++ [0])).slice 0 (visitBinaryLen octs.length)) =
      b64Ntop octs := by
    have hheld := Mem.holds_write_self buf 0 (b64Ntop octs ++ [0])
    obtain ⟨k, hk⟩ : ∃ k, visitBinaryLen octs.length = (b64Ntop octs ++ [0]).length + k :=
      ⟨visitBinaryLen octs.length - ((b64Ntop octs).length + 1), by
        rw [List.length_append, List.length_singleton]
        omega⟩
    rw [hk, Mem.slice_add, hheld.slice_eq, List.append_assoc, List.singleton_append]
    exact cText_append_nul fun hmem => (b64Ntop_mem hmem).2.2 rfl
  dsimp only
  rw [b64NtopInto, hprinted, b64Ntop_length]
  dsimp only
  generalize (buf.write 0 (b64Ntop octs ++ [0])).slice 0 (visitBinaryLen octs.length) = src at htext
  have hsrc : B64Text (cText src) := by
    rw [htext]
    exact fun c hc => (b64Ntop_mem hc).2
  have hvisible : visible (cText src) = text (sextets octs) := by
    rw [htext, visible_b64Ntop, b64Ntop_eq]
  obtain ⟨hscan, haccepts⟩ := accepts_text (sextets_count octs) hvisible
  have hshort : (octets (b64Scan (cText src)).1).length < 2147483648 := by
    rwa [hscan, octets_sextets]
  have hlength := b64PtonLen_eq before hsrc hshort
  obtain ⟨hanswer, hstored⟩ := b64PtonDo_eq before hsrc hshort haccepts target
    (show _ < octs.length + 1 by rw [hscan, octets_sextets]; exact Nat.lt_succ_self _)
  have hbits := (sextets_octets_iff (sextets_count octs)).mpr (by rw [octets_sextets])
  rw [if_pos haccepts, hscan, octets_sextets] at hlength
  rw [hscan, octets_sextets, if_pos hbits] at hanswer
  rw [hscan, octets_sextets] at hstored
  exact ⟨rfl, hlength, hanswer, hstored⟩

theorem base64_print_read_mango :
    let octs := ascii "Mango"
    let printed := b64NtopInto octs (fun _ => 7) (visitBinaryLen octs.length)
    let src := printed.2.slice 0 (visitBinaryLen octs.length)
    let stored := b64PtonDo (fun _ => .invalid) src (fun _ => 9) (octs.length + 1)
    printed.1 = ((octs.length + 2) / 3 * 4 : Nat) ∧
      b64PtonLen (fun _ => .invalid) src = octs.length ∧
      stored.1 = octs.length ∧ stored.2.slice 0 octs.length = octs :=
  base64_print_read (fun _ => .invalid) (ascii "Mango") (fun _ => 7) (fun _ => 9)
    (by simp [ascii])

end LibBson.Guarantees
