import LibBson.Source.Md5
import Mathlib.Tactic.IntervalCases

/-!
# The digest's state and the message it stands for

A block is compressed as the standard says, and an append keeps the state at the
message so far, whatever pieces the message came in.
-/

set_option autoImplicit false

namespace LibBson.Source
open LibBson.Library

/-! ## A block -/

/-- The shifts of a rotation by 1 to 31 places. -/
theorem md5RotateLeft_eq (x s : UInt32) (h0 : 0 < s.toNat) (h : s.toNat < 32) :
    md5RotateLeft x s = Md5.rotateLeft x s.toNat := by
  apply UInt32.toBitVec_inj.mp
  simp [md5RotateLeft, Md5.rotateLeft, UInt32.toBitVec_shiftRight, UInt32.toBitVec_shiftLeft,
    BitVec.rotateLeft_def, Nat.mod_eq_of_lt h]
  congr 2
  omega

/-- The registers of step `j`, and the words as its round turns them. -/
def md5Roles (j : Nat) : Md5Reg × Md5Reg × Md5Reg × Md5Reg :=
  match j % 4 with
  | 0 => (.a, .b, .c, .d)
  | 1 => (.d, .a, .b, .c)
  | 2 => (.c, .d, .a, .b)
  | _ => (.b, .c, .d, .a)

def md5View (j : Nat) (w : Md5Words) : Md5Words :=
  ⟨getReg w (md5Roles j).1, getReg w (md5Roles j).2.1, getReg w (md5Roles j).2.2.1,
    getReg w (md5Roles j).2.2.2⟩

/-- How many lines are in front of a round. -/
def roundFirst : Md5.Round → Nat
  | .f => 0
  | .g => 16
  | .h => 32
  | .i => 48

/-- Step `j` of a round, as its line of the source has it. -/
def md5Line (r : Md5.Round) (j : Nat) : Md5Set :=
  ⟨(md5Roles j).1, (md5Roles j).2.1, (md5Roles j).2.2.1, (md5Roles j).2.2.2, r.word j,
    UInt32.ofNat (r.shift j), roundFirst r + 1 + j⟩

theorem md5T_eq : md5T = Md5.Round.all.flatMap Md5.Round.constants := by decide +kernel

theorem md5T_constant (r : Md5.Round) {j : Nat} (hj : j < 16) :
    md5T.getD (roundFirst r + j) 0 = r.constant j := by
  rw [md5T_eq]
  cases r <;> interval_cases j <;> rfl

theorem round_shift (r : Md5.Round) (j : Nat) : 0 < r.shift j ∧ r.shift j < 32 := by
  have hlt : j % 4 < 4 := Nat.mod_lt j (by decide)
  unfold Md5.Round.shift
  generalize j % 4 = k at hlt
  cases r <;> interval_cases k <;> decide

/-- A line of the source is the step of its number, in the registers of that step. -/
theorem md5Set_step (r : Md5.Round) (x : Nat → UInt32) (w : Md5Words) {j : Nat} (hj : j < 16) :
    md5View (j + 1) (md5Set r.mix x w (md5Line r j)) = Md5.step r x (md5View j w) j := by
  obtain ⟨hpos, hlt⟩ := round_shift r j
  have hshift : (UInt32.ofNat (r.shift j)).toNat = r.shift j := by
    rw [UInt32.toNat_ofNat']
    omega
  have hrot (y : UInt32) : md5RotateLeft y (UInt32.ofNat (r.shift j)) =
      Md5.rotateLeft y (r.shift j) := by
    rw [md5RotateLeft_eq _ _ (by omega) (by omega), hshift]
  have htable : md5T.getD (roundFirst r + 1 + j - 1) 0 = r.constant j := by
    rw [← md5T_constant r hj]
    congr 1
    omega
  simp only [md5Line, md5Set, htable, hrot, Md5.step, Md5.turn]
  have hrole : j % 4 = 0 ∨ j % 4 = 1 ∨ j % 4 = 2 ∨ j % 4 = 3 := by omega
  rcases hrole with h | h | h | h
  · have hnext : (j + 1) % 4 = 1 := by omega
    simp [md5View, md5Roles, h, hnext, getReg, setReg, UInt32.add_comm]
  · have hnext : (j + 1) % 4 = 2 := by omega
    simp [md5View, md5Roles, h, hnext, getReg, setReg, UInt32.add_comm]
  · have hnext : (j + 1) % 4 = 3 := by omega
    simp [md5View, md5Roles, h, hnext, getReg, setReg, UInt32.add_comm]
  · have hnext : (j + 1) % 4 = 0 := by omega
    simp [md5View, md5Roles, h, hnext, getReg, setReg, UInt32.add_comm]

/-- Behind a round every register has its own word again. -/
theorem md5View_round (w : Md5Words) : md5View 16 w = w := rfl

theorem md5Lines_steps (r : Md5.Round) (x : Nat → UInt32) (w : Md5Words) (n : Nat) (hn : n ≤ 16) :
    md5View n (((List.range n).map (md5Line r)).foldl (md5Set r.mix x) w) =
      (List.range n).foldl (Md5.step r x) w := by
  induction n with
  | zero => rfl
  | succ n ih =>
    rw [List.range_succ, List.map_append, List.foldl_append, List.foldl_append, ← ih (by omega)]
    exact md5Set_step r x _ (by omega)

/-- A round of the source, of the lines its number gives. -/
theorem md5Round_eq {r : Md5.Round} {lines : List Md5Set}
    (hlines : lines = (List.range 16).map (md5Line r)) (x : Nat → UInt32) (w : Md5Words) :
    lines.foldl (md5Set r.mix x) w = Md5.round x w r := by
  have hsteps := md5Lines_steps r x w 16 (Nat.le_refl 16)
  rwa [← hlines, md5View_round] at hsteps

theorem md5Round1_lines : md5Round1 = (List.range 16).map (md5Line .f) := by decide

theorem md5Round2_lines : md5Round2 = (List.range 16).map (md5Line .g) := by decide

theorem md5Round3_lines : md5Round3 = (List.range 16).map (md5Line .h) := by decide

theorem md5Round4_lines : md5Round4 = (List.range 16).map (md5Line .i) := by decide

theorem md5Round1_eq (x : Nat → UInt32) (w : Md5Words) :
    md5Round1.foldl (md5Set md5F x) w = Md5.round x w .f :=
  md5Round_eq (r := .f) md5Round1_lines x w

theorem md5Round2_eq (x : Nat → UInt32) (w : Md5Words) :
    md5Round2.foldl (md5Set md5G x) w = Md5.round x w .g :=
  md5Round_eq (r := .g) md5Round2_lines x w

theorem md5Round3_eq (x : Nat → UInt32) (w : Md5Words) :
    md5Round3.foldl (md5Set md5H x) w = Md5.round x w .h :=
  md5Round_eq (r := .h) md5Round3_lines x w

theorem md5Round4_eq (x : Nat → UInt32) (w : Md5Words) :
    md5Round4.foldl (md5Set md5I x) w = Md5.round x w .i :=
  md5Round_eq (r := .i) md5Round4_lines x w

/-- Words that are the same below 16 make no difference to a round. -/
theorem md5Sets_congr (fn : UInt32 → UInt32 → UInt32 → UInt32) {x y : Nat → UInt32}
    (same : ∀ k, k < 16 → x k = y k) {lines : List Md5Set} (hlines : ∀ op ∈ lines, op.k < 16)
    (w : Md5Words) : lines.foldl (md5Set fn x) w = lines.foldl (md5Set fn y) w := by
  refine List.foldl_ext _ _ _ fun w op hop => ?_
  rw [md5Set, md5Set, same op.k (hlines op hop)]

theorem blockWord_slice (data : Mem) {k : Nat} (hk : k < 16) :
    UInt32.ofNat (data.le (4 * k) 4) = Md5.blockWord (data.slice 0 64) k := by
  rw [Md5.blockWord, Mem.drop_slice _ _ _ _ (by omega), Mem.take_slice _ _ _ _ (by omega),
    Nat.zero_add, Mem.le]

theorem bsonMd5Process_eq (abcd : Md5Words) (data : Mem) :
    bsonMd5Process abcd data = Md5.compress abcd (data.slice 0 64) := by
  simp only [bsonMd5Process, Md5.compress, Md5.Round.all, List.foldl_cons, List.foldl_nil]
  rw [md5Sets_congr md5F (fun k hk => blockWord_slice data hk) (by decide),
    md5Sets_congr md5G (fun k hk => blockWord_slice data hk) (by decide),
    md5Sets_congr md5H (fun k hk => blockWord_slice data hk) (by decide),
    md5Sets_congr md5I (fun k hk => blockWord_slice data hk) (by decide),
    md5Round1_eq, md5Round2_eq, md5Round3_eq, md5Round4_eq]

/-! ## A message -/

/-- The loop over the full blocks absorbs them and stops at what is left. -/
theorem md5FullBlocks_eq (abcd : Md5Words) (p : Mem) (k left : Nat) (hk : left / 64 = k) :
    md5FullBlocks k abcd p left =
      (BlockStream.absorb Md5.compress 64 abcd (p.slice 0 left), p.shift (64 * k),
        ((left % 64 : Nat) : Int)) := by
  induction k generalizing abcd p left with
  | zero =>
    have hshort : left < 64 := by omega
    rw [md5FullBlocks, BlockStream.absorb_short _ _ (by rw [Mem.slice_length]; exact hshort),
      Nat.mod_eq_of_lt hshort, Nat.mul_zero, Mem.shift_zero]
  | succ k ih =>
    obtain ⟨rest, rfl⟩ : ∃ rest, left = 64 + rest := Nat.exists_eq_add_of_le (by omega)
    have hrest : ((64 + rest : Nat) : Int) - 64 = (rest : Nat) := by omega
    rw [md5FullBlocks, if_pos (by omega), hrest, ih _ _ rest (by omega), Mem.slice_add,
      BlockStream.absorb_block _ (by decide) _ (Mem.slice_length p 0 64), bsonMd5Process_eq,
      Mem.slice_shift, Mem.shift_shift, Nat.zero_add, Nat.add_mod_left, Nat.mul_succ,
      Nat.add_comm (64 * k)]

theorem pending_slice (p : Mem) (left : Nat) :
    BlockStream.pending 64 (p.slice 0 left) = p.slice (64 * (left / 64)) (left % 64) := by
  rw [BlockStream.pending, Mem.slice_length, Mem.drop_slice _ _ _ _ (Nat.div_mul_le_self left 64),
    Nat.zero_add, ← Nat.mod_eq_sub_div_mul, Nat.mul_comm]

/-- What stands in `buf` at the end of an append. -/
theorem md5AppendBlocks_spec (pms : BsonMd5) (p : Mem) (left : Nat) :
    ∃ buf, md5AppendBlocks pms p left =
        some { pms with abcd := BlockStream.absorb Md5.compress 64 pms.abcd (p.slice 0 left),
                        buf := buf } ∧
      buf.slice 0 (left % 64) = BlockStream.pending 64 (p.slice 0 left) := by
  have hlt : left % 64 < 64 := Nat.mod_lt left (by decide)
  rw [pending_slice]
  simp only [md5AppendBlocks, Int.toNat_natCast, md5FullBlocks_eq pms.abcd p _ left rfl]
  by_cases hleft : left % 64 = 0
  · refine ⟨pms.buf, by simp [hleft], by rw [hleft, Mem.slice_zero, Mem.slice_zero]⟩
  · refine ⟨pms.buf.write 0 ((p.shift (64 * (left / 64))).slice 0 (left % 64)), ?_, ?_⟩
    · have hne : ((left % 64 : Nat) : Int) ≠ 0 := by omega
      have hfits : 0 ≤ ((left % 64 : Nat) : Int) ∧
          ((0 : Nat) : Int) + ((left % 64 : Nat) : Int) ≤ 64 := by omega
      rw [if_pos hne, md5Copy, if_pos hfits, Int.toNat_natCast, Option.map_some]
    · have hwritten := Mem.holds_write_self pms.buf 0
        ((p.shift (64 * (left / 64))).slice 0 (left % 64))
      have hread := hwritten.slice_of_length (Mem.slice_length _ _ _)
      rw [hread, Mem.slice_shift, Nat.add_zero]

/-- The state stands for the octets appended so far. -/
structure Md5Holds (pms : BsonMd5) (message : Bytes) : Prop where
  count : pms.count0.toNat + 4294967296 * pms.count1.toNat =
    8 * message.length % 18446744073709551616
  abcd : pms.abcd = BlockStream.absorb Md5.compress 64 Md5.start message
  buf : pms.buf.slice 0 (message.length % 64) = BlockStream.pending 64 message

theorem bsonMd5Init_holds (pms : BsonMd5) : Md5Holds (bsonMd5Init pms) [] where
  count := rfl
  abcd := rfl
  buf := rfl

theorem md5Count_count (pms : BsonMd5) (nbytes : UInt32) {length : Nat}
    (h : pms.count0.toNat + 4294967296 * pms.count1.toNat =
      8 * length % 18446744073709551616) :
    (md5Count pms nbytes).count0.toNat + 4294967296 * (md5Count pms nbytes).count1.toNat =
      8 * (length + nbytes.toNat) % 18446744073709551616 := by
  have h0 := pms.count0.toNat_lt
  have h1 := pms.count1.toNat_lt
  have hn := nbytes.toNat_lt
  have hshl : (nbytes <<< 3).toNat = nbytes.toNat * 8 % 4294967296 := by
    simp [UInt32.toNat_shiftLeft, Nat.shiftLeft_eq]
  have hshr : (nbytes >>> 29).toNat = nbytes.toNat / 536870912 := by
    simp [UInt32.toNat_shiftRight, Nat.shiftRight_eq_div_pow]
  simp only [md5Count]
  split
  · rename_i hlt
    rw [UInt32.lt_iff_toNat_lt] at hlt
    simp only [UInt32.toNat_add, hshl, hshr, UInt32.toNat_one] at hlt ⊢
    omega
  · rename_i hge
    rw [UInt32.lt_iff_toNat_lt] at hge
    simp only [UInt32.toNat_add, hshl, hshr] at hge ⊢
    omega

theorem and_63 (x : UInt32) : (x &&& 63).toNat = x.toNat % 64 := by
  rw [UInt32.toNat_and]
  exact Nat.and_two_pow_sub_one_eq_mod x.toNat 6

theorem md5_offset {pms : BsonMd5} {message : Bytes} (h : Md5Holds pms message) :
    ((pms.count0 >>> 3) &&& 63).toNat = message.length % 64 := by
  have hcount := h.count
  have h0 := pms.count0.toNat_lt
  have hshift : (pms.count0 >>> 3).toNat = pms.count0.toNat / 8 := by
    simp [UInt32.toNat_shiftRight, Nat.shiftRight_eq_div_pow]
  rw [and_63, hshift]
  omega

/-- A copy behind what `buf` has. -/
theorem md5Copy_spec {buf : Mem} {offset : Nat} {held : Bytes} (hheld : buf.slice 0 offset = held)
    (data : Mem) {n : Nat} (hfits : offset + n ≤ 64) :
    ∃ buf', md5Copy buf offset data (n : Nat) = some buf' ∧
      buf'.slice 0 (offset + n) = held ++ data.slice 0 n := by
  refine ⟨buf.write offset (data.slice 0 n), ?_, ?_⟩
  · have hcond : 0 ≤ ((n : Nat) : Int) ∧ (offset : Int) + ((n : Nat) : Int) ≤ 64 := by omega
    rw [md5Copy, if_pos hcond, Int.toNat_natCast]
  · have hlength : held.length = offset := by rw [← hheld, Mem.slice_length]
    have hfirst : Holds (buf.write offset (data.slice 0 n)) 0 held := by
      refine Mem.holds_write_frame ?_ (Or.inl (by omega))
      rw [← hheld]
      exact holds_slice buf 0 offset
    have hsecond := Mem.holds_write_self buf offset (data.slice 0 n)
    rw [Mem.slice_add, hfirst.slice_of_length hlength, Nat.zero_add,
      hsecond.slice_of_length (Mem.slice_length data 0 n)]

/-- Behind whole blocks, the rest of an append completes the message. -/
theorem md5AppendBlocks_holds {pms : BsonMd5} (whole : Bytes) {message : Bytes} {p : Mem} {n : Nat}
    (hcount : pms.count0.toNat + 4294967296 * pms.count1.toNat =
      8 * message.length % 18446744073709551616)
    (habcd : pms.abcd = BlockStream.absorb Md5.compress 64 Md5.start whole)
    (hwhole : BlockStream.pending 64 whole = []) (hmessage : message = whole ++ p.slice 0 n) :
    ∃ pms', md5AppendBlocks pms p (n : Nat) = some pms' ∧ Md5Holds pms' message := by
  obtain ⟨buf, hblocks, hbuf⟩ := md5AppendBlocks_spec pms p n
  have hpending : BlockStream.pending 64 message = BlockStream.pending 64 (p.slice 0 n) := by
    rw [hmessage, BlockStream.pending_append (by decide), hwhole, List.nil_append]
  have hlength : message.length % 64 = n % 64 := by
    rw [← BlockStream.pending_length message, hpending, BlockStream.pending_length,
      Mem.slice_length]
  refine ⟨_, hblocks, hcount, ?_, ?_⟩
  · rw [hmessage, BlockStream.absorb_append _ (by decide), hwhole, List.nil_append, habcd]
  · rw [hlength, hpending]
    exact hbuf

/-- The copy fills the block, or takes everything. -/
theorem md5_copy_length {offset nbytes : UInt32} (hoffset : offset.toNat < 64)
    (hn : nbytes.toNat < 2147483648 + 64) :
    (if offset + nbytes > 64 then 64 - (offset.toNat : Int) else i32 nbytes.toNat) =
      ((min (64 - offset.toNat) nbytes.toNat : Nat) : Int) := by
  have hsum : (offset + nbytes).toNat = offset.toNat + nbytes.toNat := by
    rw [UInt32.toNat_add]
    omega
  have hcond : offset + nbytes > 64 ↔ 64 < offset.toNat + nbytes.toNat := by
    rw [gt_iff_lt, UInt32.lt_iff_toNat_lt, hsum]
    rfl
  simp only [hcond]
  split
  · omega
  · rw [i32_of_lt (by omega)]
    omega

/-- `left -= copy`, with the wrap of the cast undone where it can be. -/
theorem md5_left {n copy : Nat} (hcopy : copy ≤ n) :
    i32 (ofInt32 (i32 n - (copy : Nat))) = i32 (n - copy) := by
  unfold i32 ofInt32
  split <;> split <;> split <;> omega

/-- A partial block that stays one. -/
theorem md5Holds_partial {pms : BsonMd5} {message more : Bytes}
    (habcd : pms.abcd = BlockStream.absorb Md5.compress 64 Md5.start message)
    (hcount : pms.count0.toNat + 4294967296 * pms.count1.toNat =
      8 * (message ++ more).length % 18446744073709551616)
    (hshort : (BlockStream.pending 64 message ++ more).length < 64) {buf : Mem}
    (hbuf : buf.slice 0 (BlockStream.pending 64 message ++ more).length =
      BlockStream.pending 64 message ++ more) :
    Md5Holds { pms with buf := buf } (message ++ more) := by
  have hpending : BlockStream.pending 64 (message ++ more) =
      BlockStream.pending 64 message ++ more := by
    rw [BlockStream.pending_append (by decide), BlockStream.pending_short hshort]
  refine ⟨hcount, ?_, ?_⟩
  · rw [BlockStream.absorb_append _ (by decide), BlockStream.absorb_short _ _ hshort, habcd]
  · rw [← BlockStream.pending_length, hpending]
    exact hbuf

theorem md5AppendPartial_holds (pms : BsonMd5) {message : Bytes} {offset nbytes : UInt32}
    (habcd : pms.abcd = BlockStream.absorb Md5.compress 64 Md5.start message)
    (hoffset : offset.toNat = message.length % 64)
    (hbuf : pms.buf.slice 0 offset.toNat = BlockStream.pending 64 message)
    (data : Mem) (hn : nbytes.toNat < 2147483648 + (64 - offset.toNat))
    (hcount : pms.count0.toNat + 4294967296 * pms.count1.toNat =
      8 * (message ++ data.slice 0 nbytes.toNat).length % 18446744073709551616) :
    ∃ pms', md5AppendPartial pms offset data nbytes (i32 nbytes.toNat) = some pms' ∧
      Md5Holds pms' (message ++ data.slice 0 nbytes.toNat) := by
  have hlt : offset.toNat < 64 := by
    rw [hoffset]
    exact Nat.mod_lt _ (by decide)
  have hlength (n : Nat) :
      (BlockStream.pending 64 message ++ data.slice 0 n).length = offset.toNat + n := by
    rw [List.length_append, BlockStream.pending_length, Mem.slice_length, hoffset]
  obtain ⟨n, hn'⟩ : ∃ n, n = min (64 - offset.toNat) nbytes.toNat := ⟨_, rfl⟩
  obtain ⟨buf, hcopied, hheld⟩ := md5Copy_spec hbuf data (n := n) (by omega)
  have hcopy := @md5_copy_length offset nbytes hlt (by omega)
  simp only [md5AppendPartial, hcopy, ← hn', hcopied]
  by_cases hshort : offset.toNat + n < 64
  · obtain rfl : n = nbytes.toNat := by omega
    have hfits : (offset.toNat : Int) + ((nbytes.toNat : Nat) : Int) < 64 := by omega
    rw [if_pos hfits]
    refine ⟨_, rfl, md5Holds_partial habcd hcount (by rw [hlength]; exact hshort) ?_⟩
    rw [hlength]
    exact hheld
  · have hfull : ¬ (offset.toNat : Int) + ((n : Nat) : Int) < 64 := by omega
    have hrest : i32 (ofInt32 (i32 nbytes.toNat - ((n : Nat) : Int))) =
        ((nbytes.toNat - n : Nat) : Int) := by
      rw [md5_left (by omega), i32_of_lt (by omega)]
    have hblock : (BlockStream.pending 64 message ++ data.slice 0 n).length = 64 := by
      rw [hlength]
      omega
    have hsplit : data.slice 0 nbytes.toNat =
        data.slice 0 n ++ (data.shift n).slice 0 (nbytes.toNat - n) := by
      have hadd := Mem.slice_add data 0 n (nbytes.toNat - n)
      rwa [Nat.add_sub_cancel' (by omega), Nat.zero_add, ← Nat.add_zero n,
        ← Mem.slice_shift, Nat.add_zero] at hadd
    rw [if_neg hfull, Int.toNat_natCast, hrest]
    refine md5AppendBlocks_holds (message ++ data.slice 0 n) hcount ?_ ?_ ?_
    · rw [BlockStream.absorb_append _ (by decide), ← List.append_nil (_ ++ data.slice 0 n),
        BlockStream.absorb_block _ (by decide) _ hblock,
        BlockStream.absorb_short _ _ (by decide), bsonMd5Process_eq, habcd, ← hheld, ← hlength,
        hblock]
    · rw [BlockStream.pending_append (by decide), ← List.append_nil (_ ++ data.slice 0 n),
        BlockStream.pending_block (by decide) hblock, BlockStream.pending_short (by decide)]
    · rw [List.append_assoc, ← hsplit]

/-- The longest piece that an append takes behind a message: one octet less than 2^31 behind what
completes the block. -/
def md5MaxPiece (length : Nat) : Nat := 2147483647 + (64 - length % 64) % 64

theorem md5MaxPiece_ge (length : Nat) : 2147483647 ≤ md5MaxPiece length := Nat.le_add_right _ _

/-- Appending no more than that keeps the state at the message. -/
theorem bsonMd5Append_holds {pms : BsonMd5} {message : Bytes} (h : Md5Holds pms message)
    (data : Mem) (nbytes : UInt32) (hn : nbytes.toNat ≤ md5MaxPiece message.length) :
    ∃ pms', bsonMd5Append pms data nbytes = some pms' ∧
      Md5Holds pms' (message ++ data.slice 0 nbytes.toNat) := by
  have hoffset := md5_offset h
  have hcount := md5Count_count pms nbytes h.count
  rw [← Mem.slice_length data 0 nbytes.toNat, ← List.length_append] at hcount
  unfold md5MaxPiece at hn
  unfold bsonMd5Append
  dsimp only
  by_cases hzero : nbytes ≤ 0
  · have hnone : nbytes.toNat = 0 := Nat.le_zero.mp (UInt32.le_iff_toNat_le.mp hzero)
    rw [if_pos hzero, hnone, Mem.slice_zero, List.append_nil]
    exact ⟨pms, rfl, h⟩
  rw [if_neg hzero]
  by_cases haligned : pms.count0 >>> 3 &&& 63 = 0
  · have hnone : message.length % 64 = 0 := by
      rw [← hoffset, haligned]
      rfl
    have hempty : BlockStream.pending 64 message = [] := by
      rw [← h.buf, hnone, Mem.slice_zero]
    rw [if_neg (by simp [haligned]), i32_of_lt (by omega)]
    exact md5AppendBlocks_holds message hcount h.abcd hempty rfl
  · rw [if_pos haligned]
    refine md5AppendPartial_holds (md5Count pms nbytes) h.abcd hoffset ?_ data (by omega) hcount
    rw [hoffset]
    exact h.buf

/-! ## An append that is too long -/

theorem i32_negative {n : Nat} (hlo : 2147483648 ≤ n) (hhi : n < 4294967296) : i32 n < 0 := by
  unfold i32
  rw [Nat.mod_eq_of_lt hhi]
  split <;> omega

theorem md5Copy_negative (buf : Mem) (offset : Nat) (p : Mem) {copy : Int} (h : copy < 0) :
    md5Copy buf offset p copy = none := by
  rw [md5Copy, if_neg (by omega)]

/-- Nothing is left to do for the loop, and the last copy gets a negative length. -/
theorem md5AppendBlocks_negative (pms : BsonMd5) (p : Mem) {left : Int} (h : left < 0) :
    md5AppendBlocks pms p left = none := by
  have hturns : left.toNat / 64 = 0 := by omega
  simp only [md5AppendBlocks, hturns, md5FullBlocks]
  rw [if_pos (by omega), md5Copy_negative _ _ _ h]
  rfl

theorem md5AppendPartial_negative (pms : BsonMd5) (offset : UInt32) (data : Mem)
    {nbytes : UInt32} (hoffset : offset.toNat < 64)
    (hn : 2147483648 + (64 - offset.toNat) ≤ nbytes.toNat) :
    md5AppendPartial pms offset data nbytes (i32 nbytes.toNat) = none := by
  have hlt := nbytes.toNat_lt
  unfold md5AppendPartial
  by_cases hlong : offset + nbytes > 64
  · simp only [if_pos hlong]
    cases hcopied : md5Copy pms.buf offset.toNat data (64 - (offset.toNat : Int)) with
    | none => rfl
    | some buf =>
      have hfull : ¬ (offset.toNat : Int) + (64 - (offset.toNat : Int)) < 64 := by omega
      have hcast : (64 : Int) - (offset.toNat : Int) = ((64 - offset.toNat : Nat) : Int) := by omega
      simp only [if_neg hfull]
      rw [hcast, md5_left (by omega)]
      exact md5AppendBlocks_negative _ _ (i32_negative (by omega) (by omega))
  · -- The sum has wrapped, and the whole piece would be copied.
    simp only [if_neg hlong, md5Copy_negative _ _ _ (i32_negative (by omega) hlt)]

/-- A longer piece leaves the buffer. -/
theorem bsonMd5Append_none {pms : BsonMd5} {message : Bytes} (h : Md5Holds pms message)
    (data : Mem) {nbytes : UInt32} (hn : md5MaxPiece message.length < nbytes.toNat) :
    bsonMd5Append pms data nbytes = none := by
  have hoffset := md5_offset h
  unfold md5MaxPiece at hn
  have hpos : ¬ nbytes ≤ 0 := by
    rw [UInt32.le_iff_toNat_le]
    intro hzero
    have hnone : nbytes.toNat ≤ 0 := hzero
    omega
  rw [bsonMd5Append, if_neg hpos]
  split
  · next hpartial =>
    have hsome : message.length % 64 ≠ 0 := by
      intro hzero
      rw [hzero] at hoffset
      exact hpartial (UInt32.toNat_inj.mp hoffset)
    exact md5AppendPartial_negative _ _ _ (by omega) (by omega)
  · exact md5AppendBlocks_negative _ _ (i32_negative (by omega) nbytes.toNat_lt)

/-! ## The digest -/

theorem md5Octet_eq (words : List UInt32) (k i : Nat) (hi : i < 4) :
    md5Octet words (4 * k + i) =
      UInt8.ofNat ((words.getD k 0).toNat / 256 ^ i % 256) := by
  have hword : (4 * k + i) >>> 2 = k := by
    rw [Nat.shiftRight_eq_div_pow]
    omega
  have hshift : (4 * k + i) &&& 3 = i := by
    have hand := Nat.and_two_pow_sub_one_eq_mod (4 * k + i) 2
    have hmod : (4 * k + i) % 2 ^ 2 = i := by omega
    exact hand.trans hmod
  rw [md5Octet, hword, hshift]
  apply UInt8.toNat_inj.mp
  interval_cases i <;> simp [UInt32.toNat_shiftRight, Nat.shiftRight_eq_div_pow]

theorem md5Octets_word (words : List UInt32) (k : Nat) :
    (List.range 4).map (fun i => md5Octet words (4 * k + i)) =
      leBytes 4 (words.getD k 0).toNat := by
  have hoctet (i : Nat) (hi : i < 4) := md5Octet_eq words k i hi
  have hrange : List.range 4 = [0, 1, 2, 3] := rfl
  simp only [hrange, List.map_cons, List.map_nil, leBytes, Nat.div_div_eq_div_mul]
  rw [hoctet 0 (by decide), hoctet 1 (by decide), hoctet 2 (by decide), hoctet 3 (by decide)]
  simp

/-- The octets of the words, one word after the other. -/
theorem md5Octets_words (words : List UInt32) (n : Nat) :
    (List.range (4 * n)).map (md5Octet words) =
      (List.range n).flatMap fun k => leBytes 4 (words.getD k 0).toNat := by
  induction n with
  | zero => rfl
  | succ n ih =>
    have hword := md5Octets_word words n
    rw [Nat.mul_succ, List.range_add, List.map_append, ih, List.map_map, List.range_succ (n := n),
      List.flatMap_append, List.flatMap_singleton, ← hword]
    rfl

theorem lengthWord_eq {pms : BsonMd5} {message : Bytes} (h : Md5Holds pms message) :
    (List.range 8).map (md5Octet [pms.count0, pms.count1]) = Md5.lengthWord message.length := by
  have hcount := h.count
  have h0 := pms.count0.toNat_lt
  have hlow : (pms.count0.toNat + 4294967296 * pms.count1.toNat) % 256 ^ 4 =
      pms.count0.toNat := by omega
  have hhigh : (pms.count0.toNat + 4294967296 * pms.count1.toNat) / 256 ^ 4 =
      pms.count1.toNat := by omega
  calc (List.range 8).map (md5Octet [pms.count0, pms.count1])
      = leBytes 4 pms.count0.toNat ++ leBytes 4 pms.count1.toNat := by
        rw [md5Octets_words _ 2]
        rfl
    _ = leBytes (4 + 4) (pms.count0.toNat + 4294967296 * pms.count1.toNat) := by
        rw [leBytes_add, hhigh, ← leBytes_mod 4 (_ + _), hlow]
    _ = Md5.lengthWord message.length := by
        rw [hcount]
        exact leBytes_mod 8 (8 * message.length)

theorem digestOctets_eq (w : Md5Words) :
    (List.range 16).map (md5Octet [w.a, w.b, w.c, w.d]) = Md5.octets w := by
  rw [md5Octets_words _ 4, Md5.octets]
  simp [List.range_succ]

/-- The octets of `pad` that are appended. -/
theorem md5Pad_slice {length : Nat} {n : UInt32} (hn : n.toNat = (119 - length % 64) % 64 + 1) :
    md5Pad.slice 0 n.toNat = Md5.padding length := by
  have hlt : (119 - length % 64) % 64 < 64 := Nat.mod_lt _ (by decide)
  have hheld : Holds md5Pad 0 (0x80 :: List.replicate 63 0) := holds_ofBytes _
  have hall : md5Pad.slice 0 64 = 0x80 :: List.replicate 63 0 := hheld.slice_of_length (by simp)
  rw [hn, ← Mem.take_slice md5Pad 0 64 _ (by omega), hall, List.take_succ_cons,
    List.take_replicate, Nat.min_eq_left (by omega)]
  rfl

theorem bsonMd5Finish_digest {pms : BsonMd5} {message : Bytes} (h : Md5Holds pms message) :
    bsonMd5Finish pms = some (Md5.digest message) := by
  have hoffset := md5_offset h
  have hlt : message.length % 64 < 64 := Nat.mod_lt _ (by decide)
  have hpad : ((((55 : UInt32) - (pms.count0 >>> 3)) &&& 63) + 1).toNat =
      (119 - message.length % 64) % 64 + 1 := by
    rw [and_63] at hoffset
    have hx := (pms.count0 >>> 3).toNat_lt
    rw [UInt32.toNat_add, and_63, UInt32.toNat_sub]
    simp only [UInt32.reduceToNat]
    omega
  obtain ⟨padded, hpadded, hpaddedHolds⟩ := bsonMd5Append_holds h md5Pad
    ((((55 : UInt32) - (pms.count0 >>> 3)) &&& 63) + 1)
    (Nat.le_trans (by omega) (md5MaxPiece_ge _))
  rw [md5Pad_slice hpad] at hpaddedHolds
  obtain ⟨done, hdone, hdoneHolds⟩ := bsonMd5Append_holds hpaddedHolds
    (Mem.ofBytes (Md5.lengthWord message.length)) 8
    (Nat.le_trans (by decide : (8 : UInt32).toNat ≤ 2147483647) (md5MaxPiece_ge _))
  have hlength : (Mem.ofBytes (Md5.lengthWord message.length)).slice 0 (8 : UInt32).toNat =
      Md5.lengthWord message.length :=
    (holds_ofBytes _).slice_of_length (leBytes_length 8 _)
  rw [hlength] at hdoneHolds
  simp only [bsonMd5Finish, lengthWord_eq h, hpadded, hdone, Option.bind_some, Option.map_some,
    digestOctets_eq]
  rw [hdoneHolds.abcd, Md5.digest]

end LibBson.Source
