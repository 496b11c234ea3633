import LibBson.Source.Base64Laws

/-!
# Base 64 inside its buffers

Neither function looks at or changes an octet from `targsize` on: a run over memory whose
octets from there on are others is the same run.
-/

set_option autoImplicit false

namespace LibBson.Source
open LibBson.Library LibBson.Library.Base64

theorem copyPrefix_write {m fresh : Mem} {n o : Nat} {bs : Bytes} (h : o + bs.length ≤ n) :
    (m.copyPrefix fresh n).write o bs = (m.write o bs).copyPrefix fresh n := by
  funext i
  rcases Nat.lt_or_ge i n with hi | hi
  · rw [Mem.copyPrefix_of_lt _ _ _ _ hi]
    unfold Mem.write Mem.copyPrefix
    rw [if_pos hi]
  · rw [Mem.write_after _ _ _ _ (by omega)]
    unfold Mem.copyPrefix
    rw [if_neg (by omega), if_neg (by omega)]

/-! ## `b64_pton_do` -/

section Pton

variable (before : UInt8 → B64Class)

theorem b64DoDigits_copyPrefix (targsize : Nat) (src : Bytes) (state tarindex : Nat)
    (target fresh : Mem) :
    b64DoDigits before targsize state tarindex (target.copyPrefix fresh targsize) src =
      ((b64DoDigits before targsize state tarindex target src).1,
        (b64DoDigits before targsize state tarindex target src).2.copyPrefix fresh targsize) := by
  induction src generalizing state tarindex target with
  | nil => rw [b64DoDigits, b64DoDigits]
  | cons ch src ih =>
    cases hclass : b64Class before ch with
    | space => rw [b64DoDigits_space _ _ _ _ _ hclass, b64DoDigits_space _ _ _ _ _ hclass, ih]
    | «end» => rw [b64DoDigits_end _ _ _ _ _ hclass, b64DoDigits_end _ _ _ _ _ hclass]
    | invalid => rw [b64DoDigits_invalid _ _ _ _ _ hclass, b64DoDigits_invalid _ _ _ _ _ hclass]
    | ofs n =>
      rcases state with _ | _ | _ | state
      all_goals
        simp only [b64DoDigits, hclass]
        split
        · rfl
        · rename_i hroom
          have hlt : tarindex < targsize := by omega
          try rw [Mem.copyPrefix_of_lt _ _ _ _ hlt]
          rw [copyPrefix_write (by simp only [List.length_cons, List.length_nil]; omega), ih]

/-- The octet that the digits have begun is inside the buffer. -/
theorem b64DoDigits_index (targsize : Nat) (src : Bytes) {state tarindex : Nat} {target : Mem}
    (h : state = 0 ∨ tarindex < targsize) {state' tarindex' : Nat} {rest : Bytes}
    (hrun : (b64DoDigits before targsize state tarindex target src).1 =
      some (state', tarindex', rest)) :
    state' = 0 ∨ tarindex' < targsize := by
  induction src generalizing state tarindex target with
  | nil =>
    rw [b64DoDigits] at hrun
    cases hrun
    exact h
  | cons ch src ih =>
    cases hclass : b64Class before ch with
    | space =>
      rw [b64DoDigits_space _ _ _ _ _ hclass] at hrun
      exact ih h hrun
    | «end» =>
      rw [b64DoDigits_end _ _ _ _ _ hclass] at hrun
      cases hrun
      exact h
    | invalid =>
      rw [b64DoDigits_invalid _ _ _ _ _ hclass] at hrun
      cases hrun
    | ofs n =>
      rcases state with _ | _ | _ | state
      all_goals
        simp only [b64DoDigits, hclass] at hrun
        split at hrun
        · cases hrun
        · exact ih (by omega) hrun

theorem b64PtonDo_copyPrefix (src : Bytes) (target fresh : Mem) (targsize : Nat) :
    b64PtonDo before src (target.copyPrefix fresh targsize) targsize =
      ((b64PtonDo before src target targsize).1,
        (b64PtonDo before src target targsize).2.copyPrefix fresh targsize) := by
  have hindex := @b64DoDigits_index before targsize (cText src) 0 0 target (.inl rfl)
  unfold b64PtonDo
  rw [b64DoDigits_copyPrefix]
  rcases hrun : b64DoDigits before targsize 0 0 target (cText src) with ⟨_ | ⟨state, tarindex, rest⟩, run⟩
  · rfl
  · dsimp only
    split
    · rename_i hpadding
      have hread : rest ≠ [] → run.copyPrefix fresh targsize tarindex = run tarindex := by
        intro hne
        rcases hindex (congrArg Prod.fst hrun) with rfl | hlt
        · cases rest with
          | nil => exact absurd rfl hne
          | cons ch rest => cases hpadding
        · exact Mem.copyPrefix_of_lt _ _ _ _ hlt
      by_cases hne : rest = []
      · rw [if_neg fun h => h.1 hne, if_neg fun h => h.1 hne]
      · rw [hread hne]
        split <;> rfl
    · rfl

end Pton

/-! ## `b64_ntop` -/

theorem b64NtopFrom_nil_copyPrefix (targsize : Nat) (target fresh : Mem) (datalength : Nat) :
    b64NtopFrom targsize [] (target.copyPrefix fresh targsize) datalength =
      ((b64NtopFrom targsize [] target datalength).1,
        (b64NtopFrom targsize [] target datalength).2.copyPrefix fresh targsize) := by
  simp only [b64NtopFrom]
  split
  · rfl
  · rw [copyPrefix_write (by rw [List.length_singleton]; omega)]

theorem b64NtopFrom_copyPrefix (targsize : Nat) (src : Bytes) (target fresh : Mem)
    (datalength : Nat) :
    b64NtopFrom targsize src (target.copyPrefix fresh targsize) datalength =
      ((b64NtopFrom targsize src target datalength).1,
        (b64NtopFrom targsize src target datalength).2.copyPrefix fresh targsize) := by
  induction src using b64Ntop.induct generalizing target datalength with
  | case1 => exact b64NtopFrom_nil_copyPrefix targsize target fresh datalength
  | case2 a =>
    rw [b64NtopFrom.eq_2, b64NtopFrom.eq_2]
    split
    · rfl
    · rw [copyPrefix_write (by simp only [List.length_cons, List.length_nil]; omega),
        b64NtopFrom_nil_copyPrefix]
  | case3 a b =>
    rw [b64NtopFrom.eq_3, b64NtopFrom.eq_3]
    split
    · rfl
    · rw [copyPrefix_write (by simp only [List.length_cons, List.length_nil]; omega),
        b64NtopFrom_nil_copyPrefix]
  | case4 a b c src ih =>
    rw [b64NtopFrom, b64NtopFrom]
    split
    · rfl
    · rw [copyPrefix_write (by simp only [List.length_cons, List.length_nil]; omega), ih]

/-- The text and its NUL, where there is room for them. -/
theorem b64NtopFrom_fits {targsize : Nat} {src : Bytes} (target : Mem) {datalength : Nat}
    (room : datalength + (b64Ntop src).length < targsize) :
    b64NtopFrom targsize src target datalength =
      (((datalength + (b64Ntop src).length : Nat) : Int),
        target.write datalength (b64Ntop src ++ [0])) := by
  induction src using b64Ntop.induct generalizing target datalength with
  | case1 =>
    rw [b64Ntop, List.length_nil, Nat.add_zero] at *
    rw [b64NtopFrom, if_neg (by omega), List.nil_append]
  | case2 a =>
    have hlength : (b64Ntop [a]).length = 4 := rfl
    rw [hlength] at room ⊢
    rw [b64NtopFrom.eq_2, if_neg (by omega), b64NtopFrom.eq_1, if_neg (by omega)]
    rw [show datalength + 4 = datalength + (b64Ntop [a]).length from rfl]
    exact Prod.ext rfl (Mem.write_write_append target datalength (b64Ntop [a]) [0])
  | case3 a b =>
    have hlength : (b64Ntop [a, b]).length = 4 := rfl
    rw [hlength] at room ⊢
    rw [b64NtopFrom.eq_3, if_neg (by omega), b64NtopFrom.eq_1, if_neg (by omega)]
    rw [show datalength + 4 = datalength + (b64Ntop [a, b]).length from rfl]
    exact Prod.ext rfl (Mem.write_write_append target datalength (b64Ntop [a, b]) [0])
  | case4 a b c src ih =>
    have hlength : (b64Ntop (a :: b :: c :: src)).length = (b64Ntop src).length + 4 := rfl
    rw [hlength] at room ⊢
    rw [b64NtopFrom, if_neg (by omega), ih _ (by omega)]
    refine Prod.ext ?_ ?_
    · dsimp only
      omega
    · exact Mem.write_write_append target datalength [_, _, _, _] (b64Ntop src ++ [0])

/-- Where there is no room for the NUL, the answer is -1. -/
theorem b64NtopFrom_fails {targsize : Nat} {src : Bytes} (target : Mem) {datalength : Nat}
    (short : targsize ≤ datalength + (b64Ntop src).length) :
    (b64NtopFrom targsize src target datalength).1 = -1 := by
  induction src using b64Ntop.induct generalizing target datalength with
  | case1 =>
    have hfull : datalength ≥ targsize := short
    rw [b64NtopFrom, if_pos hfull]
  | case2 a =>
    have hlength : (b64Ntop [a]).length = 4 := rfl
    rw [hlength] at short
    rw [b64NtopFrom.eq_2]
    split
    · rfl
    · rw [b64NtopFrom.eq_1, if_pos short]
  | case3 a b =>
    have hlength : (b64Ntop [a, b]).length = 4 := rfl
    rw [hlength] at short
    rw [b64NtopFrom.eq_3]
    split
    · rfl
    · rw [b64NtopFrom.eq_1, if_pos short]
  | case4 a b c src ih =>
    have hlength : (b64Ntop (a :: b :: c :: src)).length = (b64Ntop src).length + 4 := rfl
    rw [hlength] at short
    rw [b64NtopFrom]
    split
    · rfl
    · exact ih _ (by omega)

end LibBson.Source
