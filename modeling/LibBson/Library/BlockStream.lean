import Mathlib.Data.Nat.Notation
import Mathlib.Data.List.Basic

/-!
# Absorbing a stream by whole blocks

`absorb` feeds the whole blocks of a list to `process`, `pending` is what is left
behind them. Absorbing more is absorbing it behind what was left, so that the
result of a stream does not depend on the pieces it came in.
-/

set_option autoImplicit false

namespace LibBson.Library.BlockStream

variable {σ α : Type} (process : σ → List α → σ) (n : Nat)

/-- The state behind `k` blocks. -/
def absorbBlocks : Nat → σ → List α → σ
  | 0, s, _ => s
  | k + 1, s, xs => absorbBlocks k (process s (xs.take n)) (xs.drop n)

/-- The state behind the whole blocks of `xs`. -/
def absorb (s : σ) (xs : List α) : σ := absorbBlocks process n (xs.length / n) s xs

/-- What is left behind the whole blocks of `xs`. -/
def pending (xs : List α) : List α := xs.drop (xs.length / n * n)

variable {n}

theorem pending_length (xs : List α) : (pending n xs).length = xs.length % n := by
  rw [pending, List.length_drop, Nat.mod_eq_sub_div_mul]

theorem absorb_short (s : σ) {xs : List α} (h : xs.length < n) : absorb process n s xs = s := by
  rw [absorb, Nat.div_eq_of_lt h]
  rfl

theorem pending_short {xs : List α} (h : xs.length < n) : pending n xs = xs := by
  rw [pending, Nat.div_eq_of_lt h, Nat.zero_mul, List.drop_zero]

/-- A block in front is processed first. -/
theorem absorb_block (hn : 0 < n) (s : σ) {block : List α} (h : block.length = n) (xs : List α) :
    absorb process n s (block ++ xs) = absorb process n (process s block) xs := by
  have hcount : (block ++ xs).length / n = xs.length / n + 1 := by
    rw [List.length_append, h, Nat.add_comm, Nat.add_div_right _ hn]
  rw [absorb, absorb, hcount, absorbBlocks, List.take_left' h, List.drop_left' h]

theorem pending_block (hn : 0 < n) {block : List α} (h : block.length = n) (xs : List α) :
    pending n (block ++ xs) = pending n xs := by
  have hcount : (block ++ xs).length / n = xs.length / n + 1 := by
    rw [List.length_append, h, Nat.add_comm, Nat.add_div_right _ hn]
  rw [pending, pending, hcount, Nat.add_mul, Nat.one_mul, Nat.add_comm, ← List.drop_drop,
    List.drop_left' h]

/-- A list is shorter than a block, or a block in front of a list. -/
theorem block_induction {motive : List α → Prop} (hn : 0 < n)
    (short : ∀ xs, xs.length < n → motive xs)
    (step : ∀ block rest, block.length = n → motive rest → motive (block ++ rest))
    (xs : List α) : motive xs := by
  induction hlength : xs.length using Nat.strongRecOn generalizing xs with
  | _ length ih =>
    rcases Nat.lt_or_ge xs.length n with hshort | hlong
    · exact short xs hshort
    · have hrest : (xs.drop n).length < length := by
        rw [List.length_drop]
        omega
      have hstep := step (xs.take n) (xs.drop n) (List.length_take_of_le hlong)
        (ih _ hrest (xs.drop n) rfl)
      rwa [List.take_append_drop] at hstep

/-- More items are absorbed behind what was left of the first ones. -/
theorem absorb_append (hn : 0 < n) (s : σ) (xs ys : List α) :
    absorb process n s (xs ++ ys) =
      absorb process n (absorb process n s xs) (pending n xs ++ ys) := by
  induction xs using block_induction hn generalizing s with
  | short xs hshort => rw [absorb_short process s hshort, pending_short hshort]
  | step block rest hblock ih =>
    rw [List.append_assoc, absorb_block process hn s hblock, absorb_block process hn s hblock,
      pending_block hn hblock, ih]

theorem pending_append (hn : 0 < n) (xs ys : List α) :
    pending n (xs ++ ys) = pending n (pending n xs ++ ys) := by
  induction xs using block_induction hn with
  | short xs hshort => rw [pending_short hshort]
  | step block rest hblock ih =>
    rw [List.append_assoc, pending_block hn hblock, pending_block hn hblock, ih]

end LibBson.Library.BlockStream
