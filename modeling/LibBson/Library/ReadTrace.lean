import LibBson.Library.LittleEndian

/-!
# Computations that read memory and log where

`Read α` is a computation over a byte memory together with the offsets it has
read, in order. The value of a computation and its log come from one
definition, so a statement about the log is a statement about the computation
that produced the value.
-/

set_option autoImplicit false

namespace LibBson.Library

def Read (α : Type) : Type := Mem → α × List Nat

namespace Read

variable {α β : Type}

def val (r : Read α) (m : Mem) : α := (r m).1

def trace (r : Read α) (m : Mem) : List Nat := (r m).2

instance : Monad Read where
  pure a := fun _ => (a, [])
  bind r f := fun m => ((f (r.val m)).val m, r.trace m ++ (f (r.val m)).trace m)

def byte (o : Nat) : Read UInt8 := fun m => (m o, [o])

/-- `memcpy` of an `n`-octet little-endian word into a local. -/
def le (o n : Nat) : Read Nat := fun m => (m.le o n, (List.range n).map (o + ·))

/-- `memcpy` of `n` octets. -/
def slice (o n : Nat) : Read Bytes := fun m => (m.slice o n, (List.range n).map (o + ·))

/-- The pointer itself: keeping it reads nothing. -/
def pointer : Read Mem := fun m => (m, [])

/-- `for (; o < o + n; o++) if (!data[o])`: the first NUL among `n` octets. -/
def scanNul : Nat → Nat → Read (Option Nat)
  | 0, _ => pure none
  | n + 1, o => do
    let b ← byte o
    if b = 0 then pure (some o) else scanNul n (o + 1)

/-! The laws below are proved by `simp` and not by `rfl`: as definitional laws
they would rewrite the condition of an `if` but not its decision procedure. -/

@[simp] theorem val_pure (a : α) (m : Mem) : (pure a : Read α).val m = a := by
  simp [pure, val]

@[simp] theorem trace_pure (a : α) (m : Mem) : (pure a : Read α).trace m = [] := by
  simp [pure, trace]

@[simp] theorem val_bind (r : Read α) (f : α → Read β) (m : Mem) :
    (r >>= f).val m = (f (r.val m)).val m := by
  simp [bind, val]

@[simp] theorem trace_bind (r : Read α) (f : α → Read β) (m : Mem) :
    (r >>= f).trace m = r.trace m ++ (f (r.val m)).trace m := by
  simp [bind, trace]

@[simp] theorem val_byte (o : Nat) (m : Mem) : (byte o).val m = m o := by
  simp [byte, val]

@[simp] theorem trace_byte (o : Nat) (m : Mem) : (byte o).trace m = [o] := by
  simp [byte, trace]

@[simp] theorem val_le (o n : Nat) (m : Mem) : (le o n).val m = m.le o n := by
  simp [le, val]

@[simp] theorem trace_le (o n : Nat) (m : Mem) :
    (le o n).trace m = (List.range n).map (o + ·) := by
  simp [le, trace]

@[simp] theorem val_slice (o n : Nat) (m : Mem) : (slice o n).val m = m.slice o n := by
  simp [slice, val]

@[simp] theorem val_pointer (m : Mem) : pointer.val m = m := by
  simp [pointer, val]

theorem val_ite (c : Prop) [Decidable c] (a b : Read α) (m : Mem) :
    (if c then a else b).val m = if c then a.val m else b.val m := by
  split <;> rfl

/-- Every octet the computation reads lies below offset `n`. -/
def Below (r : Read α) (m : Mem) (n : Nat) : Prop := ∀ i ∈ r.trace m, i < n

theorem below_pure (a : α) (m : Mem) (n : Nat) : (pure a : Read α).Below m n := by
  simp [Below]

theorem below_bind (r : Read α) (f : α → Read β) (m : Mem) (n : Nat) :
    (r >>= f).Below m n ↔ r.Below m n ∧ (f (r.val m)).Below m n := by
  simp [Below, or_imp, forall_and]

@[simp] theorem below_byte (o : Nat) (m : Mem) (n : Nat) : (byte o).Below m n ↔ o < n := by
  simp [Below]

theorem below_ite (c : Prop) [Decidable c] (a b : Read α) (m : Mem) (n : Nat) :
    (if c then a else b).Below m n ↔ (c → a.Below m n) ∧ (¬ c → b.Below m n) := by
  split <;> simp [*]

theorem below_le (o k : Nat) (m : Mem) (n : Nat) (hk : 0 < k) :
    (le o k).Below m n ↔ o + k ≤ n := by
  simp only [Below, trace_le, List.mem_map, List.mem_range]
  constructor
  · intro h
    have hlast := h (o + (k - 1)) ⟨k - 1, by omega, rfl⟩
    omega
  · rintro h _ ⟨i, hi, rfl⟩
    omega

theorem below_slice (o k : Nat) (m : Mem) (n : Nat) (h : o + k ≤ n) : (slice o k).Below m n := by
  intro i hi
  obtain ⟨j, hj, rfl⟩ := List.mem_map.mp hi
  have := List.mem_range.mp hj
  omega

theorem below_pointer (m : Mem) (n : Nat) : pointer.Below m n := by
  intro i hi
  cases hi

/-- A scan ends at the first NUL of its window. -/
theorem scanNul_some {n o j : Nat} {m : Mem} (h : (scanNul n o).val m = some j) :
    o ≤ j ∧ j < o + n ∧ m j = 0 ∧ ∀ i, o ≤ i → i < j → m i ≠ 0 := by
  induction n generalizing o with
  | zero => simp [scanNul] at h
  | succ n ih =>
    simp only [scanNul, val_bind, val_byte, val_ite, val_pure] at h
    split at h
    · next hz =>
      cases h
      exact ⟨Nat.le_refl _, by omega, hz, fun i h1 h2 => absurd h2 (by omega)⟩
    · next hz =>
      obtain ⟨h1, h2, h3, h4⟩ := ih h
      refine ⟨by omega, by omega, h3, fun i hi hij => ?_⟩
      by_cases heq : i = o
      · subst heq
        exact hz
      · exact h4 i (by omega) hij

theorem scanNul_none {n o : Nat} {m : Mem} (h : (scanNul n o).val m = none) :
    ∀ i, o ≤ i → i < o + n → m i ≠ 0 := by
  induction n generalizing o with
  | zero => intro i h1 h2; omega
  | succ n ih =>
    simp only [scanNul, val_bind, val_byte, val_ite, val_pure] at h
    split at h
    · cases h
    · next hz =>
      intro i h1 h2
      by_cases heq : i = o
      · subst heq
        exact hz
      · exact ih h i (by omega) (by omega)

/-- The scan finds a given first NUL. -/
theorem scanNul_eq_some {n o j : Nat} {m : Mem} (ho : o ≤ j) (hj : j < o + n) (hz : m j = 0)
    (hn : ∀ i, o ≤ i → i < j → m i ≠ 0) : (scanNul n o).val m = some j := by
  cases h : (scanNul n o).val m with
  | none => exact absurd hz (scanNul_none h j ho hj)
  | some k =>
    obtain ⟨h1, h2, h3, h4⟩ := scanNul_some h
    have hk : ¬ k < j := fun hlt => hn k h1 hlt h3
    have hjk : ¬ j < k := fun hlt => h4 j ho hlt hz
    congr 1
    omega

theorem below_scanNul (n o : Nat) (m : Mem) : (scanNul n o).Below m (o + n) := by
  induction n generalizing o with
  | zero => exact below_pure _ _ _
  | succ n ih =>
    rw [scanNul, below_bind]
    refine ⟨by simp, ?_⟩
    rw [val_byte]
    split
    · exact below_pure _ _ _
    · have h := ih (o + 1)
      rwa [show o + 1 + n = o + (n + 1) by omega] at h

theorem Below.mono {r : Read α} {m : Mem} {n k : Nat} (h : r.Below m n) (hk : n ≤ k) :
    r.Below m k := fun i hi => Nat.lt_of_lt_of_le (h i hi) hk

end Read

end LibBson.Library
