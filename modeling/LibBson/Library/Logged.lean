import Mathlib.Data.List.Basic

/-!
# Computations that log the accesses to a text and to an array

The value and the two logs come from one definition, so that a bound on the
indices is about the computation that made the value.
-/

set_option autoImplicit false

namespace LibBson.Library

structure Logged (α : Type) where
  val : α
  text : List Nat
  array : List Nat

namespace Logged

variable {α β : Type}

instance : Monad Logged where
  pure a := ⟨a, [], []⟩
  bind r f := ⟨(f r.val).val, r.text ++ (f r.val).text, r.array ++ (f r.val).array⟩

/-- An access to the octet `i` of the text. -/
def char (i : Nat) : Logged Unit := ⟨(), [i], []⟩

def chars (is : List Nat) : Logged Unit := ⟨(), is, []⟩

/-- An access to the entry `i` of the array. -/
def slot (i : Nat) : Logged Unit := ⟨(), [], [i]⟩

/-- An access that is made under a condition. -/
def onlyIf (c : Prop) [Decidable c] (r : Logged Unit) : Logged Unit := if c then r else pure ()

@[simp] theorem val_pure (a : α) : (pure a : Logged α).val = a := by simp [pure]

@[simp] theorem val_bind (r : Logged α) (f : α → Logged β) :
    (r >>= f).val = (f r.val).val := by simp [bind]

theorem val_ite (c : Prop) [Decidable c] (a b : Logged α) :
    (if c then a else b).val = if c then a.val else b.val := by
  split <;> rfl

/-- All accesses to the text are below `n`, all to the array below `k`. -/
def TextBelow (r : Logged α) (n : Nat) : Prop := ∀ i ∈ r.text, i < n

def ArrayBelow (r : Logged α) (k : Nat) : Prop := ∀ i ∈ r.array, i < k

@[simp] theorem textBelow_pure (a : α) (n : Nat) : (pure a : Logged α).TextBelow n := by
  simp [TextBelow, pure]

@[simp] theorem textBelow_bind (r : Logged α) (f : α → Logged β) (n : Nat) :
    (r >>= f).TextBelow n ↔ r.TextBelow n ∧ (f r.val).TextBelow n := by
  simp [TextBelow, bind, or_imp, forall_and]

@[simp] theorem textBelow_char (i n : Nat) : (char i).TextBelow n ↔ i < n := by
  simp [TextBelow, char]

@[simp] theorem textBelow_chars (is : List Nat) (n : Nat) :
    (chars is).TextBelow n ↔ ∀ i ∈ is, i < n := by
  simp [TextBelow, chars]

@[simp] theorem textBelow_slot (i n : Nat) : (slot i).TextBelow n := by
  simp [TextBelow, slot]

theorem textBelow_ite (c : Prop) [Decidable c] (a b : Logged α) (n : Nat) :
    (if c then a else b).TextBelow n ↔ (c → a.TextBelow n) ∧ (¬ c → b.TextBelow n) := by
  split <;> simp [*]

@[simp] theorem arrayBelow_pure (a : α) (k : Nat) : (pure a : Logged α).ArrayBelow k := by
  simp [ArrayBelow, pure]

@[simp] theorem arrayBelow_bind (r : Logged α) (f : α → Logged β) (k : Nat) :
    (r >>= f).ArrayBelow k ↔ r.ArrayBelow k ∧ (f r.val).ArrayBelow k := by
  simp [ArrayBelow, bind, or_imp, forall_and]

@[simp] theorem arrayBelow_char (i k : Nat) : (char i).ArrayBelow k := by
  simp [ArrayBelow, char]

@[simp] theorem arrayBelow_chars (is : List Nat) (k : Nat) : (chars is).ArrayBelow k := by
  simp [ArrayBelow, chars]

@[simp] theorem arrayBelow_slot (i k : Nat) : (slot i).ArrayBelow k ↔ i < k := by
  simp [ArrayBelow, slot]

theorem arrayBelow_ite (c : Prop) [Decidable c] (a b : Logged α) (k : Nat) :
    (if c then a else b).ArrayBelow k ↔ (c → a.ArrayBelow k) ∧ (¬ c → b.ArrayBelow k) := by
  split <;> simp [*]

@[simp] theorem textBelow_onlyIf (c : Prop) [Decidable c] (r : Logged Unit) (n : Nat) :
    (onlyIf c r).TextBelow n ↔ (c → r.TextBelow n) := by
  simp [onlyIf, textBelow_ite]

@[simp] theorem arrayBelow_onlyIf (c : Prop) [Decidable c] (r : Logged Unit) (k : Nat) :
    (onlyIf c r).ArrayBelow k ↔ (c → r.ArrayBelow k) := by
  simp [onlyIf, arrayBelow_ite]

end Logged

end LibBson.Library
