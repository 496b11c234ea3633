import LibBson.Source.Construct

/-!
# What the constructors make of a caller's memory

For every buffer, length, capacity and header word.
Source: bson.c:1970-2144.
-/

set_option autoImplicit false

namespace LibBson.Guarantees
open LibBson.Library LibBson.Source LibBson.Spec

/-- A buffer handed to `bson_new_from_buffer` is refused for its capacity, or the
length word in it stays within the capacity, or is 1. -/
def HeaderFits : ConstructCall → Prop
  | .newFromBuffer (some buf) bufLen =>
    bufLen < 5 ∨ bufLen > int32Max ∨ buf.le 0 4 = 1 ∨ 5 ≤ buf.le 0 4 ∧ buf.le 0 4 ≤ bufLen
  | _ => True

theorem newFromBuffer_safe_iff (fresh : Nat → Mem) (buf : Mem) (bufLen : Nat) :
    (ConstructCall.newFromBuffer (some buf) bufLen).Safe fresh ↔
      HeaderFits (.newFromBuffer (some buf) bufLen) := by
  unfold ConstructCall.Safe ConstructCall.result ConstructCall.run ConstructCall.capacity
    HeaderFits bsonNewFromBuffer
  by_cases hcap : bufLen < 5 ∨ bufLen > int32Max
  · simp only [if_pos hcap, Read.val_pure]
    have hleft : bufLen < 5 ∨ bufLen > int32Max ∨
        buf.le 0 4 = 1 ∨ 5 ≤ buf.le 0 4 ∧ buf.le 0 4 ≤ bufLen := by
      rw [← or_assoc]
      exact Or.inl hcap
    exact ⟨fun _ => hleft, fun _ => ⟨trivial, Read.below_pure _ _ _⟩⟩
  · have htail := bsonNewFromBufferTail_sound_iff buf bufLen rfl (by omega) (by omega)
    simp only [if_neg hcap, Read.val_bind, Read.val_le, Read.below_bind,
      Read.below_le _ _ _ _ (by decide : 0 < 4)]
    rw [and_left_comm, htail]
    omega

/-- A document that was made safely holds its octets as every append expects it. -/
theorem constructed_holding (fresh : Nat → Mem) (call : ConstructCall) (bson : Chain)
    (readOnly : Bool) (hsafe : call.Safe fresh) (h : call.result fresh = .made bson readOnly) :
    Holding bson (bson.buf.slice 4 (bson.bson.len - 5)) ∧ bson.parents = [] := by
  have hsound := hsafe.1
  rw [h] at hsound
  exact ⟨hsound.made.holding, hsound.made.parents⟩

/-- A constructor fails or makes a represented document without reading outside
the memory it is given, exactly when `bson_new_from_buffer` meets no length word
that disagrees with its capacity. -/
theorem constructor_safe_iff (fresh : Nat → Mem) (call : ConstructCall) :
    call.Safe fresh ↔ HeaderFits call := by
  cases call with
  | initStatic data length =>
    exact iff_of_true ⟨bsonInitStaticChain_sound data length, bsonInitStaticChain_below data length⟩
      trivial
  | sizedNew size =>
    exact iff_of_true ⟨bsonSizedNew_sound fresh size, Read.below_pure _ _ _⟩ trivial
  | newFromData data length =>
    exact iff_of_true
      ⟨bsonNewFromData_sound fresh data length, bsonNewFromData_below fresh data length⟩ trivial
  | newFromBuffer buf bufLen =>
    cases buf with
    | some buf => exact newFromBuffer_safe_iff fresh buf bufLen
    | none =>
      have hword : (((fresh 5).write 0 (leBytes 4 5)).write 4 [0]).le 0 4 = 5 := by
        have hkept : Holds (((fresh 5).write 0 (leBytes 4 5)).write 4 [0]) 0 (leBytes 4 5) :=
          Mem.holds_write_frame (Mem.holds_write_self _ _ _) (Or.inl (by simp))
        exact hkept.le_eq
      refine iff_of_true ?_ trivial
      exact (bsonNewFromBufferTail_sound_iff _ 5 hword (by decide) (by decide)).mpr (by decide)

/-- The length word of a 5-octet buffer says 2: the octet at 1 is zero and a
document of length 2 is made. With a length word of 6 the octet at 5 is read. -/
theorem newFromBuffer_unchecked :
    ¬ (ConstructCall.newFromBuffer (some (Mem.ofBytes [2, 0, 0, 0, 0])) 5).Safe
        (fun _ => Mem.ofBytes []) ∧
      ¬ (ConstructCall.newFromBuffer (some (Mem.ofBytes [6, 0, 0, 0, 0])) 5).Safe
        (fun _ => Mem.ofBytes []) := by
  constructor
  · intro h
    exact absurd ((newFromBuffer_safe_iff _ _ _).mp h) (by unfold HeaderFits; decide)
  · intro h
    exact absurd ((newFromBuffer_safe_iff _ _ _).mp h) (by unfold HeaderFits; decide)

end LibBson.Guarantees
