import LibBson.Source.AppendSizes

/-!
# Appends stay inside the capacity they ask for

For every function of the append API, every argument and every document,
inline or on the heap, at any depth of open children. Source: bson.c:115-222,
310-408, 433-505, 752-1958.
-/

set_option autoImplicit false

namespace LibBson.Guarantees
open LibBson.Library LibBson.Source

/-- Whichever document the append is made on, after the growth its declared total
asks for it stores nothing past the capacity and leaves the octets that the NULs
of the open parents need. -/
def StaysInCapacity (fresh : Nat → Mem) (args : AppendArgs) : Prop :=
  ∀ c c', c.Fits 0 → bsonGrow fresh args.nBytes c = some c' →
    (∀ s ∈ appendStores c'.bson args, s.1 + s.2.length ≤ c'.capacity) ∧
      c'.bson.offset + (c'.bson.len + args.size) + c'.bson.depth ≤ c'.capacity

/-- A total that counts every octet handed over keeps the stores in bounds. -/
theorem staysInCapacity_of_size (fresh : Nat → Mem) (args : AppendArgs)
    (hsize : args.size = args.nBytes) (hlt : args.nBytes < 4294967296) :
    StaysInCapacity fresh args := by
  intro c c' fits hgrow
  obtain ⟨hbson, -, hroom, -, -⟩ := bsonGrow_spec hgrow fits (by omega) hlt
  have hlen := fits.len
  rw [hbson]
  refine ⟨fun s hs => ?_, by omega⟩
  simp only [appendStores, List.mem_append, List.mem_cons, List.not_mem_nil, or_false] at hs
  rcases hs with hs | rfl | rfl
  · obtain ⟨-, hend⟩ := mem_appendPairs hs
    have hsum : pairsLength args.used = args.size := rfl
    omega
  · simp only [leBytes_length]
    omega
  · simp only [List.length_singleton]
    omega

/-- The pairs of an append add up to its declared total, and its stores stay in
the capacity that total ensures, exactly when it does not append a regex and its
element is smaller than `2 ^ 32` octets. -/
theorem append_in_capacity_iff (fresh : Nat → Mem) (s : Step) (args : AppendArgs)
    (h : stepArgs s = some args) :
    (args.size = args.nBytes ∧ StaysInCapacity fresh args) ↔
      appendsRegex s = false ∧ stepSize s < 4294967296 := by
  obtain ⟨hsize, hexact, hregex⟩ := stepArgs_spec h
  constructor
  · rintro ⟨heq, -⟩
    cases hr : appendsRegex s with
    | true =>
      obtain ⟨hpos, hn⟩ := hregex hr
      unfold u32 at hn
      omega
    | false =>
      have hn := hexact hr
      unfold u32 at hn
      exact ⟨rfl, by omega⟩
  · rintro ⟨hr, hlt⟩
    have hn := hexact hr
    rw [u32_of_lt hlt] at hn
    have heq : args.size = args.nBytes := by omega
    exact ⟨heq, staysInCapacity_of_size fresh args heq (by omega)⟩

theorem append_in_capacity_iff_null :
    ((bsonAppendNull [97] 1).size = (bsonAppendNull [97] 1).nBytes ∧
        StaysInCapacity (fun _ _ => 0) (bsonAppendNull [97] 1)) ↔
      appendsRegex (.append (.field [97] 1 .null)) = false ∧
        stepSize (.append (.field [97] 1 .null)) < 4294967296 :=
  append_in_capacity_iff (fun _ _ => 0) (.append (.field [97] 1 .null)) _ rfl

/-- `bson_append_regex (bson, "", 0, "", "")` -/
def emptyRegex : Step := .append (.field [] 0 (.regex (some []) (some [])))

/-- The empty regex declares 3 octets and hands over 4: appended to an inline
document of 117 octets it stores its NUL behind the 120 octets of the buffer. -/
theorem emptyRegex_past_capacity :
    ∃ args, stepArgs emptyRegex = some args ∧ args.nBytes = 3 ∧ args.size = 4 ∧
      ¬ StaysInCapacity (fun _ _ => 0) args := by
  refine ⟨_, rfl, by decide, by decide, fun h => ?_⟩
  have fits : (Chain.inline (fun _ => 0) 117).Fits 0 :=
    ⟨by decide, by decide, by decide⟩
  obtain ⟨hstores, -⟩ := h (.inline (fun _ => 0) 117) (.inline (fun _ => 0) 117) fits rfl
  have hnul := hstores (120, [0]) (by decide)
  exact absurd hnul (by decide)

end LibBson.Guarantees
