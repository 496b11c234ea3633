import LibBson.Source.AppendExact

/-!
# How far appends can grow a document

For every document that can be reallocated, inline or on the heap, at any depth of open
children, and every call that reaches `_bson_append`. Source: bson.c:115-222, 354-408,
433-505.
-/

set_option autoImplicit false

namespace LibBson.Guarantees
open LibBson.Library LibBson.Source

/-- The document may be appended to and its storage can be reallocated. -/
structure Writable (c : Chain) : Prop where
  fits : c.Fits 1
  len : c.bson.len ≤ bsonMaxSize
  growable : c.growable = true

/-- The octets needed in the buffer once `n` more are appended. -/
def needed (c : Chain) (n : Nat) : Nat := c.bson.offset + c.bson.len + n + c.bson.depth

/-- The call succeeds as long as what is needed fits a signed 32-bit length, and it
returns false only if the document would not. -/
structure CompleteGrowth (fresh : Nat → Mem) (c : Chain) (s : Step) : Prop where
  succeeds : needed c (trueSize s) ≤ bsonMaxSize → ∃ c', bsonStep fresh c s = .ok c'
  overflows : ∀ c', bsonStep fresh c s = .failed c' → bsonMaxSize < c.bson.len + trueSize s

/-- The call returns false exactly where `refused` holds. -/
def ReturnsUnless (refused : Prop) (out : Outcome) : Prop :=
  (refused → ∃ c', out = .failed c') ∧ (¬ refused → ∃ c', out = .ok c')

section Calls

variable (fresh : Nat → Mem) {c : Chain} {s : Step} {args : AppendArgs}

/-- Growth is refused above `2 ^ 30` octets, which are rounded up past `INT32_MAX`. -/
theorem Writable.refuses_iff (hc : Writable c) (n : Nat) :
    c.Refuses n ↔ bsonMaxSize < c.bson.len + n ∨
      c.capacity < needed c n ∧ 1073741824 < needed c n := by
  simp [Chain.Refuses, Chain.Full, hc.growable, needed]

/-- The call begins a child, and fails the assertion that an inline document has no more than
its 120 octets: an append of a regex can leave it one more. -/
def AssertsInline (c : Chain) : Step → Prop
  | .documentBegin .. | .arrayBegin .. => c.isInline = true ∧ 120 < c.bson.len
  | _ => False

instance (c : Chain) : (s : Step) → Decidable (AssertsInline c s)
  | .documentBegin .. | .arrayBegin .. => inferInstanceAs (Decidable (_ ∧ _))
  | .append _ | .end => inferInstanceAs (Decidable False)

theorem bsonAppendBegin_returnsUnless {t : BsonType} {key : Bytes} {keyLength : Int}
    (hc : Writable c) (hsmall : ¬ (c.isInline = true ∧ 120 < c.bson.len)) :
    ReturnsUnless (c.Refuses (bsonAppendBsonBegin t key keyLength).nBytes)
      (bsonAppendBegin fresh t key keyLength c) :=
  bsonAppendBegin_answers fresh hc.fits hc.len fun hin =>
    Nat.le_of_not_lt fun hlong => hsmall ⟨hin, hlong⟩

theorem bsonAppendBegin_asserts {t : BsonType} {key : Bytes} {keyLength : Int}
    (h : c.isInline = true ∧ 120 < c.bson.len) :
    bsonAppendBegin fresh t key keyLength c = .aborted := by
  rw [bsonAppendBegin_eq, if_pos h.1, if_pos h.2]

/-- Every other call that reaches `_bson_append` returns false exactly where that refuses. -/
theorem bsonStep_returnsUnless (hc : Writable c) (hs : stepArgs s = some args)
    (hsmall : ¬ AssertsInline c s) :
    ReturnsUnless (c.Refuses args.nBytes) (bsonStep fresh c s) := by
  have hsize := stepArgs_nBytes_lt hs
  cases s with
  | append call =>
    cases hreq : call.request with
    | append args' =>
      simp only [stepArgs, hreq, Option.some_inj] at hs
      subst hs
      rw [bsonStep, bsonAppendCall, hreq]
      constructor
      · intro hr
        exact ⟨c, bsonAppendInternal_refused fresh hc.fits hc.len hsize hr⟩
      · intro hr
        obtain ⟨c', hok, -⟩ := bsonAppendInternal_accepted fresh hc.fits hc.len hsize hr
        exact ⟨c', hok⟩
    | done ret => simp [stepArgs, hreq] at hs
  | documentBegin key keyLength =>
    obtain rfl := Option.some.inj hs
    exact bsonAppendBegin_returnsUnless fresh hc hsmall
  | arrayBegin key keyLength =>
    obtain rfl := Option.some.inj hs
    exact bsonAppendBegin_returnsUnless fresh hc hsmall
  | «end» => cases hs

/-- The document would be too long, or what is needed is there or fits `2 ^ 30` octets and no
assertion fails. -/
def Grows (c : Chain) (s : Step) : Prop :=
  bsonMaxSize < c.bson.len + trueSize s ∨
    ¬ AssertsInline c s ∧
      (needed c (trueDeclared s) ≤ c.capacity ∨ needed c (trueDeclared s) ≤ 1073741824)

instance (c : Chain) (s : Step) : Decidable (Grows c s) :=
  inferInstanceAs (Decidable (_ ∨ ¬ _ ∧ (_ ∨ _)))

/-- A call that fails the assertion is complete only if the document would be too long. -/
theorem complete_asserts (h : AssertsInline c s) (fresh : Nat → Mem) :
    CompleteGrowth fresh c s ↔ bsonMaxSize < c.bson.len + trueSize s := by
  have haborted : bsonStep fresh c s = .aborted ∧ c.isInline = true := by
    cases s with
    | append call => exact h.elim
    | «end» => exact h.elim
    | documentBegin key keyLength => exact ⟨bsonAppendBegin_asserts fresh h, h.1⟩
    | arrayBegin key keyLength => exact ⟨bsonAppendBegin_asserts fresh h, h.1⟩
  obtain ⟨hstep, hin⟩ := haborted
  have hneeded : needed c (trueSize s) = c.bson.len + trueSize s := by
    cases c with
    | inline data len =>
      have hsum : 0 + len + trueSize s + 0 = len + trueSize s := by omega
      exact hsum
    | alloc buf buflen realloc bson parents => cases hin
  constructor
  · intro hcomplete
    by_contra hshort
    obtain ⟨c', hok⟩ := hcomplete.succeeds (by omega)
    rw [hstep] at hok
    cases hok
  · intro hlong
    refine ⟨fun hfits => absurd hfits (by omega), fun c' hfailed => ?_⟩
    rw [hstep] at hfailed
    cases hfailed

end Calls

/-- An append succeeds up to the documented limit exactly if the document would be too
long, or it begins no child of an overfull inline document and the buffer is large enough
already or need not outgrow `2 ^ 30` octets. -/
theorem growth_complete_iff (fresh : Nat → Mem) (c : Chain) (s : Step) (args : AppendArgs)
    (hc : Writable c) (hs : stepArgs s = some args) : CompleteGrowth fresh c s ↔ Grows c s := by
  by_cases hassert : AssertsInline c s
  · rw [complete_asserts hassert fresh, Grows]
    exact ⟨Or.inl, fun h => h.resolve_right fun h => h.1 hassert⟩
  obtain ⟨hfails, hsucceeds⟩ := bsonStep_returnsUnless fresh hc hs hassert
  have hle : trueDeclared s ≤ trueSize s := by
    unfold trueDeclared
    split <;> omega
  unfold Grows
  by_cases hlong : bsonMaxSize < c.bson.len + trueSize s
  · refine iff_of_true ⟨fun hfits => ?_, fun c' hfailed => hlong⟩ (Or.inl hlong)
    unfold needed at hfits
    omega
  · have hlen := hc.len
    have hlt : trueDeclared s < 4294967296 := by
      unfold bsonMaxSize at hlong hlen
      omega
    obtain ⟨hdeclared, -⟩ := stepArgs_declared hs hlt
    rw [hdeclared] at hfails hsucceeds
    have hrefuses := hc.refuses_iff (trueDeclared s)
    constructor
    · intro h
      refine Or.inr ⟨hassert, ?_⟩
      by_contra hfull
      obtain ⟨c', hfailed⟩ := hfails (hrefuses.mpr (by omega))
      exact hlong (h.overflows c' hfailed)
    · intro h
      obtain ⟨-, hroom⟩ := h.resolve_left hlong
      have hnot : ¬ c.Refuses (trueDeclared s) := by
        rw [hrefuses]
        omega
      obtain ⟨c', hok⟩ := hsucceeds hnot
      refine ⟨fun _ => ⟨c', hok⟩, fun c'' hfailed => ?_⟩
      rw [hok] at hfailed
      cases hfailed

theorem start_writable (data : Mem) : Writable (bsonInit data) :=
  ⟨⟨(by decide : 5 ≤ 5), (by decide : 0 + 5 + 0 ≤ 120 + 1),
    (by decide : 120 < 4611686018427387904)⟩, (by decide : 5 ≤ bsonMaxSize), rfl⟩

/-- `bson_append_binary (b, "", 0, BSON_SUBTYPE_BINARY, data, 1 << 30)` -/
def oneGiBElement : Step := .append (.field [] 0 (.binary 0 [] 1073741824))

theorem growth_complete_iff_oneGiB :
    CompleteGrowth (fun _ _ => 0) (bsonInit fun _ => 0) oneGiBElement ↔
      Grows (bsonInit fun _ => 0) oneGiBElement :=
  growth_complete_iff (fun _ _ => 0) (bsonInit fun _ => 0) oneGiBElement _
    (start_writable fun _ => 0) rfl

/-- A binary of 1 GiB is refused, although half the limit is left. -/
theorem oneGiB_refused :
    needed (bsonInit fun _ => 0) (trueSize oneGiBElement) ≤ bsonMaxSize ∧
      ¬ CompleteGrowth (fun _ _ => 0) (bsonInit fun _ => 0) oneGiBElement := by
  have hs : stepArgs oneGiBElement = some (bsonAppendBinary [] 0 0 [] 1073741824) := rfl
  obtain ⟨hfails, -⟩ := bsonStep_returnsUnless (fun _ _ => 0) (start_writable fun _ => 0) hs id
  have hn : (bsonAppendBinary [] 0 0 [] 1073741824).nBytes = 1073741831 := by decide
  have hrefuses := (start_writable fun _ => 0).refuses_iff 1073741831
  rw [hn] at hfails
  obtain ⟨c', hfailed⟩ := hfails (hrefuses.mpr (Or.inr ⟨by decide, by decide⟩))
  refine ⟨by decide, fun h => ?_⟩
  exact absurd (h.overflows c' hfailed) (by decide)

end LibBson.Guarantees
