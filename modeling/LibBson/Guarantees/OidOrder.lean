import LibBson.Source.OidRuns

/-!
# ObjectIds of one context do not repeat and increase

For every interleaving of calls and every clock, as long as no second runs out
of the 24 bits an OID has for the counter; and what happens when one does.
Source: bson-oid.c:142-171, bson-context.c:225-260, 320-361.
-/

set_option autoImplicit false

namespace LibBson.Guarantees
open LibBson.Library LibBson.Source

/-- No two OIDs are equal, and one made by a call that began after another
returned compares greater. -/
def Increasing (made : List MadeOid) : Prop :=
  (∀ (i j : Nat) (a b : MadeOid), i ≠ j → made[i]? = some a → made[j]? = some b → a.oid ≠ b.oid) ∧
    ∀ (i j : Nat) (a b : MadeOid), made[i]? = some a → made[j]? = some b → i < b.begun →
      0 < bsonOidCompare b.oid a.oid

theorem Sequential_increasing {first : Nat} {g : Generator} (h : g.Sequential first) :
    Increasing g.made := by
  have hne : ∀ (i j : Nat) (a b : MadeOid), i < j → g.made[i]? = some a → g.made[j]? = some b →
      a.oid ≠ b.oid := by
    intro i j a b hij ha hb
    obtain hlt | ⟨-, hlt⟩ := h.ordered i j a b hij ha hb
    · exact hlt.ne
    · exact hlt.ne.symm
  constructor
  · intro i j a b hij ha hb
    rcases Nat.lt_or_gt_of_ne hij with hij | hij
    · exact hne i j a b hij ha hb
    · exact (hne j i b a hij hb ha).symm
  · intro i j a b ha hb hi
    have hj := h.begun j b hb
    obtain hlt | ⟨hle, -⟩ := h.ordered i j a b (by omega) ha hb
    · exact hlt.compare
    · omega

/-- In every run whose steps are steady, whatever the threads do in between. -/
theorem oid_init_increasing (context : BsonContext) (flags : BsonContextFlags) (rand : UInt32)
    (host : Identity) (tid : UInt16) (clock : Nat) (events : List OidEvent) (g : Generator)
    (hsteady : (generator (bsonContextInit context flags rand host tid) clock).RunsSteady events)
    (hrun : (generator (bsonContextInit context flags rand host tid) clock).run events = some g) :
    Increasing g.made := by
  have hstart := Generator.Sequential.start (bsonContextInit context flags rand host tid) clock
  exact Sequential_increasing (hstart.run hsteady hrun)

/-- Two threads whose calls overlap, then another call a second later. -/
theorem oid_init_increasing_overlap :
    let host : Identity := ⟨octetsBE 3 0, 1⟩
    let flags : BsonContextFlags := ⟨true, false, false, false⟩
    let context : BsonContext := ⟨flags, octetsBE 3 0, octetsBE 2 0, 0⟩
    let events : List OidEvent := [.begin 0, .begin 1, .finish 1 host, .tick 1500000001,
      .finish 0 host, .begin 1, .finish 1 host]
    ∃ g, (generator (bsonContextInit context flags 12345 host 1) 1500000000).run events = some g ∧
      g.made.length = 3 ∧ Increasing g.made := by
  intro host flags context events
  refine ⟨_, rfl, rfl, ?_⟩
  exact oid_init_increasing context flags 12345 host 1 1500000000 events _ (by decide +kernel) rfl

section Solo

variable (host : Identity)

/-- One thread, one call after another, the clock standing still. -/
def soloCalls : Nat → List OidEvent
  | 0 => []
  | n + 1 => soloCalls n ++ [.begin 0, .finish 0 host]

/-- The context after `n` calls. -/
def contextAfter (context : BsonContext) (n : Nat) : BsonContext :=
  { context with seq32 := context.seq32 + UInt32.ofNat n }

def soloMade (context : BsonContext) (clock i : Nat) : MadeOid :=
  ⟨bsonOidInit (contextAfter context i) (UInt32.ofNat clock) host, i⟩

theorem run_append (g : Generator) (xs ys : List OidEvent) :
    g.run (xs ++ ys) = (g.run xs).bind fun g' => g'.run ys := by
  induction xs generalizing g with
  | nil => rfl
  | cons e es ih =>
    simp only [List.cons_append, Generator.run, Option.bind_assoc, ih]

theorem run_soloCalls (context : BsonContext) (clock n : Nat) :
    (generator context clock).run (soloCalls host n) =
      some ⟨contextAfter context n, clock, [], (List.range n).map (soloMade host context clock)⟩ := by
  induction n with
  | zero => simp [soloCalls, generator, Generator.run, contextAfter]
  | succ n ih =>
    have hseq : context.seq32 + UInt32.ofNat n + 1 = context.seq32 + UInt32.ofNat (n + 1) := by
      rw [UInt32.ofNat_add, ← UInt32.add_assoc]
      rfl
    rw [soloCalls, run_append, ih, Option.bind_some]
    simp [Generator.run, Generator.step, contextAfter, soloMade, hseq, List.range_succ]

/-- The counter octets come back after 2^24 calls. -/
theorem seqOctets_period (seq : UInt32) :
    seqOctets (seq + UInt32.ofNat 16777216) = seqOctets seq := by
  have hlength : (seqOctets (seq + UInt32.ofNat 16777216)).1.length = (seqOctets seq).1.length := by
    rw [(seqOctets _).2, (seqOctets _).2]
  apply Subtype.ext
  apply beNat_inj hlength
  rw [seqOctets_value, seqOctets_value, UInt32.toNat_add, UInt32.toNat_ofNat_of_lt' (by decide)]
  omega

/-- Whatever the flags, the call that follows 2^24 others in one second makes the
OID of the first. -/
theorem soloMade_repeats (context : BsonContext) (clock : Nat) :
    (soloMade host context clock 16777216).oid = (soloMade host context clock 0).oid := by
  have hseq : (contextAfter context 16777216).seq =
      (contextAfter context 0).seq + UInt32.ofNat 16777216 := by
    unfold contextAfter BsonContext.seq
    have hzero : UInt32.ofNat 0 = 0 := rfl
    split
    · rw [hzero, UInt32.add_zero, UInt32.add_assoc, UInt32.add_assoc,
        UInt32.add_comm (UInt32.ofNat 16777216)]
    · rw [hzero, UInt32.add_zero]
  unfold soloMade bsonOidInit
  simp only [hseq, seqOctets_period]
  rfl

end Solo

/-- A thread-safe context in one second: the OID of call 2^24 + 1 is that of the
first call, which had returned long before. -/
theorem oid_init_repeats :
    let host : Identity := ⟨octetsBE 3 0, 1⟩
    let flags : BsonContextFlags := ⟨true, false, false, false⟩
    let context := bsonContextInit ⟨flags, octetsBE 3 0, octetsBE 2 0, 0⟩ flags 0 host 1
    ∃ g a b, (generator context 1500000000).run (soloCalls host 16777217) = some g ∧
      g.made[0]? = some a ∧ g.made[16777216]? = some b ∧ 0 < b.begun ∧ a.oid = b.oid ∧
      ¬ 0 < bsonOidCompare b.oid a.oid := by
  intro host flags context
  have hrepeats := soloMade_repeats host context 1500000000
  refine ⟨_, soloMade host context 1500000000 0, soloMade host context 1500000000 16777216,
    run_soloCalls host context 1500000000 16777217, by simp, by simp, by simp [soloMade],
    hrepeats.symm, ?_⟩
  rw [hrepeats, bsonOidCompare, memcmp_self]
  decide

end LibBson.Guarantees
