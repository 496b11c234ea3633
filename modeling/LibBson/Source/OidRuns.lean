import LibBson.Source.Oid
import Mathlib.Data.List.Basic

/-!
# What a run of OID calls keeps

The fields of an OID as numbers, what each event changes, and the invariant that
carries the order: the counter stands at the number of OIDs made, and no stamp is
ahead of the clock or of a call that began after it.
Source: bson-oid.c:142-171, bson-context.c:225-260.
-/

set_option autoImplicit false

namespace LibBson.Source
open LibBson.Library

/-- Seconds, octets 0 to 3. -/
def BsonOid.stamp (oid : BsonOid) : Nat := beNat (oid.bytes.take 4)

/-- Host and pid, octets 4 to 8. -/
def BsonOid.machine (oid : BsonOid) : Bytes := (oid.bytes.drop 4).take 5

/-- Octets 9 to 11. -/
def BsonOid.counter (oid : BsonOid) : Nat := beNat (oid.bytes.drop 9)

/-- The machine octets a context writes. -/
def BsonContext.machine (context : BsonContext) (host : Identity) : Bytes :=
  (context.getHostPid host).1.1 ++ (context.getHostPid host).2.1

theorem BsonOid.split (oid : BsonOid) :
    oid.bytes = oid.bytes.take 4 ++ oid.machine ++ oid.bytes.drop 9 := by
  have h := List.take_append_drop 5 (oid.bytes.drop 4)
  rw [List.drop_drop] at h
  rw [BsonOid.machine, List.append_assoc, h, List.take_append_drop]

theorem BsonOid.value (oid : BsonOid) :
    beNat oid.bytes =
      (oid.stamp * 1099511627776 + beNat oid.machine) * 16777216 + oid.counter := by
  have hm : oid.machine.length = 5 := by simp [BsonOid.machine, oid.size]
  have hc : (oid.bytes.drop 9).length = 3 := by simp [oid.size]
  conv_lhs => rw [oid.split, beNat_append, beNat_append, hm, hc]
  rfl

theorem BsonOid.machine_lt (oid : BsonOid) : beNat oid.machine < 1099511627776 := by
  have h := beNat_lt oid.machine
  have hm : oid.machine.length = 5 := by simp [BsonOid.machine, oid.size]
  rwa [hm] at h

theorem BsonOid.counter_lt (oid : BsonOid) : oid.counter < 16777216 := by
  have h := beNat_lt (oid.bytes.drop 9)
  have hc : (oid.bytes.drop 9).length = 3 := by simp [oid.size]
  rwa [hc] at h

/-- A later second, or a higher count in one second on one machine. -/
def BsonOid.Before (a b : BsonOid) : Prop :=
  a.stamp < b.stamp ∨ a.stamp = b.stamp ∧ a.machine = b.machine ∧ a.counter < b.counter

theorem BsonOid.Before.compare {a b : BsonOid} (h : a.Before b) : 0 < bsonOidCompare b a := by
  have ha := a.machine_lt
  have hb := b.machine_lt
  have hac := a.counter_lt
  have hbc := b.counter_lt
  apply memcmp_pos (by rw [a.size, b.size])
  rw [a.value, b.value]
  obtain hstamp | ⟨hstamp, hmachine, hcounter⟩ := h
  · omega
  · rw [hstamp, hmachine]
    omega

theorem BsonOid.Before.ne {a b : BsonOid} (h : a.Before b) : a ≠ b := by
  intro heq
  have hself := memcmp_self b.bytes
  have hpos := h.compare
  rw [heq, bsonOidCompare, hself] at hpos
  exact absurd hpos (by decide)

section Init

variable (context : BsonContext) (now : UInt32) (host : Identity)

@[simp] theorem bsonOidInit_bytes :
    (bsonOidInit context now host).bytes =
      beBytes 4 now.toNat ++ (context.machine host ++ (seqOctets context.seq).1) := by
  simp [bsonOidInit, BsonContext.machine]

@[simp] theorem BsonContext.machine_length : (context.machine host).length = 5 := by
  have hd := (context.getHostPid host).1.2
  have hp := (context.getHostPid host).2.2
  simp [BsonContext.machine, hd, hp]

@[simp] theorem bsonOidInit_stamp : (bsonOidInit context now host).stamp = now.toNat := by
  have hlt : now.toNat < 256 ^ 4 := now.toNat_lt
  rw [BsonOid.stamp, bsonOidInit_bytes, List.take_left' (beBytes_length 4 _), beNat_beBytes,
    Nat.mod_eq_of_lt hlt]

@[simp] theorem bsonOidInit_machine :
    (bsonOidInit context now host).machine = context.machine host := by
  rw [BsonOid.machine, bsonOidInit_bytes, List.drop_left' (beBytes_length 4 _),
    List.take_left' (context.machine_length host)]

/-- The low 24 bits of the counter, in big-endian order. -/
theorem seqOctets_value (seq : UInt32) : beNat (seqOctets seq).1 = seq.toNat % 16777216 := by
  exact beNat_beBytes 3 seq.toNat

@[simp] theorem bsonOidInit_counter :
    (bsonOidInit context now host).counter = context.seq.toNat % 16777216 := by
  have hlength : (beBytes 4 now.toNat ++ context.machine host).length = 9 := by simp
  rw [BsonOid.counter, bsonOidInit_bytes, ← List.append_assoc, List.drop_left' hlength,
    seqOctets_value]

end Init

section Step

variable {g g' : Generator}

theorem Generator.step_tick {later : Nat} (h : g.step (.tick later) = some g') :
    g.clock ≤ later ∧ g' = { g with clock := later } := by
  rw [Generator.step] at h
  split at h
  case isTrue hle => exact ⟨hle, (Option.some.inj h).symm⟩
  case isFalse => cases h

theorem Generator.step_begin {thread : Nat} (h : g.step (.begin thread) = some g') :
    g' = { g with calls := (thread, ⟨UInt32.ofNat g.clock, g.made.length⟩) :: g.calls } := by
  rw [Generator.step] at h
  split at h
  · cases h
  · split at h
    · cases h
    · exact (Option.some.inj h).symm

theorem Generator.step_finish {thread : Nat} {host : Identity}
    (h : g.step (.finish thread host) = some g') :
    ∃ call, g.calls.lookup thread = some call ∧
      g' = { g with
        context := { g.context with seq32 := g.context.seq32 + 1 }
        calls := g.calls.filter (·.1 ≠ thread)
        made := g.made ++ [⟨bsonOidInit g.context call.now host, call.begun⟩] } := by
  rw [Generator.step] at h
  split at h
  · cases h
  case h_2 call hcall => exact ⟨call, hcall, (Option.some.inj h).symm⟩

end Step

/-- A step that neither starts a call when seconds no longer fit 32 bits nor
draws a number that its second, on this machine, has no room left for. -/
def OidEvent.Steady (g : Generator) : OidEvent → Prop
  | .tick _ => True
  | .begin _ => g.clock < 4294967296
  | .finish thread host => ∀ call ∈ g.calls.lookup thread, ∀ (i : Nat) (h : i < g.made.length),
    g.made[i].oid.stamp = call.now.toNat → g.made[i].oid.machine = g.context.machine host ∧
      g.made[i].oid.counter + (g.made.length - i) < 16777216

instance (g : Generator) : (e : OidEvent) → Decidable (e.Steady g)
  | .tick _ => isTrue trivial
  | .begin _ => inferInstanceAs (Decidable (_ < _))
  | .finish _ _ => inferInstanceAs (Decidable (∀ _ ∈ _, _))

def Generator.RunsSteady (g : Generator) : List OidEvent → Prop
  | [] => True
  | e :: es => e.Steady g ∧ ∀ g' ∈ g.step e, g'.RunsSteady es

instance Generator.decidableRunsSteady (g : Generator) : (es : List OidEvent) →
    Decidable (g.RunsSteady es)
  | [] => isTrue trivial
  | e :: es =>
    have : DecidablePred fun g' : Generator => g'.RunsSteady es := fun g' =>
      decidableRunsSteady g' es
    inferInstanceAs (Decidable (e.Steady g ∧ ∀ g' ∈ g.step e, g'.RunsSteady es))

/-- The invariant of a steady run whose first number is `first`. -/
structure Generator.Sequential (first : Nat) (g : Generator) : Prop where
  seq : g.context.seq.toNat = (first + g.made.length) % 4294967296
  drawn : ∀ i m, g.made[i]? = some m → m.oid.counter = (first + i) % 16777216
  past : ∀ m ∈ g.made, m.oid.stamp ≤ g.clock
  calls : ∀ p ∈ g.calls, p.2.now.toNat ≤ g.clock ∧ p.2.begun ≤ g.made.length ∧
    ∀ i m, g.made[i]? = some m → i < p.2.begun → m.oid.stamp ≤ p.2.now.toNat
  begun : ∀ (i : Nat) (m : MadeOid), g.made[i]? = some m → m.begun ≤ i
  ordered : ∀ (i j : Nat) (a b : MadeOid), i < j → g.made[i]? = some a → g.made[j]? = some b →
    a.oid.Before b.oid ∨ b.begun ≤ i ∧ b.oid.Before a.oid

/-- An entry of a list with one more at its end. -/
theorem getElem?_concat {α : Type} {xs : List α} {y x : α} {i : Nat}
    (h : (xs ++ [y])[i]? = some x) : xs[i]? = some x ∨ i = xs.length ∧ x = y := by
  rw [List.getElem?_append] at h
  split at h
  case isTrue => exact Or.inl h
  case isFalse hi =>
    have hzero : i - xs.length < [y].length := by
      by_contra hge
      rw [List.getElem?_eq_none (Nat.le_of_not_lt hge)] at h
      cases h
    have hi : i = xs.length := by
      rw [List.length_singleton] at hzero
      omega
    subst hi
    rw [Nat.sub_self] at h
    exact Or.inr ⟨rfl, (Option.some.inj h).symm⟩

theorem lookup_mem {α : Type} {k : Nat} {a : α} {xs : List (Nat × α)}
    (h : xs.lookup k = some a) : (k, a) ∈ xs := by
  obtain ⟨l₁, l₂, rfl, -⟩ := List.lookup_eq_some_iff.mp h
  exact List.mem_append_right _ (List.mem_cons_self ..)

section Sequential

variable {first : Nat} {g g' : Generator}

theorem Generator.Sequential.start (context : BsonContext) (clock : Nat) :
    (generator context clock).Sequential context.seq.toNat := by
  have hlt : context.seq.toNat < 4294967296 := context.seq.toNat_lt
  constructor
  case seq => exact (Nat.mod_eq_of_lt hlt).symm
  case drawn => intro i m hm; cases hm
  case past => intro m hm; cases hm
  case calls => intro p hp; cases hp
  case begun => intro i m hm; cases hm
  case ordered => intro i j a b hij ha; cases ha

theorem Generator.Sequential.tick (h : g.Sequential first) {later : Nat} (hle : g.clock ≤ later) :
    ({ g with clock := later } : Generator).Sequential first := by
  constructor
  case seq => exact h.seq
  case drawn => exact h.drawn
  case past => exact fun m hm => Nat.le_trans (h.past m hm) hle
  case calls =>
    intro p hp
    obtain ⟨hnow, hrest⟩ := h.calls p hp
    exact ⟨Nat.le_trans hnow hle, hrest⟩
  case begun => exact h.begun
  case ordered => exact h.ordered

theorem Generator.Sequential.begin (h : g.Sequential first) (hclock : g.clock < 4294967296)
    (thread : Nat) :
    ({ g with
      calls := (thread, ⟨UInt32.ofNat g.clock, g.made.length⟩) :: g.calls } : Generator).Sequential
        first := by
  have hnow : (UInt32.ofNat g.clock).toNat = g.clock := UInt32.toNat_ofNat_of_lt' hclock
  constructor
  case seq => exact h.seq
  case drawn => exact h.drawn
  case past => exact h.past
  case calls =>
    intro p hp
    rcases List.mem_cons.mp hp with hp | hp
    · subst hp
      rw [hnow]
      exact ⟨Nat.le_refl _, Nat.le_refl _, fun i m hm _ => h.past m (List.mem_of_getElem? hm)⟩
    · exact h.calls p hp
  case begun => exact h.begun
  case ordered => exact h.ordered

theorem BsonContext.seq_succ (context : BsonContext) :
    ({ context with seq32 := context.seq32 + 1 } : BsonContext).seq = context.seq + 1 := by
  unfold BsonContext.seq
  split <;> rfl

/-- The number drawn fits behind all numbers of its second. -/
theorem Generator.Sequential.fits (h : g.Sequential first) {call : OidCall} {host : Identity}
    {i : Nat} {m : MadeOid} (hm : g.made[i]? = some m)
    (hsteady : m.oid.stamp = call.now.toNat →
      m.oid.machine = g.context.machine host ∧ m.oid.counter + (g.made.length - i) < 16777216)
    (hle : m.oid.stamp ≤ call.now.toNat) :
    m.oid.Before (bsonOidInit g.context call.now host) := by
  by_cases hstamp : m.oid.stamp = call.now.toNat
  · obtain ⟨hmachine, hroom⟩ := hsteady hstamp
    have hi := (List.getElem?_eq_some_iff.mp hm).1
    have hdrawn := h.drawn i m hm
    have hseq := h.seq
    refine Or.inr ⟨?_, ?_, ?_⟩
    · rw [hstamp, bsonOidInit_stamp]
    · rw [hmachine, bsonOidInit_machine]
    · rw [bsonOidInit_counter]
      omega
  · refine Or.inl ?_
    rw [bsonOidInit_stamp]
    omega

theorem Generator.Sequential.finish (h : g.Sequential first) {thread : Nat} {call : OidCall}
    {host : Identity} (hcall : g.calls.lookup thread = some call)
    (hsteady : (OidEvent.finish thread host).Steady g) :
    ({ g with
      context := { g.context with seq32 := g.context.seq32 + 1 }
      calls := g.calls.filter (·.1 ≠ thread)
      made := g.made ++ [⟨bsonOidInit g.context call.now host, call.begun⟩] } :
        Generator).Sequential first := by
  obtain ⟨hnow, hbegun, hahead⟩ := h.calls _ (lookup_mem hcall)
  have hseq := h.seq
  constructor
  case seq =>
    rw [BsonContext.seq_succ, UInt32.toNat_add, hseq, List.length_append, List.length_singleton]
    exact (Nat.mod_add_mod _ _ _).trans (by rw [Nat.add_assoc]; rfl)
  case drawn =>
    intro i m hm
    obtain hm | ⟨rfl, rfl⟩ := getElem?_concat hm
    · exact h.drawn i m hm
    · rw [bsonOidInit_counter]
      omega
  case past =>
    intro m hm
    rcases List.mem_append.mp hm with hm | hm
    · exact h.past m hm
    · rw [List.mem_singleton.mp hm, bsonOidInit_stamp]
      exact hnow
  case calls =>
    intro p hp
    obtain ⟨hpnow, hpbegun, hpahead⟩ := h.calls p (List.mem_filter.mp hp).1
    refine ⟨hpnow, ?_, ?_⟩
    · rw [List.length_append]
      omega
    · intro i m hm hi
      obtain hm | ⟨rfl, -⟩ := getElem?_concat hm
      · exact hpahead i m hm hi
      · omega
  case begun =>
    intro i m hm
    obtain hm | ⟨rfl, rfl⟩ := getElem?_concat hm
    · exact h.begun i m hm
    · exact hbegun
  case ordered =>
    intro i j a b hij ha hb
    obtain hb | ⟨rfl, rfl⟩ := getElem?_concat hb
    · have hj := (List.getElem?_eq_some_iff.mp hb).1
      obtain ha | ⟨rfl, -⟩ := getElem?_concat ha
      · exact h.ordered i j a b hij ha hb
      · omega
    · obtain ha | ⟨rfl, -⟩ := getElem?_concat ha
      · by_cases hle : a.oid.stamp ≤ call.now.toNat
        · obtain ⟨hlt, heq⟩ := List.getElem?_eq_some_iff.mp ha
          have hroom := hsteady call hcall i hlt
          rw [heq] at hroom
          exact Or.inl (h.fits ha hroom hle)
        · -- Only a call that overlapped this one can carry a later second.
          refine Or.inr ⟨?_, Or.inl ?_⟩
          · by_contra hi
            exact hle (hahead i a ha (Nat.lt_of_not_le hi))
          · rw [bsonOidInit_stamp]
            exact Nat.lt_of_not_le hle
      · omega

theorem Generator.Sequential.step (h : g.Sequential first) {e : OidEvent} (hsteady : e.Steady g)
    (hstep : g.step e = some g') : g'.Sequential first := by
  cases e with
  | tick later =>
    obtain ⟨hle, rfl⟩ := step_tick hstep
    exact h.tick hle
  | begin thread =>
    rw [step_begin hstep]
    exact h.begin hsteady thread
  | finish thread host =>
    obtain ⟨call, hcall, rfl⟩ := step_finish hstep
    exact h.finish hcall hsteady

theorem Generator.Sequential.run (h : g.Sequential first) {events : List OidEvent}
    (hsteady : g.RunsSteady events) (hrun : g.run events = some g') : g'.Sequential first := by
  induction events generalizing g with
  | nil =>
    obtain rfl := Option.some.inj hrun
    exact h
  | cons e es ih =>
    obtain ⟨g1, hstep, hrest⟩ := Option.bind_eq_some_iff.mp hrun
    exact ih (h.step hsteady.1 hstep) (hsteady.2 g1 hstep) hrest

end Sequential

end LibBson.Source
