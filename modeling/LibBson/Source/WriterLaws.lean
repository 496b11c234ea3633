import LibBson.Spec.Writing

/-!
# A writer refines what has been written

`Building`: the chain of open documents stands in its buffer as the partial
document says. `Refines`: the ended documents stand one after the other from the
writer's first offset on, and what was in front of it is as it was.
Source: bson-writer.c:128-271, bson.c:115-222, 310-565.
-/

set_option autoImplicit false

namespace LibBson.Source
open LibBson.Library LibBson.Spec

/-! ## Documents with open children -/

/-- Each parent holds its octets in front of its child; the outermost document
stands at `root`. -/
def Surrounds (buf : Mem) (root : Nat) : Impl → List Impl → List Bytes → Prop
  | child, [], [] => child.offset = root ∧ child.depth = 0
  | child, bson :: parents, pre :: around =>
    bson.len = pre.length + 10 ∧ child.offset = bson.offset + 4 + pre.length ∧
      child.depth = bson.depth + 1 ∧ Holds buf (bson.offset + 4) pre ∧
      Surrounds buf root bson parents around
  | _, _, _ => False

structure Building (c : Chain) (root : Nat) (p : Partial) : Prop where
  heap : c.isInline = false
  holding : Holding c p.body
  around : Surrounds c.buf root c.bson c.parents p.around

theorem Surrounds.root_le {buf : Mem} {root : Nat} {child : Impl} {parents : List Impl}
    {around : List Bytes} (h : Surrounds buf root child parents around) : root ≤ child.offset := by
  induction parents generalizing child around with
  | nil =>
    cases around with
    | nil => exact Nat.le_of_eq h.1.symm
    | cons pre around => exact h.elim
  | cons bson parents ih =>
    cases around with
    | nil => exact h.elim
    | cons pre around =>
      obtain ⟨-, hoffset, -, -, hrest⟩ := h
      have hle := ih hrest
      omega

/-- Only the octets in front of the child matter, and where it stands. -/
theorem Surrounds.congr {buf buf' : Mem} {root : Nat} {child child' : Impl} {parents : List Impl}
    {around : List Bytes} (h : Surrounds buf root child parents around)
    (hoffset : child'.offset = child.offset) (hdepth : child'.depth = child.depth)
    (same : ∀ i, i < child.offset → buf' i = buf i) :
    Surrounds buf' root child' parents around := by
  induction parents generalizing child child' around with
  | nil =>
    cases around with
    | nil => exact ⟨hoffset.trans h.1, hdepth.trans h.2⟩
    | cons pre around => exact h.elim
  | cons bson parents ih =>
    cases around with
    | nil => exact h.elim
    | cons pre around =>
      obtain ⟨hlen, hoff, hdep, hpre, hrest⟩ := h
      refine ⟨hlen, hoffset.trans hoff, hdepth.trans hdep, ?_, ?_⟩
      · exact hpre.congr fun i hi => same _ (by omega)
      · exact ih hrest rfl rfl fun i hi => same i (by omega)

theorem Surrounds.least {buf : Mem} {root : Nat} {child : Impl} {parents : List Impl}
    {around : List Bytes} (h : Surrounds buf root child parents around) :
    ∀ bson ∈ parents, 5 ≤ bson.len := by
  induction parents generalizing child around with
  | nil =>
    intro bson hbson
    cases hbson
  | cons parent parents ih =>
    cases around with
    | nil => exact h.elim
    | cons pre around =>
      obtain ⟨hlen, -, -, -, hrest⟩ := h
      intro bson hbson
      rcases List.mem_cons.mp hbson with hbson | hbson
      · rw [hbson]
        omega
      · exact ih hrest bson hbson

theorem Building.root_le {c : Chain} {root : Nat} {p : Partial} (h : Building c root p) :
    root ≤ c.bson.offset := h.around.root_le

/-- What a call on the chain may not touch, and the room it leaves. -/
structure Beyond (c c' : Chain) (root : Nat) : Prop where
  before : ∀ i, i < root → c'.buf i = c.buf i
  capacity : c.capacity ≤ c'.capacity
  growable : c'.growable = c.growable

theorem bsonGrow_capacity {fresh : Nat → Mem} {c c' : Chain} {size : Nat}
    (h : bsonGrow fresh size c = some c') (fits : c.Fits 1) (hsize : size < 4294967296) :
    c.capacity ≤ c'.capacity := by
  have hroom := (bsonGrow_spec h fits (Nat.le_refl 1) hsize).room
  cases c with
  | inline data len =>
    simp only [bsonGrow, bsonImplInlineGrow] at h
    split at h
    · cases h
      exact Nat.le_refl _
    · rename_i hlarge
      have hlt : 0 + len + size + 0 ≤ c'.capacity := hroom
      have hcap : (Chain.inline data len).capacity = bsonInlineDataSize := rfl
      omega
  | alloc buf buflen realloc bson parents =>
    simp only [bsonGrow, bsonImplAllocGrow] at h
    split at h
    · cases h
      exact Nat.le_refl _
    · rename_i hlarge
      have hlt : bson.offset + bson.len + size + bson.depth ≤ c'.capacity := hroom
      have hu : u64 (bson.offset + bson.len + size + bson.depth) ≤
          bson.offset + bson.len + size + bson.depth := Nat.mod_le _ _
      have hcap : (Chain.alloc buf buflen realloc bson parents).capacity = buflen := rfl
      omega

section Calls

variable {fresh : Nat → Mem} {c c' : Chain} {root : Nat} {p : Partial}

theorem bsonAppendInternal_capacity {args : AppendArgs}
    (h : bsonAppendInternal fresh c args = .ok c') (fits : c.Fits 1)
    (hsize : args.nBytes < 4294967296) : c.capacity ≤ c'.capacity := by
  obtain ⟨c1, hgrow, rfl⟩ := bsonAppendInternal_stored h
  rw [appendVa, Chain.update_capacity]
  exact bsonGrow_capacity hgrow fits hsize

/-- Sizes of an append that is exact and not refused. -/
theorem admitted_sizes {s : Step} {args : AppendArgs} (hc : c.Open) (hs : stepArgs s = some args)
    (hadmits : Admits c s) (hok : bsonStep fresh c s = .ok c') :
    args.nBytes < 4294967296 ∧ args.size ≤ args.nBytes + 1 ∧
      c.bson.len + args.size ≤ bsonMaxSize ∧ ∀ n ∈ c'.lengths, n ≤ bsonMaxSize := by
  obtain ⟨hlt, hroom⟩ := hadmits
  obtain ⟨hdeclared, hsize⟩ := stepArgs_declared hs hlt
  obtain ⟨hnot, happended⟩ := (bsonStep_outcome fresh hc hs).ok c' hok
  rw [hdeclared] at hnot
  have hbound := hroom.resolve_left hnot
  have hlen : c.bson.len + trueSize s ≤ bsonMaxSize := hbound _ (enclosing_head _ _)
  have hmax : bsonMaxSize < 4294967296 := by decide
  have hlengths := (happended.lengths (opened_le s) hc (by omega)).1
  refine ⟨by omega, ?_, by omega, ?_⟩
  · rw [hsize, hdeclared, trueDeclared]
    split <;> omega
  · intro n hn
    rw [hlengths, hsize] at hn
    rcases List.mem_append.mp hn with hn | hn
    · rw [List.eq_of_mem_replicate hn]
      decide
    · obtain ⟨m, hm, rfl⟩ := List.mem_map.mp hn
      exact hbound m hm

/-- What an append leaves of a document with open children. -/
theorem Building.sameSpot {body : Bytes} (h : Building c root p) (hheap : c'.isInline = false)
    (hold : Holding c' body) (hspot : SameSpot c c') :
    Building c' root { p with body := body } ∧ ∀ i, i < root → c'.buf i = c.buf i := by
  refine ⟨⟨hheap, hold, ?_⟩, fun i hi => hspot.before i (Nat.lt_of_lt_of_le hi h.root_le)⟩
  rw [hspot.parents]
  exact h.around.congr hspot.offset hspot.depth hspot.before

theorem bsonAppendInternal_growable {args : AppendArgs}
    (h : bsonAppendInternal fresh c args = .ok c') : c'.growable = c.growable := by
  obtain ⟨c1, hgrow, rfl⟩ := bsonAppendInternal_stored h
  rw [appendVa, Chain.update_growable]
  exact (bsonGrow_keeps hgrow).2.2

theorem bsonAppendInternal_heap {args : AppendArgs}
    (h : bsonAppendInternal fresh c args = .ok c') (hheap : c.isInline = false) :
    c'.isInline = false := by
  obtain ⟨c1, hgrow, rfl⟩ := bsonAppendInternal_stored h
  rw [appendVa, Chain.update_isInline]
  exact bsonGrow_heap hgrow hheap

/-- The invariant of a document being written, over a step that changes it. -/
structure Kept (c c' : Chain) (root : Nat) (p' : Partial) : Prop extends Beyond c c' root where
  building : Building c' root p'
  «open» : c'.Open

theorem Building.append {call : AppendCall} (h : Building c root p) (hc : c.Open)
    (hadmits : Admits c (.append call)) (hok : bsonStep fresh c (.append call) = .ok c') :
    Kept c c' root (p.add (.append call)) := by
  cases hs : stepArgs (.append call) with
  | none =>
    have hsame : c' = c := by
      rw [bsonStep, bsonAppendCall] at hok
      cases hreq : call.request with
      | append args => simp [stepArgs, hreq] at hs
      | done ret =>
        rw [hreq] at hok
        cases ret <;> cases hok
        rfl
    subst hsame
    have hadd : p.add (.append call) = p := by simp only [Partial.add, hs]
    rw [hadd]
    exact ⟨⟨fun _ _ => rfl, Nat.le_refl _, rfl⟩, h, hc⟩
  | some args =>
    obtain ⟨hlt, hn, hmax, hlengths⟩ := admitted_sizes hc hs hadmits hok
    have hinternal : bsonAppendInternal fresh c args = .ok c' := by
      cases hreq : call.request with
      | append args' =>
        simp only [stepArgs, hreq, Option.some_inj] at hs
        subst hs
        rwa [bsonStep, bsonAppendCall, hreq] at hok
      | done ret => simp [stepArgs, hreq] at hs
    unfold bsonMaxSize at hmax
    obtain ⟨hold, hspot⟩ := bsonAppendInternal_ok hinternal h.holding.toCarries hn hlt (by omega)
    obtain ⟨hbuilding, hbefore⟩ :=
      h.sameSpot (bsonAppendInternal_heap hinternal h.heap) hold hspot
    have hadd : p.add (.append call) = { p with body := p.body ++ args.bytes } := by
      simp only [Partial.add, hs]
    rw [hadd]
    refine ⟨⟨hbefore, bsonAppendInternal_capacity hinternal hc.fits hlt,
      bsonAppendInternal_growable hinternal⟩, hbuilding, ?_⟩
    exact ⟨hold.fits, hbuilding.around.least, hlengths⟩

theorem begin_bytes_eq (t : BsonType) (key : Bytes) (keyLength : Int) :
    (bsonAppendBsonBegin t key keyLength).bytes = childHeader t key keyLength ++ frame [] := by
  have hpairs : 4 = ([(5, [5, 0, 0, 0, 0])] : List (Nat × Bytes)).length + 3 := rfl
  rw [bsonAppendBsonBegin, AppendArgs.bytes, keyedAppend_used _ _ _ _ _ _ hpairs, keySize_eq]
  simp only [List.flatMap_cons, List.flatMap_nil, childHeader, List.append_nil, List.cons_append,
    List.append_assoc]
  rfl

theorem openChild_capacity (h : openChild c = .ok c') :
    c'.capacity = c.capacity ∧ c'.isInline = false := by
  cases c with
  | inline data len => cases h
  | alloc buf buflen realloc bson parents =>
    cases h
    exact ⟨rfl, rfl⟩

theorem Building.child {t : BsonType} {key : Bytes} {keyLength : Int} {s : Step}
    (h : Building c root p) (hc : c.Open)
    (hs : stepArgs s = some (bsonAppendBsonBegin t key keyLength)) (hadmits : Admits c s)
    (hstep : bsonStep fresh c s = bsonAppendBegin fresh t key keyLength c)
    (hok : bsonStep fresh c s = .ok c') :
    Kept c c' root
      { body := [], around := (p.body ++ childHeader t key keyLength) :: p.around } := by
  obtain ⟨hlt, hn, hmax, hlengths⟩ := admitted_sizes hc hs hadmits hok
  unfold bsonMaxSize at hmax
  rw [hstep, bsonAppendBegin_eq, h.heap] at hok
  simp only [Bool.false_eq_true, if_false, appendChild] at hok
  cases hinternal : bsonAppendInternal fresh c (bsonAppendBsonBegin t key keyLength) with
  | failed c1 =>
    rw [hinternal] at hok
    cases hok
  | aborted =>
    rw [hinternal] at hok
    cases hok
  | ok c1 =>
    rw [hinternal] at hok
    have hopen : openChild c1 = .ok c' := hok
    obtain ⟨hold, hspot⟩ := bsonAppendInternal_ok hinternal h.holding.toCarries hn hlt (by omega)
    obtain ⟨hbuilding, hbefore⟩ :=
      h.sameSpot (bsonAppendInternal_heap hinternal h.heap) hold hspot
    rw [begin_bytes_eq] at hold
    obtain ⟨hchild, hof, hgrowable⟩ := openChild_ok hopen hold
    obtain ⟨hcap, hheap⟩ := openChild_capacity hopen
    have hsurrounds : Surrounds c'.buf root c'.bson c'.parents
        ((p.body ++ childHeader t key keyLength) :: p.around) := by
      rw [hof.parents]
      refine ⟨rfl, hof.offset, hof.depth, hof.elements, ?_⟩
      exact hbuilding.around.congr rfl rfl hof.before
    refine ⟨⟨fun i hi => ?_, ?_, hgrowable.trans (bsonAppendInternal_growable hinternal)⟩,
      ⟨hheap, hchild, hsurrounds⟩, ?_⟩
    · rw [hof.before i (Nat.lt_of_lt_of_le hi hbuilding.root_le), hbefore i hi]
    · rw [hcap]
      exact bsonAppendInternal_capacity hinternal hc.fits hlt
    · exact ⟨hchild.fits, hsurrounds.least, hlengths⟩

theorem bsonAppendBsonEnd_capacity (h : bsonAppendBsonEnd c = .ok c') :
    c'.capacity = c.capacity ∧ c'.isInline = false := by
  cases c with
  | inline data len => cases h
  | alloc buf buflen realloc child parents =>
    cases parents with
    | nil => cases h
    | cons bson parents =>
      cases h
      exact ⟨rfl, rfl⟩

theorem Building.end (h : Building c root p) (hc : c.Open)
    (hok : bsonAppendBsonEnd c = .ok c') : Kept c c' root (p.add .end) := by
  obtain ⟨body, around⟩ := p
  cases c with
  | inline data len => cases hok
  | alloc buf buflen realloc child parents =>
    cases parents with
    | nil => cases hok
    | cons bson parents =>
      cases around with
      | nil => exact h.around.elim
      | cons pre around =>
        obtain ⟨hlen, hoffset, hdepth, hpre, hrest⟩ := h.around
        have hinner : child.len = body.length + 5 := h.holding.len
        -- The parent as it stands, for the lemma about one end.
        have hof : ChildOf (.alloc buf buflen realloc bson parents)
            (.alloc buf buflen realloc child (bson :: parents)) pre := by
          refine ⟨?_, hoffset, hdepth, fun _ _ => rfl, hpre⟩
          show bson :: parents = { bson with len := pre.length + 10 } :: parents
          rw [← hlen]
        have hlengths : (Chain.alloc buf buflen realloc child (bson :: parents)).lengths =
            child.len :: enclosing (bson.len + child.len - 5) parents := rfl
        have hsum : bson.len + child.len - 5 ≤ bsonMaxSize :=
          hc.lengths _ (by rw [hlengths]; exact List.mem_cons_of_mem _ (enclosing_head _ _))
        unfold bsonMaxSize at hsum
        have hroot : parents = [] → bson.depth = 0 := by
          intro hnil
          subst hnil
          cases around with
          | nil => exact hrest.2
          | cons pre' around => exact hrest.elim
        have hholding : Holding (.alloc buf buflen realloc child (bson :: parents)) body := h.holding
        obtain ⟨hold, hspot, hgrowable⟩ := bsonAppendBsonEnd_ok hok hholding hof (by omega) hroot
        obtain ⟨hcap, hheap⟩ := bsonAppendBsonEnd_capacity hok
        have hsurrounds : Surrounds c'.buf root c'.bson c'.parents around := by
          rw [hspot.parents]
          exact hrest.congr hspot.offset hspot.depth hspot.before
        have hle : root ≤ bson.offset := hrest.root_le
        have hlengths' : c'.lengths = enclosing (bson.len + child.len - 5) parents := by
          have hparents : c'.parents = parents := hspot.parents
          have hlen' : c'.bson.len = bson.len + child.len - 5 := by
            rw [hold.len, List.length_append, frame_length]
            omega
          rw [Chain.lengths, hparents, hlen']
        refine ⟨⟨fun i hi => hspot.before i (Nat.lt_of_lt_of_le hi hle), Nat.le_of_eq hcap.symm,
          hgrowable⟩, ⟨hheap, hold, hsurrounds⟩, ⟨hold.fits, hsurrounds.least, fun n hn => ?_⟩⟩
        rw [hlengths'] at hn
        exact hc.lengths n (by rw [hlengths]; exact List.mem_cons_of_mem _ hn)

/-- Every call on a document being written that returns true. -/
theorem Building.step {s : Step} (h : Building c root p) (hc : c.Open) (hadmits : Admits c s)
    (hok : bsonStep fresh c s = .ok c') : Kept c c' root (p.add s) := by
  cases s with
  | append call => exact h.append hc hadmits hok
  | documentBegin key keyLength => exact h.child hc rfl hadmits rfl hok
  | arrayBegin key keyLength => exact h.child hc rfl hadmits rfl hok
  | «end» => exact h.end hc hok

/-- On the heap a call that returns false leaves the chain as it is. -/
theorem bsonStep_failed {s : Step} (hheap : c.isInline = false)
    (hfail : bsonStep fresh c s = .failed c') : c' = c := by
  have hinternal : ∀ args, bsonAppendInternal fresh c args = .failed c' → c' = c := by
    intro args h
    rcases bsonAppendInternal_cases fresh c args with hfailed | ⟨c1, -, hok⟩
    · rw [hfailed] at h
      exact (Outcome.failed.inj h).symm
    · rw [hok] at h
      cases h
  have hbegin : ∀ t key keyLength, bsonAppendBegin fresh t key keyLength c = .failed c' → c' = c := by
    intro t key keyLength h
    rw [bsonAppendBegin_eq, hheap] at h
    simp only [Bool.false_eq_true, if_false, appendChild] at h
    split at h
    · rename_i c1 hok
      cases c1 <;> cases h
    · cases h
      exact hinternal _ (by assumption)
    · cases h
  cases s with
  | append call =>
    rw [bsonStep, bsonAppendCall] at hfail
    cases hreq : call.request with
    | append args =>
      rw [hreq] at hfail
      exact hinternal args hfail
    | done ret =>
      rw [hreq] at hfail
      cases ret <;> cases hfail
      rfl
  | documentBegin key keyLength => exact hbegin _ _ _ hfail
  | arrayBegin key keyLength => exact hbegin _ _ _ hfail
  | «end» =>
    cases c with
    | inline data len => cases hheap
    | alloc buf buflen realloc child parents => cases parents <;> cases hfail

/-- No assertion fails on the heap as long as there is a child to end. -/
theorem bsonStep_returns (fresh : Nat → Mem) {s : Step} (hheap : c.isInline = false)
    (hend : closed s ≤ c.parents.length) : bsonStep fresh c s ≠ .aborted := by
  intro habort
  have hinternal : ∀ args, bsonAppendInternal fresh c args ≠ .aborted := by
    intro args h
    rcases bsonAppendInternal_cases fresh c args with hfailed | ⟨c1, -, hok⟩
    · rw [hfailed] at h
      cases h
    · rw [hok] at h
      cases h
  have hbegin : ∀ t key keyLength, bsonAppendBegin fresh t key keyLength c ≠ .aborted := by
    intro t key keyLength h
    rw [bsonAppendBegin_eq, hheap] at h
    simp only [Bool.false_eq_true, if_false, appendChild] at h
    split at h
    · rename_i c1 hok
      obtain ⟨c2, hopen, -⟩ := openChild_heap c1 (bsonAppendInternal_heap hok hheap)
      rw [hopen] at h
      cases h
    · cases h
    · exact hinternal _ (by assumption)
  cases s with
  | append call =>
    rw [bsonStep, bsonAppendCall] at habort
    cases hreq : call.request with
    | append args =>
      rw [hreq] at habort
      exact hinternal args habort
    | done ret =>
      rw [hreq] at habort
      cases ret <;> cases habort
  | documentBegin key keyLength => exact hbegin _ _ _ habort
  | arrayBegin key keyLength => exact hbegin _ _ _ habort
  | «end» =>
    cases c with
    | inline data len => cases hheap
    | alloc buf buflen realloc child parents =>
      cases parents with
      | nil => cases hend
      | cons bson parents => cases habort

end Calls

end LibBson.Source
