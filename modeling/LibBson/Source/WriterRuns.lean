import LibBson.Source.WriterLaws

/-!
# Runs of a writer

`Refines`, kept by each call that its caller may make and that meets no defect.
Source: bson-writer.c:128-271.
-/

set_option autoImplicit false

namespace LibBson.Source
open LibBson.Library LibBson.Spec

/-- What the caller keeps to: one document at a time, and its children ended
before it is. -/
def WriterOp.Called (w : BsonWriter) : WriterOp → Prop
  | .begin _ => w.ready = true
  | .append s _ => ∃ q ∈ w.b, closed s ≤ q.2.length
  | .end => w.ready = false ∧ ∃ q ∈ w.b, q.2.length = 0
  | .rollback => True

/-- A call that meets no defect: `realloc_func` gives the blocks it is asked for,
an append is exact or refused, and a document is ended inside its buffer and
within `2 ^ 31` octets of the writer's start. -/
def WriterOp.Sound (fresh : Nat → Mem) (start : Nat) (w : BsonWriter) : WriterOp → Prop
  | .begin granted =>
    w.offset + 5 ≤ w.buflen ∨ w.realloc = false ∧ w.offset + 5 < 18446744073709551616 ∨
      granted = true ∧ w.offset + 5 ≤ 2305843009213693952
  | .append s granted => ∀ q ∈ w.b, Admits (w.chain q.1 q.2) s ∧
      (reallocates fresh (w.chain q.1 q.2) s = true → granted = true)
  | .end => w.offset + w.bLen ≤ w.buflen ∧ w.offset + w.bLen < start + 2147483648
  | .rollback => True

instance (w : BsonWriter) : (op : WriterOp) → Decidable (op.Called w)
  | .begin _ => inferInstanceAs (Decidable (_ = _))
  | .append _ _ => inferInstanceAs (Decidable (∃ q ∈ w.b, _))
  | .end => inferInstanceAs (Decidable (_ ∧ ∃ q ∈ w.b, _))
  | .rollback => isTrue trivial

instance (fresh : Nat → Mem) (start : Nat) (w : BsonWriter) :
    (op : WriterOp) → Decidable (op.Sound fresh start w)
  | .begin _ => inferInstanceAs (Decidable (_ ∨ (_ ∧ _) ∨ (_ ∧ _)))
  | .append _ _ => inferInstanceAs (Decidable (∀ q ∈ w.b, _ ∧ (_ → _)))
  | .end => inferInstanceAs (Decidable (_ ∧ _))
  | .rollback => isTrue trivial

def BsonWriter.RunsSafe (fresh : Nat → Mem) (start : Nat) (w : BsonWriter) :
    List WriterOp → Prop
  | [] => True
  | op :: ops => op.Called w ∧ op.Sound fresh start w ∧
      ∀ r ∈ w.step fresh op, r.2.RunsSafe fresh start ops

instance BsonWriter.decidableRunsSafe (fresh : Nat → Mem) (start : Nat) (w : BsonWriter) :
    (ops : List WriterOp) → Decidable (w.RunsSafe fresh start ops)
  | [] => isTrue trivial
  | op :: ops =>
    have : DecidablePred fun r : Bool × BsonWriter => r.2.RunsSafe fresh start ops := fun r =>
      decidableRunsSafe fresh start r.2 ops
    inferInstanceAs (Decidable (op.Called w ∧ op.Sound fresh start w ∧
      ∀ r ∈ w.step fresh op, r.2.RunsSafe fresh start ops))

/-- The document being written, if there is one. -/
def Writing (w : BsonWriter) : Option Partial → Prop
  | none => w.ready = true ∧ w.b = none
  | some p => w.ready = false ∧ w.offset + 5 ≤ w.buflen ∧ ∃ bson parents,
    w.b = some (bson, parents) ∧ Building (w.chain bson parents) w.offset p ∧
      (w.chain bson parents).Open

/-- The writer `w`, at first `w0`, has written `a`. -/
structure Refines (w0 w : BsonWriter) (a : Written) : Prop where
  offset : w.offset = w0.offset + a.ended.flatten.length
  ended : Holds w.buf w0.offset a.ended.flatten
  front : ∀ i, i < w0.offset → i < w0.buflen → w.buf i = w0.buf i
  inside : a.ended = [] ∨ w.offset ≤ w.buflen
  buflen : w0.buflen ≤ w.buflen
  addressable : w.buflen < 4611686018427387904
  total : a.ended.flatten.length < 2147483648
  framed : ∀ d ∈ a.ended, ∃ body, d = frame body
  writing : Writing w a.current

theorem refines_new (buf : Mem) (buflen offset : Nat) (realloc : Bool)
    (hbuflen : buflen < 4611686018427387904) :
    Refines (bsonWriterNew buf buflen offset realloc) (bsonWriterNew buf buflen offset realloc)
      Written.nothing where
  offset := rfl
  ended := holds_nil _ _
  front := fun _ _ _ => rfl
  inside := Or.inl rfl
  buflen := Nat.le_refl _
  addressable := hbuflen
  total := by decide
  framed := fun d hd => by cases hd
  writing := ⟨rfl, rfl⟩

section Begin

/-- Each doubling stays below twice the need, so none of them wraps. -/
theorem doubleBuflen_some (need fuel buflen : Nat) (hneed : need ≤ 2305843009213693952)
    (hpos : 0 < buflen) (hlt : buflen < 4611686018427387904) (hfuel : need ≤ buflen * 2 ^ fuel) :
    ∃ b, BsonWriter.doubleBuflen need (fuel + 1) buflen = some b ∧ need ≤ b ∧ buflen ≤ b ∧
      b < 4611686018427387904 := by
  induction fuel generalizing buflen with
  | zero =>
    rw [Nat.pow_zero, Nat.mul_one] at hfuel
    exact ⟨buflen, by rw [BsonWriter.doubleBuflen, if_neg (by omega)], hfuel, Nat.le_refl _, hlt⟩
  | succ fuel ih =>
    rw [BsonWriter.doubleBuflen]
    by_cases hmore : need > buflen
    · have hdouble : (if buflen = 0 then 64 else u64 (buflen * 2)) = buflen * 2 := by
        rw [if_neg (by omega)]
        exact Nat.mod_eq_of_lt (by omega)
      have hnext : need ≤ buflen * 2 * 2 ^ fuel := by
        rwa [Nat.mul_assoc, ← Nat.pow_succ']
      obtain ⟨b, hb, hneed', hle, hlt'⟩ := ih (buflen * 2) (by omega) (by omega) hnext
      rw [if_pos hmore, hdouble]
      exact ⟨b, hb, hneed', by omega, hlt'⟩
    · rw [if_neg hmore]
      exact ⟨buflen, rfl, by omega, Nat.le_refl _, hlt⟩

theorem doubleBuflen_need (need buflen : Nat) (hneed : need ≤ 2305843009213693952)
    (hlt : buflen < 4611686018427387904) (hmore : need > buflen) :
    ∃ b, BsonWriter.doubleBuflen need 66 buflen = some b ∧ need ≤ b ∧ buflen ≤ b ∧
      b < 4611686018427387904 := by
  by_cases hzero : buflen = 0
  · subst hzero
    obtain ⟨b, hb, hneed', -, hlt'⟩ :=
      doubleBuflen_some need 64 64 hneed (by decide) (by decide) (by omega)
    refine ⟨b, ?_, hneed', Nat.zero_le _, hlt'⟩
    rw [BsonWriter.doubleBuflen, if_pos hmore, if_pos rfl]
    exact hb
  · exact doubleBuflen_some need 65 buflen hneed (by omega) hlt (by omega)

/-- The stores of a begin hold the empty document. -/
theorem startDocument_holds (w : BsonWriter) : Holds w.startDocument.buf w.offset (frame []) := by
  have hzero : Holds (w.buf.write (w.offset + 1) [0, 0, 0, 0, 0]) (w.offset + 1)
      ([0, 0, 0, 0] ++ [0]) := Mem.holds_write_self _ _ _
  have hrest := ((holds_append ..).mp hzero).1
  have hkept : Holds w.startDocument.buf (w.offset + 1) [0, 0, 0, 0] :=
    Mem.holds_write_frame hrest (by simp)
  have hfirst : w.startDocument.buf w.offset = 5 :=
    ((holds_cons ..).mp (Mem.holds_write_self _ w.offset [5])).1
  exact (holds_cons ..).mpr ⟨hfirst, hkept⟩

theorem startDocument_before (w : BsonWriter) (i : Nat) (hi : i < w.offset) :
    w.startDocument.buf i = w.buf i := by
  have hbuf : w.startDocument.buf =
      (w.buf.write (w.offset + 1) [0, 0, 0, 0, 0]).write w.offset [5] := rfl
  rw [hbuf, Mem.write_before _ _ _ _ hi, Mem.write_before _ _ _ _ (by omega)]

variable {w0 w : BsonWriter} {a : Written}

theorem Refines.start (h : Refines w0 w a) (hroom : w.offset + 5 ≤ w.buflen) :
    Refines w0 w.startDocument { a with current := some { body := [], around := [] } } := by
  have hoffset := h.offset
  have hopen : (w.startDocument.chain { len := 5, depth := 0, offset := w.offset } []).Open := by
    refine ⟨⟨Nat.le_refl 5, ?_, h.addressable⟩, fun b hb => (by cases hb), fun n hn => ?_⟩
    · show w.offset + 5 + 0 ≤ w.buflen + 1
      omega
    · rw [List.mem_singleton.mp hn]
      exact (by decide : 5 ≤ bsonMaxSize)
  have hholding : Holding (w.startDocument.chain { len := 5, depth := 0, offset := w.offset } [])
      [] :=
    ⟨⟨hopen.fits, rfl, holds_nil _ _, fun _ => rfl⟩, startDocument_holds w⟩
  constructor
  case offset => exact hoffset
  case ended => exact h.ended.congr fun i hi => startDocument_before w _ (by omega)
  case front => exact fun i hi hi' => (startDocument_before w i (by omega)).trans (h.front i hi hi')
  case inside => exact h.inside
  case buflen => exact h.buflen
  case addressable => exact h.addressable
  case total => exact h.total
  case framed => exact h.framed
  case writing => exact ⟨rfl, hroom, _, _, rfl, ⟨rfl, hholding, rfl, rfl⟩, hopen⟩

/-- The buffer has moved to a larger block. -/
theorem Refines.grown (h : Refines w0 w a) (fresh : Mem) {buflen : Nat} (hle : w.buflen ≤ buflen)
    (hlt : buflen < 4611686018427387904) (hnone : a.current = none) :
    Refines w0 { w with buf := w.buf.copyPrefix fresh w.buflen, buflen := buflen } a := by
  have hoffset := h.offset
  have hwriting := h.writing
  rw [hnone] at hwriting
  constructor
  case offset => exact hoffset
  case ended =>
    rcases h.inside with hnil | hinside
    · rw [hnil]
      exact holds_nil _ _
    · exact Mem.holds_copyPrefix h.ended (by omega)
  case front =>
    intro i hi hi'
    have hbuflen := h.buflen
    rw [← h.front i hi hi']
    exact Mem.copyPrefix_of_lt _ _ _ _ (by omega)
  case inside => exact h.inside.imp_right fun hi => Nat.le_trans hi hle
  case buflen => exact Nat.le_trans h.buflen hle
  case addressable => exact hlt
  case total => exact h.total
  case framed => exact h.framed
  case writing =>
    rw [hnone]
    exact hwriting

end Begin

theorem idle_same {w : BsonWriter} (hready : w.ready = true) (hb : w.b = none) :
    ({ w with ready := true, b := none } : BsonWriter) = w := by
  cases w
  simp only at hready hb
  rw [hready, hb]

theorem withChain_chain {w : BsonWriter} {bson : Impl} {parents : List Impl}
    (hb : w.b = some (bson, parents)) : w.withChain (w.chain bson parents) = w := by
  cases w
  simp only at hb
  rw [hb]
  rfl

section Step

variable {fresh : Nat → Mem} {w0 w : BsonWriter} {a : Written}

theorem Refines.idle (h : Refines w0 w a) (hready : w.ready = true) :
    a.current = none ∧ w.b = none := by
  have hwriting := h.writing
  cases hcur : a.current with
  | none =>
    rw [hcur] at hwriting
    exact ⟨rfl, hwriting.2⟩
  | some p =>
    rw [hcur] at hwriting
    rw [hwriting.1] at hready
    cases hready

theorem Refines.begin (h : Refines w0 w a) {granted : Bool}
    (hcalled : (WriterOp.begin granted).Called w)
    (hsound : (WriterOp.begin granted).Sound fresh w0.offset w) :
    ∃ ret w', w.step fresh (.begin granted) = some (ret, w') ∧
      Refines w0 w' (a.add (.begin granted) ret) := by
  have hready : w.ready = true := hcalled
  have haddr := h.addressable
  obtain ⟨hnone, hb⟩ := h.idle hready
  have hneed : u64 (w.offset + 5) = w.offset + 5 := by
    apply Nat.mod_eq_of_lt
    rcases hsound with hroom | ⟨-, hlt⟩ | ⟨-, hlt⟩ <;> omega
  have hnotReady : ¬ (!w.ready) = true := by simp [hready]
  rw [BsonWriter.step, BsonWriter.beginDocument, if_neg hnotReady]
  simp only [hneed]
  by_cases hroom : w.offset + 5 ≤ w.buflen
  · rw [if_pos hroom]
    exact ⟨true, _, rfl, h.start hroom⟩
  · rw [if_neg hroom]
    by_cases hrealloc : w.realloc = true
    · have hnotNull : ¬ (!w.realloc) = true := by simp [hrealloc]
      rw [if_neg hnotNull]
      obtain ⟨hnull, -⟩ | ⟨hgranted, hsmall⟩ := hsound.resolve_left hroom
      · rw [hrealloc] at hnull
        cases hnull
      · obtain ⟨buflen, hdouble, hle, hkept, hlt⟩ :=
          doubleBuflen_need (w.offset + 5) w.buflen hsmall haddr (Nat.lt_of_not_le hroom)
        simp only [hdouble, hgranted, if_true]
        exact ⟨true, _, rfl, (h.grown (fresh buflen) hkept hlt hnone).start hle⟩
    · have hnull : (!w.realloc) = true := by simp [hrealloc]
      rw [if_pos hnull]
      exact ⟨false, w, by rw [idle_same hready hb], h⟩

/-- A call on the document being written. -/
theorem Refines.append (h : Refines w0 w a) {s : Step} {granted : Bool}
    (hcalled : (WriterOp.append s granted).Called w)
    (hsound : (WriterOp.append s granted).Sound fresh w0.offset w) :
    ∃ ret w', w.step fresh (.append s granted) = some (ret, w') ∧
      Refines w0 w' (a.add (.append s granted) ret) := by
  obtain ⟨⟨bson, parents⟩, hq, hclosed⟩ := hcalled
  have hb : w.b = some (bson, parents) := hq
  obtain ⟨hadmits, hgranted⟩ := hsound _ hq
  have hwriting := h.writing
  cases hcur : a.current with
  | none =>
    rw [hcur] at hwriting
    rw [hwriting.2] at hb
    cases hb
  | some p =>
    rw [hcur] at hwriting
    obtain ⟨hready, hroom, bson', parents', hb', hbuilding, hopen⟩ := hwriting
    obtain ⟨rfl, rfl⟩ := Prod.mk.inj (Option.some.inj (hb.symm.trans hb'))
    have hnocrash : ¬ (reallocates fresh (w.chain bson parents) s && !granted) = true := by
      intro hcrash
      obtain ⟨hmoves, hnull⟩ := Bool.and_eq_true_iff.mp hcrash
      rw [hgranted hmoves] at hnull
      cases hnull
    simp only [BsonWriter.step, hb]
    rw [if_neg hnocrash]
    have hreturns := bsonStep_returns fresh (s := s) hbuilding.heap hclosed
    cases hout : bsonStep fresh (w.chain bson parents) s with
    | aborted => exact absurd hout hreturns
    | failed c =>
      obtain rfl := bsonStep_failed hbuilding.heap hout
      exact ⟨false, w, by simp only [withChain_chain hb], h⟩
    | ok c =>
      have hkept := hbuilding.step hopen hadmits hout
      refine ⟨true, w.withChain c, rfl, ?_⟩
      cases c with
      | inline data len =>
        have hheap : true = false := hkept.building.heap
        cases hheap
      | alloc buf buflen realloc bson' parents' =>
        have hrealloc : realloc = w.realloc := hkept.growable
        subst hrealloc
        have hoffset := h.offset
        have hcapacity : w.buflen ≤ buflen := hkept.capacity
        have hbefore : ∀ i, i < w.offset → buf i = w.buf i := hkept.before
        have hcurrent : (a.add (.append s granted) true).current = some (p.add s) := by
          rw [Written.add, hcur]
          rfl
        have hended : (a.add (.append s granted) true).ended = a.ended := rfl
        constructor
        case offset => exact hoffset
        case ended =>
          rw [hended]
          exact h.ended.congr fun i hi => hbefore _ (by omega)
        case front => exact fun i hi hi' => (hbefore i (by omega)).trans (h.front i hi hi')
        case inside => exact h.inside.imp_right fun hi => Nat.le_trans hi hcapacity
        case buflen => exact Nat.le_trans h.buflen hcapacity
        case addressable => exact hkept.open.fits.addressable
        case total => exact h.total
        case framed => exact h.framed
        case writing =>
          rw [hcurrent]
          exact ⟨hready, Nat.le_trans hroom hcapacity, bson', parents', rfl, hkept.building,
            hkept.open⟩

theorem Refines.end (h : Refines w0 w a) (hcalled : WriterOp.end.Called w)
    (hsound : WriterOp.end.Sound fresh w0.offset w) :
    ∃ ret w', w.step fresh .end = some (ret, w') ∧ Refines w0 w' (a.add .end ret) := by
  obtain ⟨hready, ⟨bson, parents⟩, hq, hnone⟩ := hcalled
  obtain rfl : parents = [] := List.length_eq_zero_iff.mp hnone
  have hb : w.b = some (bson, []) := hq
  obtain ⟨hinside, htotal⟩ := hsound
  have hwriting := h.writing
  cases hcur : a.current with
  | none =>
    rw [hcur] at hwriting
    rw [hwriting.2] at hb
    cases hb
  | some p =>
    rw [hcur] at hwriting
    obtain ⟨-, hroom, bson', parents', hb', hbuilding, hopen⟩ := hwriting
    obtain ⟨rfl, rfl⟩ := Prod.mk.inj (Option.some.inj (hb.symm.trans hb'))
    have hlen : w.bLen = (frame p.body).length := by
      have hbody : bson.len = p.body.length + 5 := hbuilding.holding.len
      rw [BsonWriter.bLen, hb, frame_length]
      exact hbody
    have hplace : bson.offset = w.offset := by
      have haround := hbuilding.around
      cases hp : p.around with
      | nil =>
        rw [hp] at haround
        exact haround.1
      | cons pre around =>
        rw [hp] at haround
        exact haround.elim
    have hcontent : Holds w.buf w.offset (frame p.body) := by
      have hframe : Holds w.buf bson.offset (frame p.body) := hbuilding.holding.content
      rwa [hplace] at hframe
    have hoffset := h.offset
    have haddr := h.addressable
    have hnext : u64 (w.offset + w.bLen) = w.offset + w.bLen := Nat.mod_eq_of_lt (by omega)
    have hadd : a.add .end true = { ended := a.ended ++ [frame p.body], current := none } := by
      rw [Written.add, hcur]
    have hflat : (a.ended ++ [frame p.body]).flatten = a.ended.flatten ++ frame p.body := by
      rw [List.flatten_append, List.flatten_singleton]
    have hlength : (a.ended ++ [frame p.body]).flatten.length =
        a.ended.flatten.length + w.bLen := by
      rw [hflat, List.length_append, hlen]
    refine ⟨true, { w with offset := w.offset + w.bLen, b := none, ready := true }, ?_, ?_⟩
    · rw [BsonWriter.step, BsonWriter.endDocument, hready, hnext]
      rfl
    · rw [hadd]
      constructor
      case offset =>
        simp only [hlength]
        omega
      case ended =>
        simp only [hflat]
        rw [holds_append, ← hoffset]
        exact ⟨h.ended, hcontent⟩
      case front => exact h.front
      case inside => exact Or.inr hinside
      case buflen => exact h.buflen
      case addressable => exact haddr
      case total =>
        simp only [hlength]
        omega
      case framed =>
        intro d hd
        rcases List.mem_append.mp hd with hd | hd
        · exact h.framed d hd
        · exact ⟨p.body, List.mem_singleton.mp hd⟩
      case writing => exact ⟨rfl, rfl⟩

theorem Refines.rollback (h : Refines w0 w a) :
    Refines w0 w.rollback (a.add .rollback true) where
  offset := h.offset
  ended := h.ended
  front := h.front
  inside := h.inside
  buflen := h.buflen
  addressable := h.addressable
  total := h.total
  framed := h.framed
  writing := ⟨rfl, rfl⟩

theorem Refines.step (h : Refines w0 w a) {op : WriterOp} (hcalled : op.Called w)
    (hsound : op.Sound fresh w0.offset w) :
    ∃ ret w', w.step fresh op = some (ret, w') ∧ Refines w0 w' (a.add op ret) := by
  cases op with
  | begin granted => exact h.begin hcalled hsound
  | append s granted => exact h.append hcalled hsound
  | «end» => exact h.end hcalled hsound
  | rollback => exact ⟨true, w.rollback, rfl, h.rollback⟩

theorem Refines.run (h : Refines w0 w a) {ops : List WriterOp}
    (hsafe : w.RunsSafe fresh w0.offset ops) :
    ∃ rets last, w.run fresh ops = some (rets, last) ∧ Refines w0 last (a.after ops rets) := by
  induction ops generalizing w a with
  | nil => exact ⟨[], w, rfl, h⟩
  | cons op ops ih =>
    obtain ⟨hcalled, hsound, hrest⟩ := hsafe
    obtain ⟨ret, w', hstep, hrefines⟩ := h.step hcalled hsound
    obtain ⟨rets, last, hrun, hlast⟩ := ih hrefines (hrest _ hstep)
    refine ⟨ret :: rets, last, ?_, hlast⟩
    rw [BsonWriter.run, hstep]
    simp only [hrun, Option.map_some]

/-- A call that returns false leaves the writer as it is. -/
theorem Refines.failed (h : Refines w0 w a) {op : WriterOp} {w' : BsonWriter}
    (hfail : w.step fresh op = some (false, w')) : w' = w := by
  cases op with
  | begin granted =>
    rw [BsonWriter.step, BsonWriter.beginDocument] at hfail
    split at hfail
    · cases hfail
    · rename_i hready
      simp only at hfail
      split at hfail
      · cases hfail
      · split at hfail
        · have hsame := (Prod.mk.inj (Option.some.inj hfail)).2
          have hready : w.ready = true := by simpa using hready
          rw [← hsame]
          exact idle_same hready (h.idle hready).2
        · split at hfail
          · cases hfail
          · split at hfail <;> cases hfail
  | append s granted =>
    rw [BsonWriter.step] at hfail
    split at hfail
    · cases hfail
    · rename_i bson parents hb
      split at hfail
      · cases hfail
      · split at hfail
        · cases hfail
        · rename_i c hout
          have hsame := (Prod.mk.inj (Option.some.inj hfail)).2
          rw [← hsame, bsonStep_failed rfl hout]
          exact withChain_chain hb
        · cases hfail
  | «end» =>
    rw [BsonWriter.step] at hfail
    cases hend : w.endDocument with
    | none =>
      rw [hend] at hfail
      cases hfail
    | some last =>
      rw [hend] at hfail
      cases hfail
  | rollback => cases hfail

end Step

end LibBson.Source
