import LibBson.Source.HeapRuns
import LibBson.Source.JsonDocs
import LibBson.Source.Overwrite

/-!
# The JSON reader's documents in two heaps

The calls of a callback come to the same on documents that agree up to their ends: they fail
with the same message, do not return for the same reason, or leave such documents again. Only
the scope of a code and the document of a DBPointer are read, up to their ends.
Source: bson-json.c:1386-1490.
-/

set_option autoImplicit false

namespace LibBson.Source
open LibBson.Library

/-! ## The document of a DBPointer -/

section Dbpointer

variable {m m' : Mem} {it it' : BsonIter}

theorem Twin.pointer (h : Twin m m' it it') {lo : Nat} (agree : Agree m m' lo it.len) {o : Nat}
    (ho : lo ≤ o) : it'.pointer o = it.pointer o := by
  have hm : it.mem = m := by rw [BsonIter.mem, h.raw, Option.getD_some]
  have hm' : it'.mem = m' := by rw [BsonIter.mem, h.raw', Option.getD_some]
  rw [BsonIter.pointer, BsonIter.pointer, hm, hm', h.len, Mem.slice, Mem.slice]
  apply List.map_congr_left
  intro i hi
  have hlt := List.mem_range.mp hi
  exact agree (o + i) (by omega) (by omega)

/-- Twins step to the same element, or both stop. -/
theorem Twin.step (h : Twin m m' it it') (agree : Agree m m' it.nextOff it.len) :
    (bsonIterNext it).1 = false ∧ (bsonIterNext it').1 = false ∨
      (bsonIterNext it).1 = true ∧ (bsonIterNext it').1 = true ∧
        (bsonIterNext it).2.len = it.len ∧
        ∃ o t, Paired m m' it.len (bsonIterNext it).2 (bsonIterNext it').2 o t := by
  cases hok : (bsonIterNextInternal it).ok with
  | false => exact Or.inl ⟨hok, step_fails h agree hok⟩
  | true =>
    obtain ⟨o, t, he⟩ := element_of_next h.raw h.start h.max hok
    obtain ⟨hok', he', hnext⟩ := step_same h he agree he.covers
    have hoff : (bsonIterNext it').2.off = (bsonIterNext it).2.off := by
      rw [he'.off, h.next]
      exact he.off.symm
    exact Or.inr ⟨hok, hok', he.len, o, t, ⟨it, rfl, h.max, h.start, he⟩, ⟨it', h.len, he'⟩, hoff,
      hnext⟩

/-- The loop reads the octets of the document alone. -/
theorem readDbpointer_alike (fuel : Nat) (ns oid : Option Bytes) (h : Twin m m' it it')
    (agree : Agree m m' 0 it.len) :
    JsonDocs.readDbpointer fuel it' ns oid = JsonDocs.readDbpointer fuel it ns oid := by
  induction fuel generalizing it it' ns oid with
  | zero => rfl
  | succ fuel ih =>
    rw [JsonDocs.readDbpointer, JsonDocs.readDbpointer]
    rcases h.step (agree.mono (Nat.zero_le _) (Nat.le_refl _)) with
      ⟨hstop, hstop'⟩ | ⟨hok, hok', hlen, o, t, hpair⟩
    · simp only [hstop, hstop', if_true]
    · have hahead : Agree m m' 0 (bsonIterNext it).2.len := by
        rw [hlen]
        exact agree
      have hoff : Agree m m' (bsonIterNext it).2.off o := by
        obtain ⟨⟨it₁, hlen₁, -, -, he⟩, -⟩ := hpair
        exact agree.mono (Nat.zero_le _) (hlen₁ ▸ he.inside)
      have hkey := (hpair.alike hoff).key
      have hnext : (bsonIterNext it).2.nextOff ≤ it.len := by
        obtain ⟨⟨it₁, hlen₁, -, -, he⟩, -⟩ := hpair
        exact hlen₁ ▸ Nat.le_of_lt he.stop
      have hreturns := hpair.sameReturns
        (agree.mono (Nat.zero_le (bsonIterNext it).2.off) (Nat.le_refl it.len)) (fun _ => hnext)
        (fun ht => by
          obtain ⟨⟨it₁, hlen₁, -, -, he⟩, -⟩ := hpair
          exact hlen₁ ▸ he.covers.word ht)
      have hpoint : ∀ p, (bsonIterNext it').2.pointer p = (bsonIterNext it).2.pointer p :=
        fun p => hpair.twin.pointer hahead (Nat.zero_le p)
      simp only [hok, hok', Bool.true_eq_false, if_false, hkey, hreturns.oid, hreturns.utf8, hpoint,
        ih _ _ hpair.twin hahead]

theorem dbpointerOf_alike {b b' : BsonRef} (hmax : b.len ≤ maxLen) (hlen : b'.len = b.len)
    (h : ∀ i, i < b.len → b'.data i = b.data i) :
    JsonDocs.dbpointerOf b' = JsonDocs.dbpointerOf b := by
  have hagree : Agree b.data b'.data 0 b.len := fun i _ hi => h i hi
  unfold JsonDocs.dbpointerOf bsonIterInit
  rw [hlen]
  by_cases hshort : b.len < 5
  · rw [if_pos hshort, if_pos hshort]
  · rw [if_neg hshort, if_neg hshort]
    simp only
    have htwin : Twin b.data b'.data (BsonIter.start (some b.data) b.len)
        (BsonIter.start (some b'.data) b.len) := ⟨rfl, rfl, rfl, rfl, Nat.le_refl 4, hmax⟩
    rw [readDbpointer_alike b.len none none htwin hagree]

end Dbpointer

/-! ## Calls -/

theorem ChainsAlike.ref_small {c c' : Chain} (h : ChainsAlike c c') : c.ref.len ≤ maxLen := by
  have hroom := h.inOrder.fits.room
  have hsmall := h.inOrder.small
  have hlen : c.ref.len = c.bson.len := rfl
  unfold int32Max at hsmall
  unfold maxLen
  omega

/-- The documents of a slot. -/
inductive SlotsAlike : JsonSlot → JsonSlot → Prop
  | zeroed : SlotsAlike .zeroed .zeroed
  | document (c c' : Chain) (h : ChainsAlike c c') : SlotsAlike (.document c) (.document c')
  | unusable : SlotsAlike .unusable .unusable

/-- The open documents and those of the slots have the same octets. -/
structure DocsAlike (d d' : JsonDocs) : Prop where
  opened : List.Forall₂ (Option.Rel ChainsAlike) d.opened d'.opened
  left : ∀ slot, SlotsAlike (d.left slot) (d'.left slot)

/-- How two calls end alike. -/
inductive CallsAlike : Except JsonHalt (JsonDocs × Option (List Bytes)) →
    Except JsonHalt (JsonDocs × Option (List Bytes)) → Prop
  | error (halt : JsonHalt) : CallsAlike (.error halt) (.error halt)
  | ok (d d' : JsonDocs) (message : Option (List Bytes)) (h : DocsAlike d d') :
    CallsAlike (.ok (d, message)) (.ok (d', message))

namespace DocsAlike

variable {d d' : JsonDocs}

theorem counted (h : DocsAlike d d') : DocsAlike d.counted d'.counted := ⟨h.opened, h.left⟩

theorem setLeft (h : DocsAlike d d') (slot : Nat) {b b' : JsonSlot} (hb : SlotsAlike b b') :
    DocsAlike (d.setLeft slot b) (d'.setLeft slot b') where
  opened := h.opened
  left := by
    intro i
    unfold JsonDocs.setLeft
    simp only
    split
    · exact hb
    · exact h.left i

theorem innermost (h : DocsAlike d d') : Option.Rel ChainsAlike d.innermost d'.innermost := by
  have hopened := h.opened
  unfold JsonDocs.innermost
  generalize d.opened = os at hopened ⊢
  generalize d'.opened = os' at hopened ⊢
  cases hopened with
  | nil => exact .none
  | cons hhead htail => exact hhead

theorem tail (h : DocsAlike d d') :
    List.Forall₂ (Option.Rel ChainsAlike) d.opened.tail d'.opened.tail := by
  have hopened := h.opened
  generalize d.opened = os at hopened ⊢
  generalize d'.opened = os' at hopened ⊢
  cases hopened with
  | nil => exact .nil
  | cons hhead htail => exact htail

theorem replace (h : DocsAlike d d') {c c' : Chain} (hc : ChainsAlike c c') :
    DocsAlike (d.replace c) (d'.replace c') where
  opened := .cons (.some hc) h.tail
  left := h.left

end DocsAlike

section Exec

variable {d d' : JsonDocs}

/-- A call on the innermost documents. -/
theorem call_alike (h : DocsAlike d d') {f f' : Chain → Outcome}
    (hf : ∀ c c', ChainsAlike c c' → EndAlike ChainsAlike (f c) (f' c'))
    {onFailure : JsonDocs → JsonDocs × Option (List Bytes)}
    (hfailure : ∀ d d', DocsAlike d d' → (onFailure d').2 = (onFailure d).2 ∧
      DocsAlike (onFailure d).1 (onFailure d').1) :
    CallsAlike (d.call f onFailure) (d'.call f' onFailure) := by
  have hinner := h.innermost
  unfold JsonDocs.call
  generalize d.innermost = o at hinner ⊢
  generalize d'.innermost = o' at hinner ⊢
  cases hinner with
  | none => exact .error .wild
  | some hc =>
    have hend := hf _ _ hc
    simp only
    generalize f _ = out at hend ⊢
    generalize f' _ = out' at hend ⊢
    cases hend with
    | ok c c' hsame => exact .ok _ _ none (h.replace hsame)
    | failed c c' hsame =>
      obtain ⟨hmessage, hdocs⟩ := hfailure _ _ (h.replace hsame)
      have hpair : onFailure (d'.replace c') =
          ((onFailure (d'.replace c')).1, (onFailure (d.replace c)).2) := by
        rw [← hmessage]
      simp only
      rw [hpair]
      exact .ok _ _ _ hdocs
    | aborted => exact .error .aborted

variable (fresh fresh' : Nat → Mem)

theorem appendCode_same {c c' : Chain} (h : ChainsAlike c c') (key : Bytes) (keyLength : Int)
    (code : Bytes) :
    (Field.codeWithScope code (some c'.ref)).append key keyLength =
      (Field.codeWithScope code (some c.ref)).append key keyLength := by
  obtain ⟨hlen, hdata⟩ := h.ref
  have hslice : c'.ref.data.slice 0 c.ref.len = c.ref.data.slice 0 c.ref.len := by
    apply List.map_congr_left
    intro i hi
    rw [Nat.zero_add]
    exact hdata i (List.mem_range.mp hi)
  simp only [Field.append, bsonAppendCodeWithScope, BsonRef.pair, hlen, hslice]

/-- `bson_append_*`, of values that hand over the same octets. -/
theorem append_alike (h : DocsAlike d d') (key : Option Bytes) (keyLength : Int) {f f' : Field}
    (hf : ∀ key, (AppendCall.field key keyLength f').request =
      (AppendCall.field key keyLength f).request) (failure : Option (List Bytes)) :
    CallsAlike (d.append fresh key keyLength f failure)
      (d'.append fresh' key keyLength f' failure) := by
  cases key with
  | none => exact .error .aborted
  | some key =>
    rw [JsonDocs.append, JsonDocs.append]
    apply call_alike h
    · intro c c' hc
      have hcall := bsonAppendCall_alike fresh fresh' (.field key keyLength f) hc
      unfold bsonAppendCall at hcall ⊢
      rw [hf key]
      exact hcall
    · intro d d' h
      exact ⟨rfl, h⟩

/-- A scope is copied out of its slot. -/
theorem appendCode_alike (h : DocsAlike d d') (key : Option Bytes) (keyLength : Int)
    (code : Option Bytes) (scope : Option Nat) :
    CallsAlike (d.execCall fresh (.appendCode key keyLength code scope))
      (d'.execCall fresh' (.appendCode key keyLength code scope)) := by
  cases code with
  | none => exact .error .aborted
  | some code =>
    cases scope with
    | none => exact append_alike fresh fresh' h key keyLength (fun _ => rfl) _
    | some slot =>
      have hslot := h.left slot
      simp only [JsonDocs.execCall]
      generalize d.left slot = b at hslot ⊢
      generalize d'.left slot = b' at hslot ⊢
      cases hslot with
      | zeroed => exact .error .wild
      | unusable => exact .error .wild
      | document c c' hc =>
        apply append_alike fresh fresh' (h.setLeft slot .unusable)
        intro key
        simp only [AppendCall.request, AppendCall.keyed, appendCode_same hc]

/-- `$ref` and `$id` are looked up in the slot, octet by octet the same. -/
theorem appendDbpointer_alike (h : DocsAlike d d') (slot : Nat) (key : Option Bytes)
    (keyLength : Int) :
    CallsAlike (d.execCall fresh (.appendDbpointer slot key keyLength))
      (d'.execCall fresh' (.appendDbpointer slot key keyLength)) := by
  have hslot := h.left slot
  simp only [JsonDocs.execCall]
  generalize d.left slot = b at hslot ⊢
  generalize d'.left slot = b' at hslot ⊢
  cases hslot with
  | zeroed => exact .ok _ _ _ h
  | unusable => exact .error .wild
  | document c c' hc =>
    obtain ⟨hlen, hdata⟩ := hc.ref
    simp only [dbpointerOf_alike hc.ref_small hlen hdata]
    cases JsonDocs.dbpointerOf c.ref with
    | error message => exact .ok _ _ _ h
    | ok args => exact append_alike fresh fresh' h key keyLength (fun _ => rfl) _

theorem execCall_alike (h : DocsAlike d d') (op : JsonDocOp) :
    CallsAlike (d.execCall fresh op) (d'.execCall fresh' op) := by
  cases op with
  | append key keyLength f failure =>
    exact append_alike fresh fresh' h key keyLength (fun _ => rfl) failure
  | appendBegin childType slot key keyLength =>
    cases key with
    | none => exact .error .aborted
    | some key =>
      simp only [JsonDocs.execCall]
      apply call_alike (h.setLeft slot .unusable)
      · intro c c' hc
        exact bsonAppendBegin_alike fresh fresh' childType key keyLength hc
      · intro d d' h
        exact ⟨rfl, .cons .none h.opened, h.left⟩
  | appendEnd =>
    simp only [JsonDocs.execCall]
    apply call_alike h
    · intro c c' hc
      exact bsonAppendBsonEnd_alike hc
    · intro d d' h
      exact ⟨rfl, h⟩
  | init slot =>
    exact .ok _ _ none ⟨.cons (.some (bsonInit_alike _ _)) h.opened, (h.setLeft slot .unusable).left⟩
  | leave slot =>
    have hinner := h.innermost
    refine .ok _ _ none ⟨h.tail, (h.setLeft slot ?_).left⟩
    generalize d.innermost = o at hinner ⊢
    generalize d'.innermost = o' at hinner ⊢
    cases hinner with
    | none => exact .unusable
    | some hc => exact .document _ _ hc
  | appendCode key keyLength code scope =>
    exact appendCode_alike fresh fresh' h key keyLength code scope
  | appendDbpointer slot key keyLength =>
    exact appendDbpointer_alike fresh fresh' h slot key keyLength

end Exec

section ExecAll

variable (fresh fresh' : Nat → Nat → Mem)

theorem execAll_alike {d d' : JsonDocs} (h : DocsAlike d d') (ops : List JsonDocOp) :
    CallsAlike (d.execAll fresh ops) (d'.execAll fresh' ops) := by
  induction ops generalizing d d' with
  | nil => exact .ok _ _ none h
  | cons op ops ih =>
    have hop := execCall_alike (fresh d.calls) (fresh' d'.calls) h.counted op
    rw [JsonDocs.execAll, JsonDocs.execAll, JsonDocs.exec, JsonDocs.exec]
    generalize d.counted.execCall (fresh d.calls) op = r at hop ⊢
    generalize d'.counted.execCall (fresh' d'.calls) op = r' at hop ⊢
    cases hop with
    | error halt => exact .error halt
    | ok d d' message hdocs =>
      cases message with
      | none => exact ih hdocs
      | some message => exact .ok _ _ _ hdocs

end ExecAll

end LibBson.Source
