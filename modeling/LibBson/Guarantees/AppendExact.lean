import LibBson.Source.AppendExact

/-!
# An append is exact or does nothing

For every function of the append API, every argument and every document in any
chain of open parents. Source: bson.c:115-186, 310-565, 752-1958.
-/

set_option autoImplicit false

namespace LibBson.Guarantees
open LibBson.Library LibBson.Source

/-- The call declares the size of its element without wrapping; when it returns
true each open document has grown by that size once the children in it are ended,
and no further than `BSON_MAX_SIZE`; when it returns false nothing has changed. -/
structure ExactOrNothing (fresh : Nat → Mem) (c : Chain) (s : Step) : Prop where
  declared : ∀ args, stepArgs s = some args → args.nBytes = trueDeclared s
  grown : ∀ c', bsonStep fresh c s = .ok c' → ∀ k a b,
    endChildren fresh (closed s + k) c = .ok a → endChildren fresh (opened s + k) c' = .ok b →
      b.bson.len = a.bson.len + trueSize s ∧ b.bson.len ≤ bsonMaxSize
  kept : ∀ c', bsonStep fresh c s = .failed c' → SameDocument c c'

section Calls

variable (fresh : Nat → Mem) {c : Chain} {s : Step}

theorem end_exact (hc : c.Open) : ExactOrNothing fresh c .end := by
  refine ⟨fun args h => (by cases h), ?_, ?_⟩
  · intro c' h k a b ha hb
    have hend : bsonAppendBsonEnd c = .ok c' := h
    have hk : closed .end + k = k + 1 := Nat.add_comm 1 k
    have hk0 : opened .end + k = k := Nat.zero_add k
    rw [hk, endChildren_succ, hend] at ha
    rw [hk0] at hb
    obtain rfl := Outcome.ok.inj (ha.symm.trans hb)
    refine ⟨rfl, ?_⟩
    have hlt : ∀ n ∈ c.lengths, n < 4294967296 := fun n hn =>
      Nat.lt_of_le_of_lt (hc.lengths n hn) (by decide)
    have hword := endChildren_len fresh (k + 1) c a hc.fits.len hc.least hlt
      (by rw [endChildren_succ, hend]; exact ha)
    exact hc.lengths _ (List.mem_of_getElem? hword)
  · intro c' h
    cases c with
    | inline data len => cases h
    | alloc buf buflen realloc child parents => cases parents <;> cases h

/-- Calls that reach no `_bson_append` return with the document as it is. -/
theorem silent_exact (hc : c.Open) (hs : stepArgs s = none) (hend : s ≠ .end) :
    ExactOrNothing fresh c s := by
  have hsize := (trueSize_none hs).1
  cases s with
  | append call =>
    cases hreq : call.request with
    | append args => simp [stepArgs, hreq] at hs
    | done ret =>
      refine ⟨fun args h => (by rw [hs] at h; cases h), ?_, ?_⟩
      · intro c' h k a b ha hb
        have hsame : c' = c := by
          rw [bsonStep, bsonAppendCall, hreq] at h
          cases ret <;> cases h
          rfl
        subst hsame
        obtain rfl := Outcome.ok.inj (ha.symm.trans hb)
        have hlt : ∀ n ∈ c'.lengths, n < 4294967296 := fun n hn =>
          Nat.lt_of_le_of_lt (hc.lengths n hn) (by decide)
        have hword := endChildren_len fresh _ c' a hc.fits.len hc.least hlt ha
        rw [hsize]
        exact ⟨rfl, hc.lengths _ (List.mem_of_getElem? hword)⟩
      · intro c' h
        rw [bsonStep, bsonAppendCall, hreq] at h
        cases ret <;> cases h
        exact SameDocument.refl c
  | documentBegin key keyLength => cases hs
  | arrayBegin key keyLength => cases hs
  | «end» => exact absurd rfl hend

theorem opened_closed {args : AppendArgs} (hs : stepArgs s = some args) : closed s = 0 := by
  cases s with
  | «end» => cases hs
  | _ => rfl

theorem exact_of_admits {args : AppendArgs} (hc : c.Open) (hs : stepArgs s = some args)
    (h : Admits c s) : ExactOrNothing fresh c s := by
  obtain ⟨hlt, hroom⟩ := h
  obtain ⟨hdeclared, hsize⟩ := stepArgs_declared hs hlt
  have hout := bsonStep_outcome fresh hc hs
  refine ⟨fun args' h' => ?_, fun c' hok k a b ha hb => ?_, hout.failed⟩
  · rw [hs] at h'
    rw [← Option.some.inj h']
    exact hdeclared
  · obtain ⟨hnot, happended⟩ := hout.ok c' hok
    rw [hdeclared] at hnot
    have hbound := hroom.resolve_left hnot
    have hlen : c.bson.len + trueSize s ≤ bsonMaxSize := hbound _ (enclosing_head _ _)
    unfold bsonMaxSize at hlen
    rw [hsize] at happended
    obtain ⟨hlengths, hleast, hparents⟩ := happended.lengths (opened_le s) hc (by omega)
    have hltc : ∀ n ∈ c.lengths, n < 4294967296 := fun n hn =>
      Nat.lt_of_le_of_lt (hc.lengths n hn) (by decide)
    have hltc' : ∀ n ∈ c'.lengths, n < 4294967296 := by
      intro n hn
      rw [hlengths] at hn
      rcases List.mem_append.mp hn with hn | hn
      · rw [List.eq_of_mem_replicate hn]
        decide
      · obtain ⟨m, hm, rfl⟩ := List.mem_map.mp hn
        exact Nat.lt_of_le_of_lt (hbound m hm) (by decide)
    rw [opened_closed hs, Nat.zero_add] at ha
    have hbefore := endChildren_len fresh k c a hc.fits.len hc.least hltc ha
    have hafter := endChildren_len fresh _ c' b hleast hparents hltc' hb
    rw [hlengths, List.getElem?_append_right (by simp), List.length_replicate,
      Nat.add_sub_cancel_left, List.getElem?_map, hbefore, Option.map_some] at hafter
    have hgrown := (Option.some.inj hafter).symm
    refine ⟨hgrown, ?_⟩
    rw [hgrown]
    exact hbound _ (List.mem_of_getElem? hbefore)

theorem admits_of_exact {args : AppendArgs} (hc : c.Open) (hs : stepArgs s = some args)
    (h : ExactOrNothing fresh c s) : Admits c s := by
  have hdeclared := h.declared args hs
  have hlt : trueDeclared s < 4294967296 := by
    rw [← hdeclared]
    exact stepArgs_nBytes_lt hs
  have hout := bsonStep_outcome fresh hc hs
  refine ⟨hlt, ?_⟩
  by_cases hr : c.Refuses (trueDeclared s)
  · exact Or.inl hr
  · refine Or.inr fun n hn => ?_
    by_cases hheap : c.isInline = false ∨ opened s = 0
    · obtain ⟨c', hok⟩ := hout.accepted hheap (by rw [hdeclared]; exact hr)
      obtain ⟨k, hk, hword⟩ := List.mem_iff_getElem.mp hn
      rw [Chain.lengths, enclosing_length] at hk
      have hparents := (hout.ok c' hok).2.parents_length (opened_le s)
      obtain ⟨a, ha⟩ := endChildren_ok fresh k c (Nat.le_of_lt_succ hk)
      obtain ⟨b, hb⟩ := endChildren_ok fresh (opened s + k) c' (by omega)
      have hltc : ∀ n ∈ c.lengths, n < 4294967296 := fun n hn =>
        Nat.lt_of_le_of_lt (hc.lengths n hn) (by decide)
      have hbefore := endChildren_len fresh k c a hc.fits.len hc.least hltc ha
      have hk0 : closed s + k = k := by rw [opened_closed hs, Nat.zero_add]
      obtain ⟨hgrown, hmax⟩ := h.grown c' hok k a b (by rw [hk0]; exact ha) hb
      have hn : a.bson.len = n := by
        rw [← hword, ← Option.some.injEq, ← hbefore, List.getElem?_eq_getElem]
      omega
    · -- A begin on an inline document: it has no parents, and its check is exact.
      cases c with
      | alloc buf buflen realloc bson parents => exact absurd (Or.inl rfl) hheap
      | inline data len =>
        obtain rfl : n = len := List.mem_singleton.mp hn
        have hexact : trueDeclared s = trueSize s := by
          cases s with
          | append call => exact absurd (Or.inr rfl) hheap
          | «end» => cases hs
          | documentBegin key keyLength => rfl
          | arrayBegin key keyLength => rfl
        rw [hexact] at hr
        exact Nat.le_of_not_lt fun hgt => hr (Or.inl hgt)

end Calls

/-- For every document and every call: the call is exact or does nothing exactly
when its declared size fits 32 bits and, unless it is refused, no open document
grows beyond `BSON_MAX_SIZE`. -/
theorem append_exact_iff (fresh : Nat → Mem) (c : Chain) (s : Step) (hc : c.Open) :
    ExactOrNothing fresh c s ↔ Admits c s := by
  cases hs : stepArgs s with
  | some args => exact ⟨admits_of_exact fresh hc hs, exact_of_admits fresh hc hs⟩
  | none =>
    obtain ⟨hsize, hdeclared⟩ := trueSize_none hs
    have hadmits : Admits c s := by
      refine ⟨by omega, Or.inr fun n hn => ?_⟩
      rw [hsize]
      exact hc.lengths n hn
    have hexact : ExactOrNothing fresh c s := by
      by_cases hend : s = .end
      · rw [hend]
        exact end_exact fresh hc
      · exact silent_exact fresh hc hs hend
    exact iff_of_true hexact hadmits

theorem start_open (data : Mem) : (bsonInit data).Open :=
  ⟨⟨(by decide : 5 ≤ 5), (by decide : 0 + 5 + 0 ≤ 120 + 1), (by decide : 120 < 4611686018427387904)⟩,
    fun b hb => (by cases hb), fun n hn => by
      rw [List.mem_singleton.mp hn]
      exact (by decide : 5 ≤ bsonMaxSize)⟩

/-- `{"n": 5, "d": {"t": true`, with the child still open. -/
def openChildRun : List Step :=
  [.append (.field [110] (-1) (.int32 5)), .documentBegin [100] (-1),
    .append (.field [116] (-1) (.bool true))]

/-- An append to the open child. -/
theorem append_exact_iff_openChild :
    ∃ c, bsonSteps (fun _ _ => 0) (bsonInit fun _ => 0) openChildRun = .ok c ∧
      c.lengths = [9, 24] ∧
      ExactOrNothing (fun _ _ => 0) c (.append (.field [115] (-1) (.utf8 (some [120, 121]) (-1)))) := by
  have hrun : bsonSteps (fun _ _ => 0) (bsonInit fun _ => 0) openChildRun = .ok _ := rfl
  refine ⟨_, hrun, rfl, ?_⟩
  apply (append_exact_iff (fun _ _ => 0) _ (.append (.field [115] (-1) (.utf8 (some [120, 121]) (-1))))
    ?_).mpr
  · decide
  · refine ⟨⟨?_, ?_, ?_⟩, ?_, ?_⟩
    all_goals decide

/-- `bson_append_binary (b, "", 0, BSON_SUBTYPE_BINARY, data, 4294967289)`: an
element of `2 ^ 32` octets. -/
def hugeElement : Step := .append (.field [] 0 (.binary 0 [] 4294967289))

/-- A child at the end of a parent of `2 ^ 31 - 1` octets, in a caller's buffer
of `2 ^ 32`. -/
def fullParent (buf : Mem) : Chain :=
  .alloc buf 4294967296 true { len := 5, depth := 1, offset := 2147483641 }
    [{ len := 2147483647, depth := 0, offset := 0 }]

theorem fullParent_open (buf : Mem) : (fullParent buf).Open := by
  refine ⟨⟨(by decide : 5 ≤ 5), (by decide : 2147483641 + 5 + 1 ≤ 4294967296 + 1),
    (by decide : 4294967296 < 4611686018427387904)⟩, fun b hb => ?_, fun n hn => ?_⟩
  · rw [List.mem_singleton.mp hb]
    exact (by decide : 5 ≤ 2147483647)
  · have hn : n ∈ [5, 2147483647] := hn
    have hall : ∀ n ∈ [5, 2147483647], n ≤ bsonMaxSize := by decide
    exact hall n hn

/-- The declared size wraps to zero, so nothing refuses the call. -/
theorem hugeElement_accepted :
    ∃ c', bsonStep (fun _ _ => 0) (bsonInit fun _ => 0) hugeElement = .ok c' ∧
      c'.bson.len = 5 := by
  have hs : stepArgs hugeElement = some (bsonAppendBinary [] 0 0 [] 4294967289) := rfl
  have hnBytes : (bsonAppendBinary [] 0 0 [] 4294967289).nBytes = 0 := by decide
  have hsize : (bsonAppendBinary [] 0 0 [] 4294967289).size = 4294967296 := by
    rw [(stepArgs_spec hs).1]
    decide
  have hout := bsonStep_outcome (fun _ _ => 0) (start_open fun _ => 0) hs
  have hnot : ¬ (bsonInit fun _ => 0).Refuses (bsonAppendBinary [] 0 0 [] 4294967289).nBytes := by
    rw [hnBytes]
    rintro (h | ⟨h, -⟩)
    · exact absurd h (by decide : ¬ bsonMaxSize < 5 + 0)
    · exact absurd h (by decide : ¬ 120 < 0 + 5 + 0 + 0)
  obtain ⟨c', hok⟩ := hout.accepted (Or.inr rfl) hnot
  have happended := (hout.ok c' hok).2
  refine ⟨c', hok, ?_⟩
  rw [happended.1, hsize]
  exact (by decide : u32 (5 + 4294967296) = 5)

/-- The huge element is appended to the empty document with the result true,
and leaves it 5 octets long; `bson_append_null (child, "", 0)` makes a parent of
`2 ^ 31 + 1`. -/
theorem append_not_exact :
    (∃ c', bsonStep (fun _ _ => 0) (bsonInit fun _ => 0) hugeElement = .ok c' ∧
        c'.bson.len = 5) ∧
      ¬ ExactOrNothing (fun _ _ => 0) (bsonInit fun _ => 0) hugeElement ∧
      (fullParent fun _ => 0).Open ∧
      ¬ ExactOrNothing (fun _ _ => 0) (fullParent fun _ => 0) (.append (.field [] 0 .null)) := by
  refine ⟨hugeElement_accepted, fun h => ?_, fullParent_open _, fun h => ?_⟩
  · have hlt := (admits_of_exact _ (start_open fun _ => 0) rfl h).1
    exact absurd hlt (by decide)
  · obtain ⟨-, hroom⟩ := admits_of_exact _ (fullParent_open fun _ => 0) rfl h
    rcases hroom with (hr | ⟨hr, -⟩) | hroom
    · exact absurd hr (by decide : ¬ bsonMaxSize < 5 + 2)
    · exact absurd hr (by decide : ¬ 4294967296 < 2147483641 + 5 + 2 + 1)
    · have hlast : 2147483647 ∈ (fullParent fun _ => 0).lengths :=
        List.mem_cons_of_mem _ (List.mem_cons_self ..)
      exact absurd (hroom _ hlast) (by decide)

end LibBson.Guarantees
