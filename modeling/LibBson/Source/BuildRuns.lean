import LibBson.Source.OpenChain

/-!
# Runs of well-bracketed calls

By induction on `Builds`: a run that completes holds the elements it started
with and those the calls describe (`run_holding`); below 1 GiB it completes
(`run_success`) unless a child is begun on an inline document that fills more
than its 120 octets (`run_aborts`).
-/

set_option autoImplicit false

namespace LibBson.Source
open LibBson.Library LibBson.Spec

variable {fresh : Nat → Mem}

theorem bsonSteps_cons_ok {c c' : Chain} {s : Step} {rest : List Step} :
    bsonSteps fresh c (s :: rest) = .ok c' ↔
      ∃ c1, bsonStep fresh c s = .ok c1 ∧ bsonSteps fresh c1 rest = .ok c' := by
  rw [bsonSteps]
  cases bsonStep fresh c s <;> simp

theorem bsonSteps_append_ok {c c' : Chain} {s t : List Step} :
    bsonSteps fresh c (s ++ t) = .ok c' ↔
      ∃ c1, bsonSteps fresh c s = .ok c1 ∧ bsonSteps fresh c1 t = .ok c' := by
  induction s generalizing c with
  | nil => simp [bsonSteps]
  | cons a s ih =>
    rw [List.cons_append, bsonSteps_cons_ok]
    constructor
    · rintro ⟨c1, h1, h2⟩
      obtain ⟨c2, h3, h4⟩ := ih.mp h2
      exact ⟨c2, bsonSteps_cons_ok.mpr ⟨c1, h1, h3⟩, h4⟩
    · rintro ⟨c2, h1, h2⟩
      obtain ⟨c1, h3, h4⟩ := bsonSteps_cons_ok.mp h1
      exact ⟨c1, h3, ih.mpr ⟨c2, h4, h2⟩⟩

/-- What one call appends, by the document it describes. -/
theorem callMeans_cases {call : AppendCall} {d : Doc} (h : CallMeans call d)
    (hsize : d.body.length ≤ 2147483648) :
    (call.request = .done true ∧ d = .nil ∧ stepSize (.append call) = 0) ∨
    ∃ args, call.request = .append args ∧ stepArgs (.append call) = some args ∧
      args.bytes = d.body ∧ stepSize (.append call) ≠ 0 := by
  cases h with
  | keyed _ key keyLength f k v hk hkey hv =>
    obtain ⟨hargs, hstep, -⟩ := keyed_call hk
    have hbody : (Doc.cons k v .nil).body = header v.type k ++ v.encode := by
      simp [Doc.body_cons]
    rw [hbody] at hsize ⊢
    refine Or.inr ⟨f.append key keyLength, ?_, hargs, append_bytes hkey hv hsize, ?_⟩
    · cases call <;> first | cases hk; done | simp [AppendCall.request, hk]
    · rw [hstep, elementSize]
      omega
  | concat src _ h =>
    have hlen := h.len_body
    have hsub : u32sub src.len 5 = d.body.length := by
      rw [u32sub_of_le (by omega) (by omega)]
      omega
    cases he : bsonEmpty src with
    | true =>
      have hnil := (bsonEmpty_iff h).mp he
      subst hnil
      refine Or.inl ⟨by simp [AppendCall.request, he], rfl, ?_⟩
      simpa [stepSize] using hsub
    | false =>
      have hne : d ≠ .nil := fun hnil => by
        rw [(bsonEmpty_iff h).mpr hnil] at he
        cases he
      refine Or.inr ⟨bsonConcat src, by simp [AppendCall.request, he],
        by simp [stepArgs, AppendCall.request, he], concat_bytes h (by omega), ?_⟩
      simp only [stepSize, hsub]
      cases d with
      | nil => exact absurd rfl hne
      | cons k v rest => simp [Doc.body_cons]

/-- Declared and true size of a call's append, at sizes that fit a length word. -/
theorem call_sizes {call : AppendCall} {d : Doc} {args : AppendArgs}
    (hstep : stepArgs (.append call) = some args) (hb : args.bytes = d.body)
    (hsize : d.body.length ≤ 2147483648) :
    args.size = d.body.length ∧ stepSize (.append call) = d.body.length ∧
      args.nBytes = declaredSize (.append call) ∧ args.nBytes ≤ args.size ∧
      args.size ≤ args.nBytes + 1 := by
  obtain ⟨h1, h2, h3⟩ := stepArgs_spec hstep
  have hbytes := args.bytes_length
  rw [hb] at hbytes
  unfold declaredSize
  cases hr : appendsRegex (.append call) with
  | false =>
    have hn := h2 hr
    rw [u32_of_lt (by omega)] at hn
    simp only [Bool.false_eq_true, if_false]
    omega
  | true =>
    obtain ⟨hpos, hn⟩ := h3 hr
    rw [u32_of_lt (by omega)] at hn
    simp only [if_true]
    omega

/-- A call that returns true adds the fields it describes. -/
theorem bsonAppendCall_ok {c c' : Chain} {body : Bytes} {call : AppendCall} {d : Doc}
    (hm : CallMeans call d) (h : bsonAppendCall fresh c call = .ok c') (hold : Holding c body)
    (hsize : body.length + d.body.length + 5 ≤ 2147483648) :
    Holding c' (body ++ d.body) ∧ SameSpot c c' := by
  have hlen := hold.len
  rcases callMeans_cases hm (by omega) with ⟨hreq, rfl, -⟩ | ⟨args, hreq, hstep, hb, -⟩
  · simp only [bsonAppendCall, hreq, Outcome.ok.injEq] at h
    subst h
    simpa using ⟨hold, SameSpot.refl c⟩
  · obtain ⟨h1, -, -, h4, h5⟩ := call_sizes hstep hb (by omega)
    simp only [bsonAppendCall, hreq] at h
    rw [← hb]
    exact bsonAppendInternal_ok h hold.toCarries h5 (by omega) (by omega)

/-- What happens inside a child leaves its parent's octets in front of it. -/
theorem ChildOf.sameSpot {p c c' : Chain} {pre : Bytes} (h : ChildOf p c pre)
    (hs : SameSpot c c') : ChildOf p c' pre where
  parents := hs.parents.trans h.parents
  offset := hs.offset.trans h.offset
  depth := hs.depth.trans h.depth
  before := fun i hi => by
    rw [hs.before i (by rw [h.offset]; omega)]
    exact h.before i hi
  elements := h.elements.congr fun i hi => hs.before _ (by rw [h.offset]; omega)

/-- A begin, the run of the child and the end add one element. -/
theorem child_holding {c c1 c2 c3 : Chain} {body inner : Bytes} {t : BsonType} {key : Bytes}
    {keyLength : Int} {k : CStr} (hkey : k.bytes = textOf key keyLength)
    (hbegin : bsonAppendBegin fresh t key keyLength c = .ok c1) (hold : Holding c body)
    (hrun : Holding c1 [] → Holding c2 inner ∧ SameSpot c1 c2)
    (hend : bsonAppendBsonEnd c2 = .ok c3)
    (hsize : body.length + (k.bytes.length + 2 + (inner.length + 5)) + 5 ≤ 2147483648) :
    Holding c3 (body ++ (header t k ++ frame inner)) ∧ SameSpot c c3 := by
  obtain ⟨hopen, hof⟩ := bsonAppendBegin_ok hbegin hold.toCarries hkey (by omega)
  obtain ⟨hinner, hs⟩ := hrun hopen
  obtain ⟨hh, hs3, -⟩ := bsonAppendBsonEnd_ok hend hinner (hof.sameSpot hs)
    (by rw [List.length_append, header_length]; omega) hold.root
  rw [List.append_assoc] at hh
  exact ⟨hh, hs3⟩

/-- A completed run holds what the calls describe, behind what it started with. -/
theorem run_holding {steps : List Step} {d : Doc} (hb : Builds steps d) :
    ∀ (c c' : Chain) (body : Bytes), bsonSteps fresh c steps = .ok c' → Holding c body →
      body.length + d.body.length + 5 ≤ 2147483648 →
      Holding c' (body ++ d.body) ∧ SameSpot c c' := by
  induction hb with
  | nil =>
    intro c c' body h hold _
    cases h
    simpa using ⟨hold, SameSpot.refl c⟩
  | append call d steps e hm _ ih =>
    intro c c' body h hold hsize
    rw [Doc.body_append, List.length_append] at hsize
    obtain ⟨c1, h1, h2⟩ := bsonSteps_cons_ok.mp h
    obtain ⟨hold1, hs1⟩ := bsonAppendCall_ok hm h1 hold (by omega)
    obtain ⟨hold2, hs2⟩ := ih c1 c' _ h2 hold1 (by rw [List.length_append]; omega)
    rw [List.append_assoc, ← Doc.body_append] at hold2
    exact ⟨hold2, hs1.trans hs2⟩
  | document key keyLength k inner d steps e hkey _ _ ihc ihr
  | array key keyLength k inner d steps e hkey _ _ ihc ihr =>
    intro c c' body h hold hsize
    obtain ⟨c1, h1, h2⟩ := bsonSteps_cons_ok.mp h
    obtain ⟨c2, h3, h4⟩ := bsonSteps_append_ok.mp h2
    obtain ⟨c3, h5, h6⟩ := bsonSteps_cons_ok.mp h4
    simp only [Doc.body_cons, Value.encode, List.length_append, header_length, frame_length]
      at hsize
    obtain ⟨hold3, hs3⟩ := child_holding hkey h1 hold
      (fun ho => by simpa using ihc c1 c2 [] h3 ho (by simp; omega)) h5 (by omega)
    obtain ⟨hold4, hs4⟩ := ihr c3 c' _ h6 hold3
      (by simp only [List.length_append, header_length, frame_length]; omega)
    simp only [Doc.body_cons, Value.encode]
    rw [List.append_assoc, List.append_assoc] at hold4
    exact ⟨hold4, hs3.trans hs4⟩

/-! ## Completion -/

/-- Below 1 GiB a call returns true. -/
theorem bsonAppendCall_success (fresh : Nat → Mem) {c : Chain} {body : Bytes} {call : AppendCall} {d : Doc}
    (hm : CallMeans call d) (hold : Holding c body) (hgrow : c.growable = true)
    (hsize : c.bson.offset + (body.length + d.body.length + 5) + c.bson.depth ≤ 1073741824) :
    ∃ c', bsonAppendCall fresh c call = .ok c' ∧ c'.growable = true ∧
      c'.isInline = (c.isInline &&
        (stepSize (.append call) = 0 || c.bson.len + declaredSize (.append call) ≤ 120)) ∧
      d.body.length = stepSize (.append call) := by
  have hlen := hold.len
  rcases callMeans_cases hm (by omega) with ⟨hreq, rfl, hz⟩ | ⟨args, hreq, hstep, hb, hnz⟩
  · exact ⟨c, by simp only [bsonAppendCall, hreq], hgrow, by simp [hz], by simp [hz]⟩
  · obtain ⟨h1, h2, h3, h4, h5⟩ := call_sizes hstep hb (by omega)
    obtain ⟨c', hok, hg, hi⟩ := bsonAppendInternal_success fresh args
      hold.toCarries hgrow (by omega)
    refine ⟨c', by simp only [bsonAppendCall, hreq, hok], hg, ?_, h2.symm⟩
    rw [hi, h3]
    simp [hnz]

/-- The sizes of the calls alone: a child is begun while the document is inline
and longer than its 120 octets. -/
def beginsFull : Nat → List Step → Bool
  | _, [] => false
  | len, .append call :: rest =>
    if stepSize (.append call) = 0 then beginsFull len rest
    else if len + declaredSize (.append call) ≤ 120 then
      beginsFull (len + stepSize (.append call)) rest
    else false
  | len, .documentBegin .. :: _ => len > 120
  | len, .arrayBegin .. :: _ => len > 120
  | _, .end :: _ => false

theorem isInline_of_parents {c : Chain} {p : Impl} {ps : List Impl} (h : c.parents = p :: ps) :
    c.isInline = false := by
  cases c with
  | inline data len => cases h
  | alloc buf buflen realloc bson parents => rfl

/-- An open child can be ended. -/
theorem bsonAppendBsonEnd_success {c : Chain} {p : Impl} {ps : List Impl}
    (h : c.parents = p :: ps) :
    ∃ c', bsonAppendBsonEnd c = .ok c' ∧ c'.growable = c.growable ∧ c'.isInline = false := by
  cases c with
  | inline data len => cases h
  | alloc buf buflen realloc bson parents =>
    have hp : parents = p :: ps := h
    subst hp
    exact ⟨_, rfl, rfl, rfl⟩

/-- What a run below 1 GiB is expected to do from a given state. -/
def Completes (fresh : Nat → Mem) (steps : List Step) (d : Doc) : Prop :=
  ∀ (c : Chain) (body : Bytes), Holding c body → c.growable = true →
    c.bson.offset + (body.length + d.body.length + 5) + c.bson.depth ≤ 1073741824 →
    ¬ (c.isInline = true ∧ beginsFull c.bson.len steps = true) →
    ∃ c', bsonSteps fresh c steps = .ok c' ∧ c'.growable = true

/-- A child whose own run completes can be begun, filled and ended. -/
theorem child_success {c : Chain} {body : Bytes} {t : BsonType} {key : Bytes} {keyLength : Int}
    {k : CStr} {inner : List Step} {d : Doc} (hkey : k.bytes = textOf key keyLength)
    (hc : Builds inner d) (ihc : Completes fresh inner d) (hold : Holding c body)
    (hgrow : c.growable = true) (hinline : ¬ (c.isInline = true ∧ c.bson.len > 120))
    (hsize : c.bson.offset + (body.length + (k.bytes.length + 2 + (d.body.length + 5)) + 5) +
      c.bson.depth ≤ 1073741824) :
    ∃ c1 c2 c3, bsonAppendBegin fresh t key keyLength c = .ok c1 ∧
      bsonSteps fresh c1 inner = .ok c2 ∧ bsonAppendBsonEnd c2 = .ok c3 ∧
      Holding c3 (body ++ (header t k ++ frame d.body)) ∧ SameSpot c c3 ∧
      c3.growable = true ∧ c3.isInline = false := by
  have hlen := hold.len
  obtain ⟨c1, h1, hg1⟩ := bsonAppendBegin_success fresh t hold.toCarries hgrow
    hinline hkey (by omega)
  obtain ⟨hopen, hof⟩ := bsonAppendBegin_ok h1 hold.toCarries hkey (by omega)
  have hin1 := isInline_of_parents hof.parents
  obtain ⟨c2, h2, hg2⟩ := ihc c1 [] hopen hg1
    (by rw [hof.offset, hof.depth, List.length_append, header_length, List.length_nil]; omega)
    (by rw [hin1]; simp)
  obtain ⟨hinner, hs2⟩ := run_holding hc c1 c2 [] h2 hopen (by rw [List.length_nil]; omega)
  obtain ⟨c3, h3, hg3, hin3⟩ := bsonAppendBsonEnd_success (hs2.parents.trans hof.parents)
  rw [List.nil_append] at hinner
  obtain ⟨hold3, hs3⟩ := child_holding hkey h1 hold (fun _ => ⟨hinner, hs2⟩) h3 (by omega)
  exact ⟨c1, c2, c3, h1, h2, h3, hold3, hs3, hg3.trans hg2, hin3⟩

/-- A run below 1 GiB completes, unless it begins a child on a full inline document. -/
theorem run_success (fresh : Nat → Mem) {steps : List Step} {d : Doc} (hb : Builds steps d) :
    Completes fresh steps d := by
  induction hb with
  | nil =>
    intro c body _ hgrow _ _
    exact ⟨c, rfl, hgrow⟩
  | append call d steps e hm _ ih =>
    intro c body hold hgrow hsize hfull
    rw [Doc.body_append, List.length_append] at hsize
    obtain ⟨c1, h1, hg1, hi1, hd⟩ := bsonAppendCall_success fresh hm hold hgrow
      (by omega)
    obtain ⟨hold1, hs1⟩ := bsonAppendCall_ok hm h1 hold (by omega)
    have hlen := hold.len
    have hlen1 := hold1.len
    rw [List.length_append] at hlen1
    have hlenc : c1.bson.len = c.bson.len + stepSize (.append call) := by omega
    have hrest : ¬ (c1.isInline = true ∧ beginsFull c1.bson.len steps = true) := by
      rintro ⟨hin, hbf⟩
      rw [hi1, Bool.and_eq_true] at hin
      refine hfull ⟨hin.1, ?_⟩
      rw [beginsFull]
      split
      · next hz => rwa [hlenc, hz, Nat.add_zero] at hbf
      · next hnz =>
        have hdecl : c.bson.len + declaredSize (.append call) ≤ 120 := by
          simpa [hnz] using hin.2
        rwa [if_pos hdecl, ← hlenc]
    obtain ⟨c2, h2, hg2⟩ := ih c1 _ hold1 hg1
      (by rw [hs1.offset, hs1.depth, List.length_append]; omega) hrest
    exact ⟨c2, bsonSteps_cons_ok.mpr ⟨c1, h1, h2⟩, hg2⟩
  | document key keyLength k inner d steps e hkey hc _ ihc ihr
  | array key keyLength k inner d steps e hkey hc _ ihc ihr =>
    intro c body hold hgrow hsize hfull
    simp only [Doc.body_cons, Value.encode, List.length_append, header_length, frame_length]
      at hsize
    obtain ⟨c1, c2, c3, h1, h2, h3, hold3, hs3, hg3, hin3⟩ := child_success hkey hc ihc hold hgrow
      (fun hn => hfull ⟨hn.1, by simpa [beginsFull] using hn.2⟩) (by omega)
    obtain ⟨c4, h4, hg4⟩ := ihr c3 _ hold3 hg3
      (by
        rw [hs3.offset, hs3.depth]
        simp only [List.length_append, header_length, frame_length]
        omega)
      (by rw [hin3]; simp)
    exact ⟨c4, bsonSteps_cons_ok.mpr ⟨c1, h1, bsonSteps_append_ok.mpr
      ⟨c2, h2, bsonSteps_cons_ok.mpr ⟨c3, h3, h4⟩⟩⟩, hg4⟩

/-- Beginning a child on a full inline document fails an assertion. -/
theorem run_aborts {steps : List Step} {d : Doc} (hb : Builds steps d) :
    ∀ (c : Chain) (body : Bytes), Holding c body → c.growable = true →
      c.bson.offset + (body.length + d.body.length + 5) + c.bson.depth ≤ 1073741824 →
      c.isInline = true → beginsFull c.bson.len steps = true →
      bsonSteps fresh c steps = .aborted := by
  induction hb with
  | nil =>
    intro c body _ _ _ _ hbf
    cases hbf
  | append call d steps e hm _ ih =>
    intro c body hold hgrow hsize hin hbf
    rw [Doc.body_append, List.length_append] at hsize
    obtain ⟨c1, h1, hg1, hi1, hd⟩ := bsonAppendCall_success fresh hm hold hgrow
      (by omega)
    obtain ⟨hold1, hs1⟩ := bsonAppendCall_ok hm h1 hold (by omega)
    have hlen := hold.len
    have hlen1 := hold1.len
    rw [List.length_append] at hlen1
    have hlenc : c1.bson.len = c.bson.len + stepSize (.append call) := by omega
    have hrest : c1.isInline = true ∧ beginsFull c1.bson.len steps = true := by
      rw [beginsFull] at hbf
      rw [hi1, hin, hlenc]
      split at hbf
      · next hz => exact ⟨by simp [hz], by rwa [hz, Nat.add_zero]⟩
      · split at hbf
        · next hdecl => exact ⟨by simp [hdecl], hbf⟩
        · cases hbf
    rw [bsonSteps]
    simp only [bsonStep, h1]
    exact ih c1 _ hold1 hg1 (by rw [hs1.offset, hs1.depth, List.length_append]; omega) hrest.1
      hrest.2
  | document key keyLength k inner d steps e hkey hc _ ihc ihr
  | array key keyLength k inner d steps e hkey hc _ ihc ihr =>
    intro c body _ _ _ hin hbf
    have hfull : c.bson.len > 120 := by simpa [beginsFull] using hbf
    simp [bsonSteps, bsonStep, bsonAppendBegin_eq, hin, hfull]

end LibBson.Source
