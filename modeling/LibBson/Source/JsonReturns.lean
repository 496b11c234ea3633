import LibBson.Source.JsonSteady

/-!
# A callback returns

What it takes for a callback to return to a steady state with its documents in
place: appends under a key, and frames pushed and popped with the calls that open
and close their documents. Source: bson-json.c:278-378, 544-711.
-/

set_option autoImplicit false

namespace LibBson.Source
open LibBson.Library

theorem execAll_append (fresh : Nat → Nat → Mem) {d d' : JsonDocs} {ops : List JsonDocOp}
    (h : d.execAll fresh ops = .ok (d', none)) (more : List JsonDocOp) :
    d.execAll fresh (ops ++ more) = d'.execAll fresh more := by
  induction ops generalizing d with
  | nil =>
    cases h
    rfl
  | cons op ops ih =>
    rw [List.cons_append, JsonDocs.execAll]
    rw [JsonDocs.execAll] at h
    split at h
    · cases h
    · next hop => exact ih h
    · cases h

theorem execAll_one (fresh : Nat → Nat → Mem) {d d' : JsonDocs} {op : JsonDocOp}
    {m : Option (List Bytes)} (h : d.exec fresh op = .ok (d', m)) :
    d.execAll fresh [op] = .ok (d', m) := by
  rw [JsonDocs.execAll, h]
  cases m <;> rfl

section Returns

variable (fresh : Nat → Nat → Mem) (u : Prop)

/-- A callback returns. Unless it sets an error its state is steady, the documents are
those of the stack, and a document is not started only if `u` holds. -/
def Returns (d : JsonDocs) (r : JsonReaction) : Prop :=
  ∃ s ops d' m, r = .done s ops ∧ d.execAll fresh ops = .ok (d', m) ∧
    (m = none → s.error = none → s.Steady ∧ d'.Placed s.children ∧ (s.Unstarted → u))

namespace JsonReaderBson

variable {fresh u} {s : JsonReaderBson} {d : JsonDocs}

theorem returns_quiet (h : s.Steady) (hp : d.Placed s.children) (hu : s.Unstarted → u) :
    Returns fresh u d s.quiet :=
  ⟨s, [], d, none, rfl, rfl, fun _ _ => ⟨h, hp, hu⟩⟩

theorem returns_error (h : s.error.isSome = true) : Returns fresh u d s.quiet := by
  refine ⟨s, [], d, none, rfl, rfl, fun _ hnone => ?_⟩
  rw [hnone] at h
  cases h

/-- A callback that changes nothing the invariant speaks of. -/
theorem returns_same {s' : JsonReaderBson} (h : s.Steady) (hp : d.Placed s.children)
    (hsame : SameFrames s s') (hu : s.Unstarted → u) : Returns fresh u d s'.quiet := by
  apply returns_quiet (hsame.steady h)
  · rw [hsame.children]
    exact hp
  · intro hstart
    apply hu
    unfold Unstarted at hstart ⊢
    rw [← hsame.depth, ← hsame.readState]
    exact hstart

theorem returns_after {ops : List JsonDocOp} {d' : JsonDocs} {r : JsonReaction}
    (hops : d.execAll fresh ops = .ok (d', none)) (h : Returns fresh u d' r) :
    Returns fresh u d (r.after ops) := by
  obtain ⟨s, more, d1, m, rfl, hmore, hpost⟩ := h
  exact ⟨s, ops ++ more, d1, m, rfl, (execAll_append fresh hops more).trans hmore, hpost⟩

theorem unstarted_of_depth (h : 0 < s.depth) : s.Unstarted → u :=
  fun hstart => absurd hstart.1 (Nat.ne_of_gt h)

theorem unstarted_of_state (h : s.readState ≠ .regular) : s.Unstarted → u :=
  fun hstart => absurd hstart.2 h

/-! ## Appends -/

theorem keyPointer_some (h : s.key.isSome) : ∃ key, s.keyPointer = some key := by
  unfold keyPointer
  cases hkey : s.key with
  | none =>
    rw [hkey] at h
    cases h
  | some key => cases key <;> exact ⟨_, rfl⟩

/-- A call that keeps the number of open children, in front of a steady state. -/
theorem returns_call (h : s.Steady) (hp : d.Placed s.children) (hdepth : 0 < s.depth)
    {op : JsonDocOp}
    (hop : ∀ n ns, d.Placed (n :: ns) →
      ∃ d' m, d.exec fresh op = .ok (d', m) ∧ d'.Placed (n :: ns)) :
    Returns fresh u d (.done s [op]) := by
  obtain ⟨n, ns, hchildren⟩ := openChildren_cons s.stack s.depth
  have hcons : s.children = n :: ns := hchildren
  rw [hcons] at hp
  obtain ⟨d', m, hexec, hplaced⟩ := hop n ns hp
  refine ⟨s, [op], d', m, rfl, execAll_one fresh hexec, fun _ _ => ?_⟩
  rw [hcons]
  exact ⟨h, hplaced, unstarted_of_depth hdepth⟩

theorem returns_appended (h : s.Steady) (hp : d.Placed s.children) (hdepth : 0 < s.depth)
    (hkey : s.key.isSome) (f : Field) (failure : Option (List Bytes)) :
    Returns fresh u d (.done s [.append s.keyPointer s.keyLength f failure]) := by
  obtain ⟨key, hpointer⟩ := keyPointer_some hkey
  rw [hpointer]
  exact returns_call h hp hdepth fun n ns hplaced =>
    JsonDocs.append_returns hplaced.counted _ key s.keyLength f failure

theorem append_returns (h : s.Steady) (hp : d.Placed s.children) (hdepth : 0 < s.depth)
    (hkey : s.key.isSome) (f : Field) : Returns fresh u d (s.append f) := by
  unfold append
  rw [if_neg (Nat.ne_of_gt hdepth)]
  exact returns_appended h hp hdepth hkey f none

theorem appendOr_returns (h : s.Steady) (hp : d.Placed s.children) (hdepth : 0 < s.depth)
    (hkey : s.key.isSome) (f : Field) (failure : List Bytes) :
    Returns fresh u d (s.appendOr f failure) := by
  unfold appendOr
  rw [if_neg (Nat.ne_of_gt hdepth)]
  exact returns_appended h hp hdepth hkey f (some failure)

/-! ## Frames -/

/-- A child of the innermost document can be begun under the current key. -/
def RoomForChild (d : JsonDocs) (s : JsonReaderBson) : Prop :=
  ∀ c key, d.innermost = some c → s.keyPointer = some key → c.roomForChild key s.keyLength

/-- What a push does before what follows it. -/
theorem stackPush_returns {frame : JsonStackFrame → JsonStackFrame} {statement : JsonDocOp}
    {next : JsonReaderBson → List JsonDocOp → JsonReaction} {s : JsonReaderBson}
    (hp : d.Placed s.children)
    (hstatement : 0 < s.depth → s.depth < stackMax → ∃ d', d.exec fresh statement = .ok (d', none) ∧
      d'.Placed (openFrame (frame (s.stack s.depth)).type s.children))
    (hfull : 0 < s.depth → s.Steady)
    (hnext : ∀ ops d', d.execAll fresh ops = .ok (d', none) → d'.Placed (s.pushed frame).children →
      Returns fresh u d (next (s.pushed frame) ops)) :
    Returns fresh u d (s.stackPush frame statement next) := by
  rw [stackPush_eq]
  split
  · next hmax =>
    have hdepth : 0 < s.depth := Nat.lt_of_lt_of_le (by decide) hmax
    exact returns_quiet (hfull hdepth) hp (unstarted_of_depth hdepth)
  · next hmax =>
    split
    · next hzero =>
      apply hnext [] d rfl
      rw [pushed_first s frame hzero]
      exact hp
    · next hzero =>
      have hdepth := Nat.pos_of_ne_zero hzero
      obtain ⟨d', hexec, hplaced⟩ := hstatement hdepth (Nat.not_le.mp hmax)
      apply hnext [statement] d' (execAll_one fresh hexec)
      rw [pushed_children s frame hdepth]
      exact hplaced

/-- A child is begun unless it is the first frame. -/
theorem begin_statement (hp : d.Placed s.children) (hkey : 0 < s.depth → s.key.isSome)
    (hroom : 0 < s.depth → s.depth < stackMax → RoomForChild d s) (t : BsonType)
    {type : JsonFrameType} (htype : type = .doc ∨ type = .array) (hdepth : 0 < s.depth)
    (hmax : s.depth < stackMax) :
    ∃ d', d.exec fresh (.appendBegin t s.depth s.keyPointer s.keyLength) = .ok (d', none) ∧
      d'.Placed (openFrame type s.children) := by
  obtain ⟨key, hpointer⟩ := keyPointer_some (hkey hdepth)
  obtain ⟨n, ns, hchildren⟩ := openChildren_cons s.stack s.depth
  have hcons : s.children = n :: ns := hchildren
  have hopen : openFrame type s.children = (n + 1) :: ns := by
    rw [hcons]
    rcases htype with htype | htype <;> rw [htype] <;> rfl
  rw [hcons] at hp
  rw [hopen, hpointer]
  exact JsonDocs.begin_returns hp t s.depth fun c hc => hroom hdepth hmax c key hc hpointer

/-- What is behind a push. -/
structure Entered (type : JsonFrameType) (s s' : JsonReaderBson) : Prop where
  depth : s'.depth = s.depth + 1
  top : s'.top.type = type
  readState : s'.readState = s.readState
  key : s'.key = s.key
  framed : s'.Framed

theorem Entered.depth_pos {type : JsonFrameType} {s s' : JsonReaderBson} (h : Entered type s s') :
    0 < s'.depth := by
  rw [h.depth]
  exact Nat.succ_pos _

theorem pushDoc_returns {next : JsonReaderBson → List JsonDocOp → JsonReaction}
    (h : s.Framed) (hp : d.Placed s.children) (hkey : 0 < s.depth → s.key.isSome)
    (hroom : 0 < s.depth → s.depth < stackMax → RoomForChild d s)
    (hnext : ∀ s' ops d', Entered .doc s s' → d.execAll fresh ops = .ok (d', none) →
      d'.Placed s'.children → Returns fresh u d (next s' ops)) :
    Returns fresh u d (s.pushDoc next) :=
  stackPush_returns hp (begin_statement hp hkey hroom .document (Or.inl rfl))
    (fun hdepth => h.steady hdepth (hkey hdepth)) fun ops d' hops hplaced =>
      hnext _ ops d' ⟨rfl, congrArg JsonStackFrame.type (pushed_top s _), rfl, rfl,
        h.pushed _ (fun _ => Or.inl rfl) fun htype => (nomatch htype)⟩ hops hplaced

theorem pushArray_returns {next : JsonReaderBson → List JsonDocOp → JsonReaction}
    (h : s.Framed) (hp : d.Placed s.children) (hkey : 0 < s.depth → s.key.isSome)
    (hroom : 0 < s.depth → s.depth < stackMax → RoomForChild d s)
    (hnext : ∀ s' ops d', Entered .array s s' → d.execAll fresh ops = .ok (d', none) →
      d'.Placed s'.children → Returns fresh u d (next s' ops)) :
    Returns fresh u d (s.pushArray next) :=
  stackPush_returns hp (begin_statement hp hkey hroom .array (Or.inr rfl))
    (fun hdepth => h.steady hdepth (hkey hdepth)) fun ops d' hops hplaced =>
      hnext _ ops d' ⟨rfl, congrArg JsonStackFrame.type (pushed_top s _), rfl, rfl,
        h.pushed _ (fun _ => Or.inr rfl) fun htype => (nomatch htype)⟩ hops hplaced

/-- A document of its own, on a frame that is not the first. -/
theorem pushScope_returns {next : JsonReaderBson → List JsonDocOp → JsonReaction}
    (h : s.Framed) (hp : d.Placed s.children) (hdepth : 0 < s.depth) (hkey : s.key.isSome)
    (hnext : ∀ s' ops d', Entered .scope s s' → d.execAll fresh ops = .ok (d', none) →
      d'.Placed s'.children → Returns fresh u d (next s' ops)) :
    Returns fresh u d (s.pushScope next) := by
  apply stackPush_returns hp (fun _ _ => JsonDocs.init_returns hp s.depth)
    fun _ => h.steady hdepth hkey
  intro ops d' hops hplaced
  have hframed := h.pushed (fun f => { f with type := .scope })
    (fun hzero => absurd hzero (Nat.ne_of_gt hdepth)) fun htype => (nomatch htype)
  have htop : (s.pushed fun f => { f with type := .scope }).top.type = .scope :=
    congrArg JsonStackFrame.type (pushed_top s _)
  exact hnext _ ops d' ⟨rfl, htop, rfl, rfl, hframed.scoped true⟩ hops hplaced

theorem pushDbpointer_returns {next : JsonReaderBson → List JsonDocOp → JsonReaction}
    (h : s.Framed) (hp : d.Placed s.children) (hdepth : 0 < s.depth) (hkey : s.key.isSome)
    (hpointer : s.dbpointerKey.nBytes ≠ 0)
    (hnext : ∀ s' ops d', Entered .dbpointer s s' → d.execAll fresh ops = .ok (d', none) →
      d'.Placed s'.children → Returns fresh u d (next s' ops)) :
    Returns fresh u d (s.pushDbpointer next) :=
  stackPush_returns hp (fun _ _ => JsonDocs.init_returns hp s.depth)
    (fun _ => h.steady hdepth hkey) fun ops d' hops hplaced =>
      hnext _ ops d' ⟨rfl, congrArg JsonStackFrame.type (pushed_top s _), rfl, rfl,
        h.pushed _ (fun hzero => absurd hzero (Nat.ne_of_gt hdepth)) fun _ => hpointer⟩ hops hplaced

/-- A frame that is popped closes its child or leaves its document. -/
theorem stackPop_returns {d0 : JsonDocs} {allowed : JsonFrameType → Bool} {statement : JsonDocOp}
    {next : JsonReaderBson → List JsonDocOp → JsonReaction} (hp : d.Placed s.children)
    (hdepth : 0 < s.depth) (hallowed : allowed s.top.type = true)
    (hstatement : ∀ n ns, d.Placed (openFrame s.top.type (n :: ns)) →
      ∃ d', d.exec fresh statement = .ok (d', none) ∧ d'.Placed (n :: ns))
    (hnext : ∀ ops d', d.execAll fresh ops = .ok (d', none) →
      d'.Placed (openChildren s.stack (s.depth - 1)) →
      Returns fresh u d0 (next { s with depth := s.depth - 1 } ops)) :
    Returns fresh u d0 (s.stackPop allowed statement next) := by
  have hrefused : ¬ (allowed s.top.type = false ∨ s.depth = 0) := by
    rintro (hfalse | hzero)
    · rw [hallowed] at hfalse
      cases hfalse
    · exact Nat.ne_of_gt hdepth hzero
  unfold stackPop
  rw [if_neg hrefused]
  by_cases hone : s.depth = 1
  · rw [if_pos hone]
    apply hnext [] d rfl
    unfold children at hp
    rw [hone] at hp ⊢
    exact hp
  · rw [if_neg hone]
    have hsucc := openChildren_succ s.stack (n := s.depth - 1) (by omega)
    rw [Nat.sub_add_cancel hdepth] at hsucc
    obtain ⟨n, ns, hcons⟩ := openChildren_cons s.stack (s.depth - 1)
    unfold children at hp
    rw [hsucc, hcons] at hp
    obtain ⟨d', hexec, hplaced⟩ := hstatement n ns hp
    rw [hcons] at hnext
    exact hnext [statement] d' (execAll_one fresh hexec) hplaced

/-- `appendEnd` closes the child of a map or an array. -/
theorem end_statement {type : JsonFrameType} (htype : type = .doc ∨ type = .array) (n : Nat)
    (ns : List Nat) (hp : d.Placed (openFrame type (n :: ns))) :
    ∃ d', d.exec fresh .appendEnd = .ok (d', none) ∧ d'.Placed (n :: ns) := by
  rcases htype with htype | htype <;> rw [htype] at hp <;> exact JsonDocs.end_returns hp

/-- `leave` leaves the document of a scope or a DBPointer. -/
theorem leave_statement (slot : Nat) {type : JsonFrameType}
    (htype : type = .scope ∨ type = .dbpointer) (n : Nat) (ns : List Nat)
    (hp : d.Placed (openFrame type (n :: ns))) :
    ∃ d', d.exec fresh (.leave slot) = .ok (d', none) ∧ d'.Placed (n :: ns) := by
  rcases htype with htype | htype <;> rw [htype] at hp <;> exact JsonDocs.leave_returns hp slot

/-- Behind the last frame the document is done. -/
theorem finish_returns {ops : List JsonDocOp} {d' : JsonDocs} (h : s.Framed)
    (hops : d.execAll fresh ops = .ok (d', none)) (hp : d'.Placed s.children)
    (hkey : 0 < s.depth → s.key.isSome) : Returns fresh u d (.done s.finishIfEmpty ops) := by
  refine ⟨_, ops, d', none, rfl, hops, fun _ _ => ?_⟩
  unfold finishIfEmpty
  split
  · next hzero =>
    refine ⟨⟨h.free .done rfl, fun _ => Or.inr (Or.inl rfl), fun hdepth => ?_⟩, hp,
      unstarted_of_state fun h => (nomatch h)⟩
    exact absurd hzero (Nat.ne_of_gt hdepth)
  · next hzero =>
    have hdepth := Nat.pos_of_ne_zero hzero
    exact ⟨h.steady hdepth (hkey hdepth), hp, unstarted_of_depth hdepth⟩

end JsonReaderBson

end Returns

end LibBson.Source
