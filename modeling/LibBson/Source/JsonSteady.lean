import LibBson.Source.JsonBufLaws
import LibBson.Source.JsonCalls
import LibBson.Source.JsonNest

/-!
# What the reader's variables say of each other

`Steady` is the part of the callbacks' state that their assertions and their calls
on documents rely on, kept by every event: a key is known wherever a value may be
stored, and a wrapper state stands on a frame. `Returns` is what a callback does
then: it returns, and its calls leave the documents of the new stack.
Source: bson-json.c:278-378, 544-1780.
-/

set_option autoImplicit false

namespace LibBson.Source
open LibBson.Library

namespace JsonReaderBson

/-! ## The stack -/

/-- A frame in front of the stack's end opens a child or a document of its own. -/
def openFrame (type : JsonFrameType) (children : List Nat) : List Nat :=
  match type, children with
  | .scope, ns | .dbpointer, ns => 0 :: ns
  | _, n :: ns => (n + 1) :: ns
  | _, [] => [0]

/-- The numbers of open children of the open documents, from the innermost on; the first
frame is the caller's document. -/
def openChildren (stack : Nat → JsonStackFrame) : Nat → List Nat
  | 0 | 1 => [0]
  | n + 2 => openFrame (stack (n + 1)).type (openChildren stack (n + 1))

def children (s : JsonReaderBson) : List Nat := openChildren s.stack s.depth

theorem openChildren_congr {stack stack' : Nat → JsonStackFrame} (n : Nat)
    (h : ∀ i, i < n → (stack' i).type = (stack i).type) :
    openChildren stack' n = openChildren stack n := by
  induction n with
  | zero => rfl
  | succ n ih =>
    cases n with
    | zero => rfl
    | succ n =>
      rw [openChildren, openChildren, h (n + 1) (Nat.lt_succ_self _)]
      rw [ih fun i hi => h i (Nat.lt_succ_of_lt hi)]

theorem openChildren_cons (stack : Nat → JsonStackFrame) (n : Nat) :
    ∃ m ms, openChildren stack n = m :: ms := by
  induction n with
  | zero => exact ⟨0, [], rfl⟩
  | succ n ih =>
    cases n with
    | zero => exact ⟨0, [], rfl⟩
    | succ n =>
      obtain ⟨m, ms, hrest⟩ := ih
      rw [openChildren, hrest]
      cases (stack (n + 1)).type <;> exact ⟨_, _, rfl⟩

theorem openChildren_succ (stack : Nat → JsonStackFrame) {n : Nat} (hn : 0 < n) :
    openChildren stack (n + 1) = openFrame (stack n).type (openChildren stack n) := by
  cases n with
  | zero => cases hn
  | succ n => rfl

/-- The state behind a push. -/
def pushed (s : JsonReaderBson) (frame : JsonStackFrame → JsonStackFrame) : JsonReaderBson :=
  setTop { s with depth := s.depth + 1 } (frame (s.stack s.depth))

section Pushed

variable (s : JsonReaderBson) (frame : JsonStackFrame → JsonStackFrame)

theorem pushed_below {i : Nat} (hi : i < s.depth) : (s.pushed frame).stack i = s.stack i :=
  if_neg (Nat.ne_of_lt hi)

theorem pushed_top : (s.pushed frame).stack s.depth = frame (s.stack s.depth) := if_pos rfl

theorem pushed_children (hdepth : 0 < s.depth) :
    (s.pushed frame).children = openFrame (frame (s.stack s.depth)).type s.children := by
  have hsucc := openChildren_succ (s.pushed frame).stack hdepth
  rw [pushed_top, openChildren_congr s.depth fun i hi => congrArg _ (pushed_below s frame hi)]
    at hsucc
  exact hsucc

theorem pushed_first (hdepth : s.depth = 0) : (s.pushed frame).children = s.children := by
  unfold children pushed setTop
  simp only [hdepth]
  rfl

end Pushed

theorem stackPush_eq (s : JsonReaderBson) (frame : JsonStackFrame → JsonStackFrame)
    (statement : JsonDocOp) (next : JsonReaderBson → List JsonDocOp → JsonReaction) :
    s.stackPush frame statement next =
      if s.depth ≥ stackMax then s.quiet
      else next (s.pushed frame) (if s.depth = 0 then [] else [statement]) := by
  unfold stackPush
  split
  · rfl
  · have hfirst : s.depth + 1 = 1 ↔ s.depth = 0 := by omega
    exact congrArg (next (s.pushed frame)) (if_congr hfirst rfl rfl)

/-! ## The invariant -/

/-- Nothing of a document has been read. -/
def Unstarted (s : JsonReaderBson) : Prop := s.depth = 0 ∧ s.readState = .regular

/-- What holds of the frames and the buffers whatever the key is. -/
structure Framed (s : JsonReaderBson) : Prop where
  /-- The first frame is a map or an array. -/
  bottom : 0 < s.depth → (s.stack 0).type = .doc ∨ (s.stack 0).type = .array
  pointer : s.readState = .inBsonTypeDbpointerStartmap ∨ s.readState = .inDbpointer ∨
    (∃ i, i < s.depth ∧ (s.stack i).type = .dbpointer) → s.dbpointerKey.nBytes ≠ 0
  scopeSeen : s.readState = .inBsonTypeScopeStartmap ∨ s.readState = .inScope →
    s.codeData.hasScope = true
  parked : s.codeData.hasCode = true ∨ s.codeData.hasScope = true ∨ s.codeData.keyBuf.len ≠ 0 →
    s.codeData.keyBuf.nBytes ≠ 0
  short : s.keyBuf.len < 9223372036854775808

structure Steady (s : JsonReaderBson) : Prop extends Framed s where
  /-- Around the document no wrapper is read. -/
  outside : s.depth = 0 →
    s.readState = .inStartMap ∨ s.readState = .done ∨ (s.readState = .regular ∧ s.key = none)
  /-- Inside it there is a key, or it is an array whose next value gets one. -/
  keyed : 0 < s.depth →
    s.key.isSome ∨ (s.depth = 1 ∧ s.top.type = .array ∧ s.readState = .regular)

/-- Nothing `Steady` speaks of is different. -/
structure SameFrames (s s' : JsonReaderBson) : Prop where
  depth : s'.depth = s.depth
  stack : ∀ i, (s'.stack i).type = (s.stack i).type
  key : s'.key = s.key
  keyBuf : s'.keyBuf.len = s.keyBuf.len
  readState : s'.readState = s.readState
  codeData : s'.codeData.hasCode = s.codeData.hasCode ∧
    s'.codeData.hasScope = s.codeData.hasScope ∧ s'.codeData.keyBuf = s.codeData.keyBuf
  dbpointerKey : s'.dbpointerKey = s.dbpointerKey

section Same

variable {s s' : JsonReaderBson}

theorem SameFrames.children (h : SameFrames s s') : s'.children = s.children := by
  unfold JsonReaderBson.children
  rw [h.depth]
  exact openChildren_congr _ fun i _ => h.stack i

theorem SameFrames.framed (h : SameFrames s s') (hs : s.Framed) : s'.Framed := by
  obtain ⟨hcode, hscope, hkey⟩ := h.codeData
  constructor
  · rw [h.depth, h.stack]
    exact hs.bottom
  · rw [h.depth, h.readState, h.dbpointerKey]
    simp only [h.stack]
    exact hs.pointer
  · rw [h.readState, hscope]
    exact hs.scopeSeen
  · rw [hcode, hscope, hkey]
    exact hs.parked
  · rw [h.keyBuf]
    exact hs.short

theorem SameFrames.steady (h : SameFrames s s') (hs : s.Steady) : s'.Steady := by
  have htop : s'.top.type = s.top.type := by
    unfold top
    rw [h.depth]
    exact h.stack _
  refine ⟨h.framed hs.toFramed, ?_, ?_⟩
  · rw [h.depth, h.readState, h.key]
    exact hs.outside
  · rw [h.depth, h.readState, h.key, htop]
    exact hs.keyed

theorem Steady.inside (h : s.Steady) (hkey : s.key.isSome) (hstate : s.readState = .regular) :
    0 < s.depth := by
  apply Nat.pos_of_ne_zero
  intro hzero
  rcases h.outside hzero with hmap | hdone | ⟨-, hnone⟩
  · rw [hmap] at hstate
    cases hstate
  · rw [hdone] at hstate
    cases hstate
  · rw [hnone] at hkey
    cases hkey

/-- The states of a wrapper have a frame below them, and a key. -/
def inWrapper : ReadState → Bool
  | .regular | .done | .inStartMap => false
  | _ => true

theorem Steady.wrapper (h : s.Steady) (hstate : inWrapper s.readState = true) :
    0 < s.depth ∧ s.key.isSome := by
  have hdepth : 0 < s.depth := by
    apply Nat.pos_of_ne_zero
    intro hzero
    rcases h.outside hzero with hmap | hdone | ⟨hregular, -⟩
    · rw [hmap] at hstate
      cases hstate
    · rw [hdone] at hstate
      cases hstate
    · rw [hregular] at hstate
      cases hstate
  refine ⟨hdepth, ?_⟩
  rcases h.keyed hdepth with hkey | ⟨-, -, hregular⟩
  · exact hkey
  · rw [hregular] at hstate
    cases hstate

theorem Framed.withState (h : s.Framed) (rs : ReadState)
    (hpointer : rs = .inBsonTypeDbpointerStartmap ∨ rs = .inDbpointer → s.dbpointerKey.nBytes ≠ 0)
    (hscope : rs = .inBsonTypeScopeStartmap ∨ rs = .inScope → s.codeData.hasScope = true) :
    Framed { s with readState := rs } where
  bottom := h.bottom
  pointer := fun hstate => by
    rcases hstate with hstart | hin | hframe
    · exact hpointer (Or.inl hstart)
    · exact hpointer (Or.inr hin)
    · exact h.pointer (Or.inr (Or.inr hframe))
  scopeSeen := hscope
  parked := h.parked
  short := h.short

/-- A state that needs no more than the others may. -/
def isFree : ReadState → Bool
  | .inBsonTypeDbpointerStartmap | .inDbpointer | .inBsonTypeScopeStartmap | .inScope => false
  | _ => true

theorem Framed.free (h : s.Framed) (rs : ReadState) (hfree : isFree rs = true) :
    Framed { s with readState := rs } := by
  apply h.withState
  · intro hstate
    rcases hstate with rfl | rfl <;> cases hfree
  · intro hstate
    rcases hstate with rfl | rfl <;> cases hfree

/-- The wrapper's type and data and the error are no part of it. -/
theorem Framed.typed (h : s.Framed) (state : BsonState) (type : BsonType) (data : BsonJsonBsonData)
    (error : Option JsonError) :
    Framed { s with bsonState := state, bsonType := type, bsonTypeData := data, error := error } :=
  ⟨h.bottom, h.pointer, h.scopeSeen, h.parked, h.short⟩

theorem Framed.scoped (h : s.Framed) (inScope : Bool) :
    Framed { s with codeData := { s.codeData with inScope := inScope } } :=
  ⟨h.bottom, h.pointer, h.scopeSeen, h.parked, h.short⟩

/-- Inside the document, where a key is known, nothing else is needed. -/
theorem Framed.steady (h : s.Framed) (hdepth : 0 < s.depth) (hkey : s.key.isSome) : s.Steady where
  toFramed := h
  outside := fun hzero => absurd hzero (Nat.ne_of_gt hdepth)
  keyed := fun _ => Or.inl hkey

end Same

/-! ## Frames -/

section Frames

variable {s : JsonReaderBson}

theorem Framed.pushed (h : s.Framed) (frame : JsonStackFrame → JsonStackFrame)
    (hbottom : s.depth = 0 →
      (frame (s.stack 0)).type = .doc ∨ (frame (s.stack 0)).type = .array)
    (hpointer : (frame (s.stack s.depth)).type = .dbpointer → s.dbpointerKey.nBytes ≠ 0) :
    (s.pushed frame).Framed where
  bottom := fun _ => by
    by_cases hzero : s.depth = 0
    · have htop := pushed_top s frame
      rw [hzero] at htop
      rw [htop]
      exact hbottom hzero
    · rw [pushed_below s frame (Nat.pos_of_ne_zero hzero)]
      exact h.bottom (Nat.pos_of_ne_zero hzero)
  pointer := fun hstate => by
    rcases hstate with hstart | hin | ⟨i, hi, htype⟩
    · exact h.pointer (Or.inl hstart)
    · exact h.pointer (Or.inr (Or.inl hin))
    · by_cases heq : i = s.depth
      · rw [heq, pushed_top] at htype
        exact hpointer htype
      · have hlt : i < s.depth := by
          have hsucc : i < s.depth + 1 := hi
          omega
        rw [pushed_below s frame hlt] at htype
        exact h.pointer (Or.inr (Or.inr ⟨i, hlt, htype⟩))
  scopeSeen := h.scopeSeen
  parked := h.parked
  short := h.short

/-- The first frame is neither a scope nor a DBPointer. -/
theorem Framed.above (h : s.Framed) (hdepth : 0 < s.depth)
    (htype : s.top.type = .scope ∨ s.top.type = .dbpointer) : 1 < s.depth := by
  by_contra hle
  have hindex : s.depth - 1 = 0 := by omega
  unfold top at htype
  rw [hindex] at htype
  rcases h.bottom hdepth with hbottom | hbottom <;> rw [hbottom] at htype <;>
    exact htype.elim (fun h => (nomatch h)) fun h => (nomatch h)

theorem Framed.popped (h : s.Framed) : Framed { s with depth := s.depth - 1 } where
  bottom := fun hdepth => h.bottom (Nat.lt_of_lt_of_le hdepth (Nat.sub_le _ _))
  pointer := fun hstate => by
    rcases hstate with hstart | hin | ⟨i, hi, htype⟩
    · exact h.pointer (Or.inl hstart)
    · exact h.pointer (Or.inr (Or.inl hin))
    · exact h.pointer (Or.inr (Or.inr ⟨i, Nat.lt_of_lt_of_le hi (Nat.sub_le _ _), htype⟩))
  scopeSeen := h.scopeSeen
  parked := h.parked
  short := h.short

end Frames

/-! ## Keys -/

section Keys

variable (fresh : JsonBlock → Nat → Mem) {s : JsonReaderBson}

theorem Framed.saveMapKey (h : s.Framed) {val : Bytes}
    (hval : val.length < 9223372036854775808) : (s.saveMapKey fresh val).Framed :=
  ⟨h.bottom, h.pointer, h.scopeSeen, h.parked, hval⟩

/-- What `_bson_json_read_fixup_key` keeps. -/
structure Fixed (s s' : JsonReaderBson) : Prop where
  steady : s'.Steady
  children : s'.children = s.children
  depth : s'.depth = s.depth
  readState : s'.readState = s.readState
  error : s'.error = s.error
  bsonState : s'.bsonState = s.bsonState
  bsonTypeData : s'.bsonTypeData = s.bsonTypeData
  key : 0 < s.depth → s'.key.isSome

theorem sameFrames_setTop {f : JsonStackFrame} (htype : f.type = s.top.type) :
    SameFrames s (s.setTop f) := by
  refine ⟨rfl, fun i => ?_, rfl, rfl, rfl, ⟨rfl, rfl, rfl⟩, rfl⟩
  by_cases hi : i = s.depth - 1
  · subst hi
    exact (congrArg JsonStackFrame.type (if_pos rfl)).trans htype
  · exact congrArg JsonStackFrame.type (if_neg hi)

/-- A numeral is written into the key buffer or taken from the table. -/
theorem digitsBefore_length (fuel n : Nat) (acc : Bytes) :
    (digitsBefore fuel n acc).length ≤ fuel + acc.length := by
  induction fuel generalizing n acc with
  | zero => exact Nat.le_add_left _ _
  | succ fuel ih =>
    unfold digitsBefore
    split
    · rw [List.length_cons]
      omega
    · have hrest := ih (n / 10) (digit n :: acc)
      rw [List.length_cons] at hrest
      omega

theorem Steady.readFixupKey (h : s.Steady) : Fixed s (s.readFixupKey fresh) := by
  unfold JsonReaderBson.readFixupKey
  split
  · next hfix =>
    obtain ⟨hdepth, htype, hstate⟩ := hfix
    have hsame : SameFrames s (s.setTop { s.top with i := s.top.i + 1 }) := sameFrames_setTop rfl
    have hnext := hsame.steady h
    have keyed : ∀ (buf : JsonBuf) (k : JsonKey), buf.len < 9223372036854775808 →
        Fixed s { s.setTop { s.top with i := s.top.i + 1 } with keyBuf := buf, key := some k } := by
      intro buf k hbuf
      have hframed := hnext.toFramed
      refine ⟨Framed.steady ⟨hframed.bottom, hframed.pointer, hframed.scopeSeen, hframed.parked,
        hbuf⟩ hdepth rfl, hsame.children, rfl, rfl, rfl, rfl, rfl, fun _ => rfl⟩
    have hvalue : u32 s.top.i < 4294967296 := u32_lt _
    simp only
    split
    · apply keyed
      simp only
      split
      · decide
      · split <;> decide
    · apply keyed
      have hlen := digitsBefore_length (u32 s.top.i + 1) (u32 s.top.i) []
      rw [List.length_nil] at hlen
      simp only [decimal]
      omega
  · next hfix =>
    refine ⟨h, rfl, rfl, rfl, rfl, rfl, rfl, fun hdepth => ?_⟩
    rcases h.keyed hdepth with hkey | ⟨-, htype, hstate⟩
    · exact hkey
    · exact absurd ⟨hdepth, htype, hstate⟩ hfix

/-- Outside an array the key stays. -/
theorem readFixupKey_eq (hstate : s.readState ≠ .regular) : s.readFixupKey fresh = s :=
  if_neg fun hfix => hstate hfix.2.2

end Keys

end JsonReaderBson

end LibBson.Source
