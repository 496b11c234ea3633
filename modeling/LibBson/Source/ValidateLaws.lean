import LibBson.Source.LevelLaws
import LibBson.Source.VisitLaws

/-!
# What validation computes

`levelCheck` is the validator as a function on the tree of a buffer: the phase
the visit of a level leaves, or `none` when an error was reported in it.
`visitLoop_check` shows that the callbacks compute it: an error stays reported
(`reported_keeps`), and without one the state changes its phase only.
-/

set_option autoImplicit false

namespace LibBson.Source
open LibBson.Library LibBson.Spec

/-- `visit_before` on the phase: `none` when it reports the key. -/
def keyStep (flags : ValidateFlags) (phase : ValidatePhase) (key : Bytes) :
    Option ValidatePhase :=
  if flags.emptyKeys = true ∧ key = [] then none
  else
    let next : Option ValidatePhase :=
      if flags.dollarKeys = true then (dollarStep phase key).toOption else some phase
    if flags.dotKeys = true ∧ 46 ∈ key then none else next

/-- The phase behind a UTF-8 value. -/
def utf8Step (flags : ValidateFlags) (phase : ValidatePhase) : ValidatePhase :=
  if flags.dollarKeys = true then
    match phase with
    | .lfRefUtf8 => .lfIdKey
    | .lfDbUtf8 => .notDbref
    | phase => phase
  else phase

/-- A level that was visited to its end must not leave a DBRef begun. -/
def settled (r : Option ValidatePhase) : Bool :=
  match r with
  | none => false
  | some phase => !phase.pending

mutual

def levelCheck (flags : ValidateFlags) (phase : ValidatePhase) : Level → Option ValidatePhase
  | .stop corrupt => if corrupt then none else some phase
  | .field key c rest =>
    if validKey key then
      match keyStep flags phase key with
      | none => none
      | some phase =>
        match contentCheck flags phase c with
        | none => none
        | some (true, phase) => some phase
        | some (false, phase) => levelCheck flags phase rest
    else none

/-- Whether the value stops the visit of its level, and the phase behind it. -/
def contentCheck (flags : ValidateFlags) (phase : ValidatePhase) :
    Content → Option (Bool × ValidatePhase)
  | .plain => some (false, phase)
  | .utf8 s =>
    if validText s then
      if flags.utf8 = true ∧ bsonUtf8Validate s flags.utf8AllowNull = false then none
      else some (false, utf8Step flags phase)
    else some (true, phase)
  | .text s => some (!validText s, phase)
  | .nested framed l =>
    if framed then
      if settled (levelCheck flags .lfRefKey l) then some (false, phase) else none
    else some (false, phase)
  | .scope code framed l =>
    if validText code then
      if framed then if settled (levelCheck flags .top l) then some (true, phase) else none
      else some (false, phase)
    else some (true, phase)

end

/-! ## An error stays reported -/

def Reported (s : ValidateState) : Prop := 0 ≤ s.errOffset

theorem reported_fail {s : ValidateState} {offset : Int} {e : ValidationErr} (h : 0 ≤ offset) :
    Reported (s.fail offset e) := h

theorem reported_utf8 (it : BsonIter) (key utf8 : Bytes) (s : ValidateState) (h : Reported s) :
    Reported (bsonIterValidateUtf8 it key utf8 s).2 := by
  unfold bsonIterValidateUtf8
  split
  · exact reported_fail (Int.natCast_nonneg _)
  · split
    · split <;> exact h
    · exact h

theorem reported_before (it : BsonIter) (key : Bytes) (s : ValidateState) (h : Reported s) :
    Reported (bsonIterValidateBefore it key s).2 := by
  unfold bsonIterValidateBefore
  dsimp only
  split
  · exact reported_fail (Int.natCast_nonneg _)
  · split
    · split
      · exact reported_fail (Int.natCast_nonneg _)
      · split
        · exact reported_fail (Int.natCast_nonneg _)
        · exact h
    · split
      · exact reported_fail (Int.natCast_nonneg _)
      · exact h

theorem reported_document {funcs : Visitor ValidateState} (hf : funcs.Keeps Reported)
    (it : BsonIter) (b : BsonRef) (s : ValidateState) (h : Reported s) :
    Reported (bsonIterValidateDocument funcs it b s).2 := by
  unfold bsonIterValidateDocument
  cases bsonIterInit b with
  | mk ok child =>
    cases ok with
    | false => exact Int.natCast_nonneg _
    | true =>
      have hv : Reported (bsonIterVisitAll funcs child
          (s.setPhase (if s.phase = .start then .top else .lfRefKey))).data :=
        visitLoop_keeps hf _ _ h
      dsimp only
      generalize (bsonIterVisitAll funcs child _).data = s' at hv ⊢
      split
      · split
        · exact Int.natCast_nonneg _
        · exact hv
      · exact hv

theorem reported_codewscope (funcs : Visitor ValidateState) (it : BsonIter) (b : BsonRef)
    (s : ValidateState) (h : Reported s) :
    Reported (bsonIterValidateCodewscope funcs it b s).2 := by
  unfold bsonIterValidateCodewscope
  dsimp only
  split
  · exact h
  · refine reported_fail ?_
    split <;> omega

/-- No callback takes an error back. -/
theorem reported_keeps (depth : Nat) : (bsonValidateFuncs depth).Keeps Reported := by
  induction depth with
  | zero => constructor <;> intro g hg <;> cases hg
  | succ depth ih =>
    exact {
      before := Callback.keeps_some fun it key _ s h => reported_before it key s h
      after := Callback.keeps_none _
      corrupt := fun g hg it s _ => by
        cases hg
        exact reported_fail (Int.natCast_nonneg _)
      double := Callback.keeps_none _
      utf8 := Callback.keeps_some reported_utf8
      document := Callback.keeps_some fun it _ b s h => reported_document ih it b s h
      array := Callback.keeps_some fun it _ b s h => reported_document ih it b s h
      binary := Callback.keeps_none _
      undefined := Callback.keeps_none _
      oid := Callback.keeps_none _
      bool := Callback.keeps_none _
      dateTime := Callback.keeps_none _
      null := Callback.keeps_none _
      regex := Callback.keeps_none _
      dbpointer := Callback.keeps_none _
      code := Callback.keeps_none _
      symbol := Callback.keeps_none _
      codewscope := Callback.keeps_some fun it _ v s h => reported_codewscope _ it v.2 s h
      int32 := Callback.keeps_none _
      timestamp := Callback.keeps_none _
      int64 := Callback.keeps_none _
      maxkey := Callback.keeps_none _
      minkey := Callback.keeps_none _
      unsupportedType := fun g hg => nomatch hg
      decimal128 := Callback.keeps_none _ }

/-! ## Without an error only the phase changes -/

/-- The state `s'` is what `r` says of a visit that started in `s`. -/
def Agrees (r : Option ValidatePhase) (s s' : ValidateState) : Prop :=
  match r with
  | none => Reported s'
  | some phase => s' = s.setPhase phase

theorem before_keyStep (it : BsonIter) (key : Bytes) (s : ValidateState) :
    match keyStep s.flags s.phase key with
    | none => (bsonIterValidateBefore it key s).1 = true ∧
        Reported (bsonIterValidateBefore it key s).2
    | some phase => bsonIterValidateBefore it key s = (false, s.setPhase phase) := by
  unfold keyStep bsonIterValidateBefore
  by_cases hempty : s.flags.emptyKeys = true ∧ key = []
  · rw [if_pos hempty, if_pos hempty]
    exact ⟨rfl, Int.natCast_nonneg _⟩
  · rw [if_neg hempty, if_neg hempty]
    dsimp only
    by_cases hdollar : s.flags.dollarKeys = true
    · rw [if_pos hdollar, if_pos hdollar]
      cases hd : dollarStep s.phase key with
      | error e =>
        by_cases hdot : s.flags.dotKeys = true ∧ 46 ∈ key
        · rw [if_pos hdot]
          exact ⟨rfl, Int.natCast_nonneg _⟩
        · rw [if_neg hdot]
          exact ⟨rfl, Int.natCast_nonneg _⟩
      | ok phase =>
        by_cases hdot : s.flags.dotKeys = true ∧ 46 ∈ key
        · simp only [if_pos hdot, true_and]
          exact Int.natCast_nonneg _
        · simp only [if_neg hdot]
          rfl
    · rw [if_neg hdollar, if_neg hdollar]
      by_cases hdot : s.flags.dotKeys = true ∧ 46 ∈ key
      · rw [if_pos hdot, if_pos hdot]
        exact ⟨rfl, Int.natCast_nonneg _⟩
      · rw [if_neg hdot, if_neg hdot]
        rfl

theorem keyStep_not_start {flags : ValidateFlags} {phase phase' : ValidatePhase} {key : Bytes}
    (h : keyStep flags phase key = some phase') (hp : phase ≠ .start) : phase' ≠ .start := by
  unfold keyStep dollarStep at h
  split_ifs at h <;> simp_all [Except.toOption] <;> subst h <;> simp

theorem utf8Step_not_start {flags : ValidateFlags} {phase : ValidatePhase} (hp : phase ≠ .start) :
    utf8Step flags phase ≠ .start := by
  unfold utf8Step
  cases phase <;> split <;> simp_all

theorem contentCheck_not_start {flags : ValidateFlags} {phase ph : ValidatePhase} {c : Content}
    {stop : Bool} (h : contentCheck flags phase c = some (stop, ph)) (hp : phase ≠ .start) :
    ph ≠ .start := by
  have hsame : ∀ {x : Bool}, some (x, phase) = some (stop, ph) → ph ≠ .start := by
    rintro x h
    cases h
    exact hp
  cases c <;> simp only [contentCheck] at h
  case utf8 =>
    split_ifs at h
    · cases h
      exact utf8Step_not_start hp
    · exact hsame h
  case plain | text => exact hsame h
  case nested => split_ifs at h <;> exact hsame h
  case scope => split_ifs at h <;> exact hsame h

theorem utf8_utf8Step (it : BsonIter) (key utf8 : Bytes) (s : ValidateState) :
    bsonIterValidateUtf8 it key utf8 s =
      if s.flags.utf8 = true ∧ bsonUtf8Validate utf8 s.flags.utf8AllowNull = false then
        (true, s.fail it.off (.invalidUtf8 key))
      else (false, s.setPhase (utf8Step s.flags s.phase)) := by
  unfold bsonIterValidateUtf8 utf8Step
  split
  · rfl
  · split
    · cases s with
      | mk flags errOffset phase error => cases phase <;> rfl
    · rfl

/-- What a visit with `funcs` of the level `l` does, in every state without an error. -/
def VisitsAs (funcs : Visitor ValidateState) (it : BsonIter) (l : Level) : Prop :=
  ∀ s : ValidateState, s.errOffset < 0 → s.phase ≠ .start →
    Agrees (levelCheck s.flags s.phase l) s (bsonIterVisitAll funcs it s).data

theorem bsonIterInit_of_le {b : BsonRef} (h : 5 ≤ b.len) :
    bsonIterInit b = (true, BsonIter.start (some b.data) b.len) := by
  rw [bsonIterInit, if_neg (by omega)]

/-- A document callback judges its child from the phase the child starts in. -/
theorem document_agrees {funcs : Visitor ValidateState} {b : BsonRef} {l : Level}
    (hlen : 5 ≤ b.len) (hv : VisitsAs funcs (BsonIter.start (some b.data) b.len) l)
    (it : BsonIter) (s : ValidateState) (hs : s.errOffset < 0) :
    if settled (levelCheck s.flags (if s.phase = .start then .top else .lfRefKey) l) = true then
      bsonIterValidateDocument funcs it b s = (false, s)
    else Reported (bsonIterValidateDocument funcs it b s).2 := by
  have hagree := hv (s.setPhase (if s.phase = .start then .top else .lfRefKey)) hs
    (by simp only [ValidateState.setPhase]; split <;> simp)
  have hflags : (s.setPhase (if s.phase = .start then .top else .lfRefKey)).flags = s.flags := rfl
  rw [hflags] at hagree
  simp only [bsonIterValidateDocument, bsonIterInit_of_le hlen]
  generalize hsv : (bsonIterVisitAll funcs (BsonIter.start (some b.data) b.len)
    (s.setPhase (if s.phase = .start then .top else .lfRefKey))).data = s' at hagree ⊢
  simp only [ValidateState.setPhase] at hagree
  cases hc : levelCheck s.flags (if s.phase = .start then .top else .lfRefKey) l with
  | none =>
    rw [hc] at hagree
    have hrep : Reported s' := hagree
    rw [if_neg (by simp [settled])]
    split
    · split
      · exact Int.natCast_nonneg _
      · exact hrep
    · exact hrep
  | some phase =>
    rw [hc] at hagree
    subst hagree
    cases hp : phase.pending with
    | true =>
      rw [if_neg (by simp [settled, hp])]
      have hle : s.errOffset ≤ 0 := Int.le_of_lt hs
      simp [ValidateState.setPhase, hp, hle, Reported]
    | false =>
      rw [if_pos (by simp [settled, hp])]
      simp [ValidateState.setPhase, hp]

/-- `bson_validate` on a level finds no error exactly when its check settles. -/
theorem internal_agrees {funcs : Visitor ValidateState} {b : BsonRef} {l : Level}
    (hlen : 5 ≤ b.len) (hv : VisitsAs funcs (BsonIter.start (some b.data) b.len) l)
    (flags : ValidateFlags) :
    (bsonValidateInternal funcs b flags).errOffset < 0 ↔
      settled (levelCheck flags .top l) = true := by
  have hd := document_agrees hlen hv (BsonIter.start (some b.data) b.len)
    (ValidateState.init flags) (by simp [ValidateState.init])
  have htop : (if (ValidateState.init flags).phase = .start then ValidatePhase.top
      else .lfRefKey) = .top := rfl
  rw [htop] at hd
  simp only [bsonValidateInternal, bsonIterInit_of_le hlen]
  split at hd
  · next hset =>
    have hset' : settled (levelCheck flags .top l) = true := hset
    rw [hd]
    simp [hset', ValidateState.init]
  · next hset =>
    have hset' : ¬ settled (levelCheck flags .top l) = true := hset
    unfold Reported at hd
    constructor
    · intro hneg
      omega
    · intro h
      exact absurd h hset'

/-- A slice inside a buffer is a document when its octets frame it. -/
theorem initStatic_eq {it e : BsonIter} {p : Slice} (hin : Inside it e p)
    (hmax : it.len ≤ maxLen) :
    e.initStatic p =
      if Framed e.mem p.off p.len then some { data := e.mem.shift p.off, len := p.len }
      else none := by
  unfold maxLen at hmax
  obtain ⟨h1, h2, h3⟩ := hin
  unfold BsonIter.initStatic bsonInitStatic
  by_cases h5 : 5 ≤ p.len
  · rw [if_neg (by omega), Mem.le_shift, Nat.add_zero, Mem.shift_apply,
      show p.off + (p.len - 1) = p.off + p.len - 1 by omega]
    by_cases hword : e.mem.le p.off 4 = p.len
    · rw [if_neg (by simpa using hword)]
      by_cases hnul : e.mem (p.off + p.len - 1) = 0
      · rw [if_neg (by simpa using hnul), if_pos ⟨h5, hword, hnul⟩]
      · rw [if_pos hnul, if_neg fun h => hnul h.2.2]
    · rw [if_pos hword, if_neg fun h => hword h.2.1]
  · rw [if_pos (by omega), if_neg fun h => h5 h.1]

/-- The stop flag and the data of a visited value are what `r` says. -/
def ValueAgrees (r : Option (Bool × ValidatePhase)) (s : ValidateState)
    (v : Visited ValidateState) : Prop :=
  match r with
  | none => Reported v.data
  | some (stop, phase) => v.stop = stop ∧ v.data = s.setPhase phase

theorem text_agrees (it : BsonIter) (text : Bytes) (s : ValidateState) (call : Visited ValidateState)
    (r : Option (Bool × ValidatePhase))
    (hc : validText text = true → ValueAgrees r s call) :
    ValueAgrees (if validText text then r else some (true, s.phase)) s
      (visitText it text s call) := by
  unfold visitText
  have htext : validText text = bsonUtf8Validate text true := rfl
  rw [← htext]
  split
  · next h => exact hc h
  · exact ⟨rfl, rfl⟩

theorem nested_agrees {it e : BsonIter} {p : Slice} {l : Level} {depth : Nat}
    {cb : BsonRef → Visited ValidateState} {s : ValidateState} (hin : Inside it e p)
    (hmax : it.len ≤ maxLen) (hs : s.errOffset < 0) (hphase : s.phase ≠ .start)
    (hv : 5 ≤ p.len → VisitsAs (bsonValidateFuncs depth) (childIter e p) l)
    (hcb : ∀ b, (cb b).stop = (bsonIterValidateDocument (bsonValidateFuncs depth) e b s).1 ∧
      (cb b).data = (bsonIterValidateDocument (bsonValidateFuncs depth) e b s).2) :
    ValueAgrees (contentCheck s.flags s.phase (.nested (decide (Framed e.mem p.off p.len)) l)) s
      (visitStatic e p s cb) := by
  unfold visitStatic
  rw [initStatic_eq hin hmax, contentCheck]
  by_cases hf : Framed e.mem p.off p.len
  · simp only [hf, decide_true, if_true]
    have hd := document_agrees (b := { data := e.mem.shift p.off, len := p.len }) hf.1 (hv hf.1) e s hs
    rw [if_neg hphase] at hd
    obtain ⟨hc1, hc2⟩ := hcb { data := e.mem.shift p.off, len := p.len }
    split at hd
    · next hset =>
      rw [if_pos hset]
      rw [hd] at hc1 hc2
      exact ⟨hc1, hc2⟩
    · next hset =>
      rw [if_neg hset]
      show Reported _
      rw [hc2]
      exact hd
  · simp only [hf, decide_false, if_false, Bool.false_eq_true]
    exact ⟨rfl, rfl⟩

/-- A value without a callback is passed over. -/
theorem plain_agrees {e : BsonIter} {t : BsonType} (h : iterType e = some t)
    (ht : plainType t = true) (depth : Nat) (key : Bytes) (s : ValidateState) :
    ValueAgrees (contentCheck s.flags s.phase .plain) s
      (visitValue (bsonValidateFuncs (depth + 1)) e key s) := by
  unfold visitValue
  rw [h]
  cases t <;> try cases ht
  case binary => cases bsonIterBinary e <;> exact ⟨rfl, rfl⟩
  case oid => cases bsonIterOid e <;> exact ⟨rfl, rfl⟩
  case decimal128 => cases bsonIterDecimal128 e <;> exact ⟨rfl, rfl⟩
  all_goals exact ⟨rfl, rfl⟩

/-- Text without a callback must be UTF-8. -/
theorem skipText_agrees (e : BsonIter) (text : Bytes) (s : ValidateState) :
    ValueAgrees (contentCheck s.flags s.phase (.text text)) s
      (visitText e text s { stop := false, iter := e, data := s }) := by
  unfold visitText contentCheck validText
  cases bsonUtf8Validate text true <;> exact ⟨rfl, rfl⟩

theorem iterType_of_some {β : Type} {it : BsonIter} {t : BsonType} {x y : β}
    (h : (if iterType it = some t then some x else none) = some y) : iterType it = some t := by
  split at h
  · assumption
  · cases h

/-- The visit of a value, given how the functions for one level less visit the
documents in it. -/
theorem visitValue_check {c : Content} {it e : BsonIter} {m : Mem} {o : Nat} {t : BsonType}
    (he : Element m it e o t) (h : Shows e c) (hmax : it.len ≤ maxLen) {depth : Nat}
    (hv : ∀ p l, Inside it e p → Sees (childIter e p) l → 5 ≤ p.len →
      VisitsAs (bsonValidateFuncs depth) (childIter e p) l)
    (key : Bytes) {s : ValidateState} (hs : s.errOffset < 0) (hphase : s.phase ≠ .start) :
    ValueAgrees (contentCheck s.flags s.phase c) s
      (visitValue (bsonValidateFuncs (depth + 1)) e key s) := by
  cases h with
  | plain _ t' ht hplain => exact plain_agrees ht hplain depth key s
  | utf8 _ p hp =>
    simp only [visitValue, iterType_of_some hp, hp, contentCheck]
    refine text_agrees e _ s _ _ fun _ => ?_
    simp only [Callback.call, bsonValidateFuncs, utf8_utf8Step]
    split
    · exact Int.natCast_nonneg _
    · exact ⟨rfl, rfl⟩
  | code _ p hp =>
    simp only [visitValue, iterType_of_some hp, hp]
    exact skipText_agrees e _ s
  | symbol _ p hp =>
    simp only [visitValue, iterType_of_some hp, hp]
    exact skipText_agrees e _ s
  | dbpointer _ p q hp =>
    simp only [visitValue, iterType_of_some hp, hp]
    exact skipText_agrees e _ s
  | regex _ p q hp =>
    simp only [visitValue, iterType_of_some hp, hp]
    exact skipText_agrees e _ s
  | document _ p l hp hl =>
    have hin := inside_document he hp
    simp only [visitValue, iterType_of_some hp, hp]
    exact nested_agrees hin hmax hs hphase (hv p l hin hl) fun b => ⟨rfl, rfl⟩
  | array _ p l hp hl =>
    have hin := inside_array he hp
    simp only [visitValue, iterType_of_some hp, hp]
    exact nested_agrees hin hmax hs hphase (hv p l hin hl) fun b => ⟨rfl, rfl⟩
  | codewscope _ p q l hp hl =>
    have hin := inside_codewscope he hp
    simp only [visitValue, iterType_of_some hp, hp, contentCheck]
    refine text_agrees e _ s _ _ fun _ => ?_
    unfold visitStatic
    rw [initStatic_eq hin hmax]
    by_cases hf : Framed e.mem q.off q.len
    · simp only [hf, decide_true, if_true]
      have hd := internal_agrees (b := { data := e.mem.shift q.off, len := q.len }) hf.1
        (hv q l hin hl hf.1) s.flags
      simp only [Callback.call, bsonValidateFuncs, bsonIterValidateCodewscope]
      by_cases hset : settled (levelCheck s.flags .top l) = true
      · rw [if_pos hset, if_pos (hd.mpr hset)]
        exact ⟨rfl, rfl⟩
      · have hneg := mt hd.mp hset
        rw [if_neg hset, if_neg hneg]
        refine reported_fail ?_
        split <;> omega
    · simp only [hf, decide_false, if_false, Bool.false_eq_true]
      exact ⟨rfl, rfl⟩

/-- A turn on an element, as the check sees it. -/
theorem visitElement_check {c : Content} {it e : BsonIter} {m : Mem} {o : Nat} {t : BsonType}
    (he : Element m it e o t) (h : Shows e c) (hmax : it.len ≤ maxLen) {depth : Nat}
    (hv : ∀ p l, Inside it e p → Sees (childIter e p) l → 5 ≤ p.len →
      VisitsAs (bsonValidateFuncs depth) (childIter e p) l)
    (key : Bytes) {s : ValidateState} (hs : s.errOffset < 0) (hphase : s.phase ≠ .start) :
    match keyStep s.flags s.phase key with
    | none => Reported (visitElement (bsonValidateFuncs (depth + 1)) e key s).data
    | some phase =>
      ValueAgrees (contentCheck s.flags phase c) s
        (visitElement (bsonValidateFuncs (depth + 1)) e key s) := by
  have hbefore := before_keyStep e key s
  have hcall : Callback.call (bsonValidateFuncs (depth + 1)).before e key () s =
      { stop := (bsonIterValidateBefore e key s).1, iter := e,
        data := (bsonIterValidateBefore e key s).2 } := rfl
  have hafter : ∀ (it : BsonIter) (s : ValidateState),
      Callback.call (bsonValidateFuncs (depth + 1)).after it key () s =
        { stop := false, iter := it, data := s } := fun _ _ => rfl
  simp only [visitElement, hcall, hafter]
  cases hk : keyStep s.flags s.phase key with
  | none =>
    rw [hk] at hbefore
    rw [if_pos hbefore.1]
    exact hbefore.2
  | some phase =>
    rw [hk] at hbefore
    have hval := visitValue_check he h hmax hv key (s := s.setPhase phase) hs
      (keyStep_not_start hk hphase)
    simp only [hbefore, Bool.false_eq_true, if_false]
    generalize visitValue (bsonValidateFuncs (depth + 1)) e key (s.setPhase phase) = value at *
    have hflags : (s.setPhase phase).flags = s.flags := rfl
    have hphase' : (s.setPhase phase).phase = phase := rfl
    rw [hflags, hphase'] at hval
    cases hc : contentCheck s.flags phase c with
    | none =>
      rw [hc] at hval
      split
      · exact hval
      · exact hval
    | some r =>
      obtain ⟨stop, ph⟩ := r
      rw [hc] at hval
      obtain ⟨h1, h2⟩ := hval
      split
      · exact ⟨h1, h2⟩
      · next hstop =>
        refine ⟨?_, h2⟩
        rw [← h1]
        simpa using hstop

/-- An element that does not stop the visit leaves the iterator where it is. -/
theorem visitElement_iter {e : BsonIter} {key : Bytes} {s : ValidateState} {depth : Nat}
    (h : (visitElement (bsonValidateFuncs (depth + 1)) e key s).stop = false) :
    (visitElement (bsonValidateFuncs (depth + 1)) e key s).iter = e := by
  unfold visitElement at *
  dsimp only at *
  split at h
  · next hstop =>
    rw [hstop] at h
    cases h
  · next hbefore =>
    rw [if_neg hbefore]
    split at h
    · next hstop =>
      rw [hstop] at h
      cases h
    · next hvalue =>
      rw [if_neg hvalue]
      exact visitValue_iter (by simpa using hvalue)

/-- Behind a turn that has reported an error, the error stays. -/
theorem reported_turn {v : Visited ValidateState} {depth fuel : Nat} (h : Reported v.data) :
    Reported (if v.stop then v
      else visitLoop (bsonValidateFuncs (depth + 1)) fuel v.iter v.data).data := by
  split
  · exact h
  · exact visitLoop_keeps (reported_keeps _) _ _ h

/-- A visit agrees with the check, once the visits of one level less do. -/
theorem visitLoop_check {depth : Nat}
    (hv : ∀ (it : BsonIter) (l : Level) (m : Mem), Sees it l → it.raw = some m → it.nextOff = 4 →
      5 ≤ it.len → it.len ≤ maxLen → it.len ≤ depth → VisitsAs (bsonValidateFuncs depth) it l)
    (fuel : Nat) {l : Level} {it : BsonIter} {m : Mem} (hsees : Sees it l)
    (hraw : it.raw = some m) (h4 : 4 ≤ it.nextOff) (hin : it.nextOff ≤ it.len)
    (hmax : it.len ≤ maxLen) (hfuel : it.len < fuel + it.nextOff) (hdepth : it.len ≤ depth + 1)
    {s : ValidateState} (hs : s.errOffset < 0) (hphase : s.phase ≠ .start) :
    Agrees (levelCheck s.flags s.phase l) s
      (visitLoop (bsonValidateFuncs (depth + 1)) fuel it s).data := by
  induction fuel generalizing l it m s with
  | zero => omega
  | succ fuel ih =>
    cases hsees with
    | stop _ hok =>
      rw [visitLoop_end fuel rfl hok, levelCheck]
      by_cases h0 : (bsonIterNextInternal it).iter.errOff = 0
      · simp only [h0, ne_eq, not_true_eq_false, decide_false, if_true, Bool.false_eq_true, if_false]
        rfl
      · simp only [h0, ne_eq, not_false_eq_true, decide_true, if_true, if_false]
        exact Int.natCast_nonneg _
    | field _ c rest hok hc hrest =>
      obtain ⟨o, t, he⟩ := element_of_next hraw h4 hmax hok
      have hprog := he.progress
      have hlen := he.len
      rw [visitLoop_field fuel hraw hmax hok he, levelCheck]
      dsimp only
      generalize bsonIterKeyUnsafe (bsonIterNext it).2 = key
      by_cases hkey : validKey key = true
      · have hgood : ¬ (key ≠ [] ∧ bsonUtf8Validate key false = false) := by
          rintro ⟨h1, h2⟩
          simp [validKey, h1, h2] at hkey
        rw [if_pos hkey, if_neg hgood]
        have he' : Element m it (bsonIterNext it).2 o t := he
        have helem := visitElement_check he' hc hmax (fun p l hin hl h5 => by
          have h1 := hin.start
          have h2 := hin.stop
          have h3 := hin.nonempty
          unfold maxLen at hmax
          exact hv _ l _ hl rfl rfl h5 (by simp only [childIter, BsonIter.start, maxLen]; omega)
            (by simp only [childIter, BsonIter.start]; omega)) key hs hphase
        have hiter := @visitElement_iter (bsonIterNext it).2 key s depth
        generalize visitElement (bsonValidateFuncs (depth + 1)) (bsonIterNext it).2 key s = v
          at helem hiter ⊢
        cases hk : keyStep s.flags s.phase key with
        | none =>
          rw [hk] at helem
          exact reported_turn helem
        | some phase =>
          rw [hk] at helem
          dsimp only at helem ⊢
          cases hcheck : contentCheck s.flags phase c with
          | none =>
            rw [hcheck] at helem
            exact reported_turn helem
          | some r =>
            obtain ⟨stop, ph⟩ := r
            rw [hcheck] at helem
            obtain ⟨hstop, hdata⟩ := helem
            cases stop with
            | true =>
              rw [if_pos hstop]
              exact hdata
            | false =>
              have hnext := ih hrest (m := m) he.raw (by simp only [bsonIterNext]; omega)
                (by simp only [bsonIterNext]; omega) (by simp only [bsonIterNext]; omega)
                (by simp only [bsonIterNext]; omega) (by simp only [bsonIterNext]; omega)
                (s := v.data) (by rw [hdata]; exact hs)
                (by rw [hdata]; exact contentCheck_not_start hcheck (keyStep_not_start hk hphase))
              rw [if_neg (by simp [hstop]), hiter hstop]
              rw [hdata] at hnext ⊢
              exact hnext
      · have hbad : key ≠ [] ∧ bsonUtf8Validate key false = false := by
          simpa [validKey] using hkey
        rw [if_neg hkey, if_pos hbad]
        have hoff : (bsonIterNext it).2.off ≠ 0 := by
          simp only [bsonIterNext]
          rw [he.off]
          omega
        simp only [visitEnd, hoff, if_false]
        exact Int.natCast_nonneg _

/-- By induction on the nesting that the functions are good for. -/
theorem visitsAs (depth : Nat) (it : BsonIter) (l : Level) (m : Mem) (hsees : Sees it l)
    (hraw : it.raw = some m) (h4 : it.nextOff = 4) (h5 : 5 ≤ it.len) (hmax : it.len ≤ maxLen)
    (hdepth : it.len ≤ depth) : VisitsAs (bsonValidateFuncs depth) it l := by
  induction depth generalizing it l m with
  | zero => omega
  | succ depth ih =>
    intro s hs hphase
    exact visitLoop_check ih (it.len + 1) hsees hraw (by omega) (by omega) hmax (by omega) hdepth hs
      hphase

/-- `bson_validate` returns true exactly when the check of the root settles. -/
theorem bsonValidate_check {b : BsonRef} {l : Level}
    (hsees : Sees (BsonIter.start (some b.data) b.len) l) (h5 : 5 ≤ b.len) (hmax : b.len ≤ maxLen)
    (flags : ValidateFlags) :
    (bsonValidate b flags).1 = true ↔ settled (levelCheck flags .top l) = true := by
  have hv := visitsAs b.len _ l b.data hsees rfl rfl h5 hmax (Nat.le_refl _)
  simp only [bsonValidate, decide_eq_true_eq]
  exact internal_agrees h5 hv flags

end LibBson.Source
