import LibBson.Source.VisitLaws

/-!
# A visit as a fold over a walk

`visitWalk` is what a visit comes to when no callback stops it; `visitWalked` calls
the callbacks on that. `visitAll_walked` shows that a visit is the one after the
other, `visitAll_resumed` that a visit with the iterator another visit has stopped
at goes over the elements behind the stop. A refusal of the visit itself leaves
`err_off` set: a step clears it (`next_errOff`), the end of the document does not.
-/

set_option autoImplicit false

namespace LibBson.Source
open LibBson.Library

/-! ## The error offset in front of a step -/

/-- What `err_off` held is only seen where the branch has parsed its value. -/
def Branch.withErrOff (b : Branch) (x : Nat) : Branch :=
  match b with
  | parsed it o => .parsed { it with errOff := x } o
  | invalid it => .invalid it

theorem nextString_errOff (it : BsonIter) (o x : Nat) (m : Mem) :
    (nextString { it with errOff := x } o).val m = ((nextString it o).val m).withErrOff x := by
  simp only [nextString, corrupt, Read.val_bind, Read.val_ite, Read.val_pure]
  split_ifs <;> rfl

theorem nextBinary_errOff (it : BsonIter) (o x : Nat) (m : Mem) :
    (nextBinary { it with errOff := x } o).val m = ((nextBinary it o).val m).withErrOff x := by
  simp only [nextBinary, corrupt, Read.val_bind, Read.val_ite, Read.val_pure]
  split_ifs <;> rfl

theorem nextDocument_errOff (it : BsonIter) (o x : Nat) (m : Mem) :
    (nextDocument { it with errOff := x } o).val m = ((nextDocument it o).val m).withErrOff x := by
  simp only [nextDocument, corrupt, Read.val_bind, Read.val_ite, Read.val_pure]
  split_ifs <;> rfl

theorem nextBool_errOff (it : BsonIter) (o x : Nat) (m : Mem) :
    (nextBool { it with errOff := x } o).val m = ((nextBool it o).val m).withErrOff x := by
  simp only [nextBool, corrupt, Read.val_bind, Read.val_ite, Read.val_pure]
  split_ifs <;> rfl

theorem nextRegex_errOff (it : BsonIter) (o x : Nat) (m : Mem) :
    (nextRegex { it with errOff := x } o).val m = ((nextRegex it o).val m).withErrOff x := by
  simp only [nextRegex, corrupt, Read.val_bind]
  cases (Read.scanNul (it.len - o) o).val m with
  | none => rfl
  | some eor =>
    simp only [Read.val_bind]
    cases (Read.scanNul (it.len - u32 (eor + 1)) (u32 (eor + 1))).val m with
    | none => rfl
    | some eoo => rfl

theorem nextDbpointer_errOff (it : BsonIter) (o x : Nat) (m : Mem) :
    (nextDbpointer { it with errOff := x } o).val m = ((nextDbpointer it o).val m).withErrOff x := by
  simp only [nextDbpointer, corrupt, Read.val_bind, Read.val_ite, Read.val_pure]
  split_ifs <;> rfl

theorem nextCodewscope_errOff (it : BsonIter) (o x : Nat) (m : Mem) :
    (nextCodewscope { it with errOff := x } o).val m =
      ((nextCodewscope it o).val m).withErrOff x := by
  simp only [nextCodewscope, corrupt, Read.val_bind, Read.val_ite, Read.val_pure]
  split_ifs <;> rfl

theorem nextValue_errOff (it : BsonIter) (o x : Nat) (t : Option BsonType) (m : Mem) :
    (nextValue { it with errOff := x } o t).val m = ((nextValue it o t).val m).withErrOff x := by
  cases t with
  | none => rfl
  | some t =>
    cases t <;> simp only [nextValue]
    case code | symbol | utf8 => exact nextString_errOff it o x m
    case binary => exact nextBinary_errOff it o x m
    case array | document => exact nextDocument_errOff it o x m
    case bool => exact nextBool_errOff it o x m
    case regex => exact nextRegex_errOff it o x m
    case dbpointer => exact nextDbpointer_errOff it o x m
    case codewscope => exact nextCodewscope_errOff it o x m
    all_goals rfl

/-! ## What a failed step reports -/

/-- The offset a branch reports, or would report, is not 0. -/
def Branch.Reports (b : Branch) : Prop :=
  match b with
  | parsed _ o => o ≠ 0
  | invalid it => it.errOff ≠ 0

theorem nextString_reports (it : BsonIter) (o : Nat) (m : Mem) (h5 : 5 ≤ o) (ho : o ≤ it.len)
    (hl : it.len ≤ maxLen) : ((nextString it o).val m).Reports := by
  unfold maxLen at hl
  simp only [nextString, corrupt, Read.val_bind, Read.val_ite, Read.val_pure]
  split_ifs <;> simp only [Branch.Reports, u32, u32sub] at * <;> omega

theorem nextBinary_reports (it : BsonIter) (o : Nat) (m : Mem) (h5 : 5 ≤ o) (ho : o ≤ it.len)
    (hl : it.len ≤ maxLen) : ((nextBinary it o).val m).Reports := by
  unfold maxLen at hl
  simp only [nextBinary, corrupt, Read.val_bind, Read.val_ite, Read.val_pure]
  split_ifs <;> simp only [Branch.Reports, u32, u32sub] at * <;> omega

theorem nextDocument_reports (it : BsonIter) (o : Nat) (m : Mem) (h5 : 5 ≤ o) :
    ((nextDocument it o).val m).Reports := by
  simp only [nextDocument, corrupt, Read.val_bind, Read.val_ite, Read.val_pure]
  split_ifs <;> simp only [Branch.Reports] <;> omega

theorem nextBool_reports (it : BsonIter) (o : Nat) (m : Mem) (h5 : 5 ≤ o) :
    ((nextBool it o).val m).Reports := by
  simp only [nextBool, corrupt, Read.val_bind, Read.val_ite, Read.val_pure]
  split_ifs <;> simp only [Branch.Reports] <;> omega

theorem nextDbpointer_reports (it : BsonIter) (o : Nat) (m : Mem) (h5 : 5 ≤ o) (ho : o ≤ it.len)
    (hl : it.len ≤ maxLen) : ((nextDbpointer it o).val m).Reports := by
  unfold maxLen at hl
  simp only [nextDbpointer, corrupt, Read.val_bind, Read.val_ite, Read.val_pure]
  split_ifs <;> simp only [Branch.Reports, u32, u32sub] at * <;> omega

theorem nextCodewscope_reports (it : BsonIter) (o : Nat) (m : Mem) (h5 : 5 ≤ o)
    (ho : o ≤ it.len) (hl : it.len ≤ maxLen) : ((nextCodewscope it o).val m).Reports := by
  unfold maxLen at hl
  simp only [nextCodewscope, corrupt, Read.val_bind, Read.val_ite, Read.val_pure]
  split_ifs <;> simp only [Branch.Reports, u32, u32sub] at * <;> omega

theorem nextRegex_reports (it : BsonIter) (o : Nat) (m : Mem) (ho : o ≤ it.len)
    (hl : it.len ≤ maxLen) (h4 : 4 ≤ it.nextOff) : ((nextRegex it o).val m).Reports := by
  unfold maxLen at hl
  simp only [nextRegex, corrupt, Read.val_bind]
  cases hfirst : (Read.scanNul (it.len - o) o).val m with
  | none =>
    simp only [Read.val_pure, Branch.Reports]
    omega
  | some eor =>
    obtain ⟨-, heor, -⟩ := Read.scanNul_some hfirst
    have hu : u32 (eor + 1) = eor + 1 := u32_of_lt (by omega)
    simp only [Read.val_bind, hu]
    cases hsecond : (Read.scanNul (it.len - (eor + 1)) (eor + 1)).val m with
    | none =>
      simp only [Read.val_pure, Branch.Reports]
      omega
    | some eoo =>
      obtain ⟨hge, -⟩ := Read.scanNul_some hsecond
      simp only [Read.val_pure, Branch.Reports]
      omega

theorem nextValue_reports (it : BsonIter) (o : Nat) (t : Option BsonType) (m : Mem) (h5 : 5 ≤ o)
    (ho : o ≤ it.len) (hl : it.len ≤ maxLen) (h4 : 4 ≤ it.nextOff) :
    ((nextValue it o t).val m).Reports := by
  have hcorrupt : ((corrupt it o).val m).Reports := by
    simp only [corrupt, Read.val_pure, Branch.Reports]
    omega
  have hfixed : ∀ w, ((nextFixed it o w).val m).Reports := by
    intro w
    simp only [nextFixed, Read.val_pure, Branch.Reports]
    omega
  cases t with
  | none => exact hcorrupt
  | some t =>
    cases t <;> simp only [nextValue]
    case code | symbol | utf8 => exact nextString_reports it o m h5 ho hl
    case binary => exact nextBinary_reports it o m h5 ho hl
    case array | document => exact nextDocument_reports it o m h5
    case bool => exact nextBool_reports it o m h5
    case regex => exact nextRegex_reports it o m ho hl h4
    case dbpointer => exact nextDbpointer_reports it o m h5 ho hl
    case codewscope => exact nextCodewscope_reports it o m h5 ho hl
    case eod => exact hcorrupt
    case maxkey | minkey | null | undefined =>
      simp only [nextEmpty, Read.val_pure, Branch.Reports]
      omega
    all_goals exact hfixed _

/-- A step forgets the error offset it finds, and one that fails reports one of its own;
but for a step that has no key to read. -/
theorem nextElement_errOff (it : BsonIter) (x : Nat) (m : Mem) (h4 : 4 ≤ it.nextOff)
    (hl : it.len ≤ maxLen) :
    (nextElement { it with errOff := x }).val m = (nextElement it).val m ∧
        (((nextElement it).val m).ok = false → ((nextElement it).val m).iter.errOff ≠ 0) ∨
      ((nextElement it).val m).ok = false ∧ ((nextElement it).val m).iter.errOff = it.errOff ∧
        (nextElement { it with errOff := x }).val m =
          { (nextElement it).val m with
            iter := { ((nextElement it).val m).iter with errOff := x } } := by
  have henter : enterElement { it with errOff := x } = { enterElement it with errOff := x } := rfl
  have herr : it.errOff = (enterElement it).errOff := rfl
  have hoff : (enterElement it).off = it.nextOff := rfl
  have hnext : (enterElement it).nextOff = it.nextOff := rfl
  have hlen : (enterElement it).len = it.len := rfl
  simp only [nextElement, henter, herr, Read.val_bind]
  generalize enterElement it = e at hoff hnext hlen
  cases hscan : (Read.scanNul (e.len - (e.off + 1)) (e.off + 1)).val m with
  | none => exact Or.inr ⟨rfl, rfl, rfl⟩
  | some z =>
    obtain ⟨hge, hlt, -⟩ := Read.scanNul_some hscan
    have hvalue := nextValue_errOff { e with d1 := z + 1 } (z + 1) x
      (BsonType.ofByte ((Read.byte e.type).val m)) m
    have hreports := nextValue_reports { e with d1 := z + 1 } (z + 1)
      (BsonType.ofByte ((Read.byte e.type).val m)) m (by omega) (by dsimp only; omega)
      (by dsimp only; omega) (by dsimp only; omega)
    refine Or.inl ?_
    simp only [fillDataFields, Read.val_bind, hvalue]
    generalize (nextValue { e with d1 := z + 1 } (z + 1)
        (BsonType.ofByte ((Read.byte e.type).val m))).val m = b at hreports ⊢
    cases b with
    | invalid it' => exact ⟨rfl, fun _ => hreports⟩
    | parsed it' o =>
      simp only [Branch.withErrOff, Read.val_ite, Read.val_pure]
      refine ⟨trivial, fun hfail => ?_⟩
      split at hfail
      · next hstop =>
        rw [if_pos hstop]
        exact hreports
      · cases hfail

theorem next_errOff (it : BsonIter) (x : Nat)
    (h : ∀ m, it.raw = some m → 4 ≤ it.nextOff ∧ it.len ≤ maxLen) :
    bsonIterNextInternal { it with errOff := x } = bsonIterNextInternal it ∧
        ((bsonIterNextInternal it).ok = false → (bsonIterNextInternal it).iter.errOff ≠ 0) ∨
      (bsonIterNextInternal it).ok = false ∧ (bsonIterNextInternal it).iter.errOff = it.errOff ∧
        bsonIterNextInternal { it with errOff := x } =
          { bsonIterNextInternal it with
            iter := { (bsonIterNextInternal it).iter with errOff := x } } := by
  unfold bsonIterNextInternal
  cases hraw : it.raw with
  | none => exact Or.inr ⟨rfl, rfl, by simp only [hraw]⟩
  | some m =>
    obtain ⟨h4, hl⟩ := h m hraw
    have hstep := nextElement_errOff it x m h4 hl
    rw [hraw] at hstep
    exact hstep

/-! ## The walk -/

/-- The elements a visit comes to, each with its key, and the iterator it has then. -/
def visitWalk : Nat → BsonIter → List (BsonIter × Bytes) × BsonIter
  | 0, it => ([], it)
  | fuel + 1, it =>
    let next := bsonIterNextInternal it
    let key := (next.key.map fun k => cstringAt it.mem k (it.len - k)).getD []
    if next.ok = false then ([], next.iter)
    else if key ≠ [] ∧ bsonUtf8Validate key false = false then
      ([], { next.iter with errOff := next.iter.off })
    else ((next.iter, key) :: (visitWalk fuel next.iter).1, (visitWalk fuel next.iter).2)

/-- The walk `bson_iter_visit_all` makes. -/
def visitWalkAll (it : BsonIter) : List (BsonIter × Bytes) × BsonIter :=
  visitWalk (it.len + 1) it

variable {σ : Type}

/-- `if (iter->err_off) VISIT_CORRUPT (iter, data);` -/
def visitCorrupt (v : Visitor σ) (it : BsonIter) (data : σ) : σ :=
  if it.errOff = 0 then data else (v.corrupt.map fun f => f it data).getD data

/-- The callbacks on the elements of a walk that has left `fin`. -/
def visitWalked (v : Visitor σ) : List (BsonIter × Bytes) → BsonIter → σ → Visited σ
  | [], fin, data => { stop := false, iter := fin, data := visitCorrupt v fin data }
  | f :: fs, fin, data =>
    let element := visitElement v f.1 f.2 data
    if element.stop then element else visitWalked v fs fin element.data

/-- The turns left are enough to come to the end. -/
structure Turns (fuel : Nat) (it : BsonIter) : Prop where
  pos : 0 < fuel
  start : ∀ m, it.raw = some m → 4 ≤ it.nextOff
  small : ∀ m, it.raw = some m → it.len ≤ maxLen
  enough : ∀ m, it.raw = some m → it.nextOff ≤ it.len → it.len < fuel + it.nextOff

theorem turns_start {m : Mem} {len : Nat} (h : len ≤ maxLen) :
    Turns (len + 1) (BsonIter.start (some m) len) where
  pos := Nat.succ_pos len
  start := fun _ _ => Nat.le_refl 4
  small := fun _ _ => h
  enough := fun _ _ _ => by simp only [BsonIter.start]; omega

theorem raw_of_next_ok {it : BsonIter} (h : (bsonIterNextInternal it).ok = true) :
    ∃ m, it.raw = some m := by
  unfold bsonIterNextInternal at h
  cases hraw : it.raw with
  | none => simp [hraw] at h
  | some m => exact ⟨m, rfl⟩

theorem Turns.next {fuel : Nat} {it : BsonIter} (h : Turns (fuel + 1) it)
    (hok : (bsonIterNextInternal it).ok = true) : Turns fuel (bsonIterNextInternal it).iter := by
  obtain ⟨m, hraw⟩ := raw_of_next_ok hok
  have h4 := h.start m hraw
  have hmax := h.small m hraw
  obtain ⟨o, t, he⟩ := element_of_next hraw h4 hmax hok
  have hprog := he.progress
  have hlen := he.len
  have hturns := h.enough m hraw (by omega)
  exact {
    pos := by omega
    start := fun _ _ => by omega
    small := fun _ _ => by omega
    enough := fun _ _ _ => by omega }

theorem Turns.all {fuel : Nat} {it : BsonIter} (h : Turns fuel it) : Turns (it.len + 1) it where
  pos := Nat.succ_pos it.len
  start := h.start
  small := h.small
  enough := fun m hraw _ => by
    have := h.start m hraw
    omega

/-- With turns enough, a walk does not depend on their number. -/
theorem visitWalk_turns {k n : Nat} {it : BsonIter} (hk : Turns k it) (hn : Turns n it) :
    visitWalk k it = visitWalk n it := by
  induction k generalizing n it with
  | zero => exact absurd hk.pos (Nat.lt_irrefl 0)
  | succ k ih =>
    cases n with
    | zero => exact absurd hn.pos (Nat.lt_irrefl 0)
    | succ n =>
      simp only [visitWalk]
      split
      · rfl
      · next hok =>
        split
        · rfl
        · have hok' : (bsonIterNextInternal it).ok = true := by simpa using hok
          rw [ih (hk.next hok') (hn.next hok')]

theorem visitEnd_corrupt {v : Visitor σ} (hv : v.unsupportedType = none) (it : BsonIter)
    (next : Next) (key : Bytes) (data : σ) :
    visitEnd v it next key data = { stop := false, iter := it, data := visitCorrupt v it data } := by
  unfold visitEnd visitCorrupt
  rw [hv]
  split <;> rfl

/-! ## Where an element leaves the iterator -/

/-- The iterator stays, but for the error offset where the visit refuses a text. -/
def Stays (it : BsonIter) (visited : Visited σ) : Prop :=
  visited.iter = it ∨ visited.iter = { it with errOff := it.off } ∧ visited.stop = true

theorem stays_call {α : Type} (f : Callback σ α) (it : BsonIter) (key : Bytes) (value : α)
    (data : σ) : Stays it (Callback.call f it key value data) := by
  cases f <;> exact Or.inl rfl

theorem stays_text {it : BsonIter} {call : Visited σ} (h : Stays it call) (text : Bytes)
    (data : σ) : Stays it (visitText it text data call) := by
  unfold visitText
  split
  · exact h
  · exact Or.inr ⟨rfl, rfl⟩

theorem stays_static {it : BsonIter} {call : BsonRef → Visited σ} (h : ∀ b, Stays it (call b))
    (p : Slice) (data : σ) : Stays it (visitStatic it p data call) := by
  unfold visitStatic
  split
  · exact Or.inl rfl
  · exact h _

theorem stays_value (v : Visitor σ) (it : BsonIter) (key : Bytes) (data : σ) :
    Stays it (visitValue v it key data) := by
  unfold visitValue
  cases iterType it with
  | none => exact Or.inl rfl
  | some t =>
    cases t <;> dsimp only
    case utf8 | code | symbol | regex | dbpointer =>
      split
      · exact Or.inl rfl
      · exact stays_text (stays_call _ _ _ _ _) _ _
    case codewscope =>
      split
      · exact Or.inl rfl
      · exact stays_text (stays_static (fun _ => stays_call _ _ _ _ _) _ _) _ _
    case document | array =>
      split
      · exact Or.inl rfl
      · exact stays_static (fun _ => stays_call _ _ _ _ _) _ _
    case binary | oid | decimal128 =>
      split
      · exact Or.inl rfl
      · exact stays_call _ _ _ _ _
    case eod => exact Or.inl rfl
    all_goals exact stays_call _ _ _ _ _

theorem stays_element (v : Visitor σ) (it : BsonIter) (key : Bytes) (data : σ) :
    Stays it (visitElement v it key data) := by
  unfold visitElement
  dsimp only
  split
  · exact stays_call _ _ _ _ _
  · split
    · exact stays_value _ _ _ _
    · next hgo =>
      rcases stays_value v it key (Callback.call v.before it key () data).data with h | ⟨-, hs⟩
      · rw [h]
        exact stays_call _ _ _ _ _
      · exact absurd hs hgo

theorem Stays.go {it : BsonIter} {visited : Visited σ} (h : Stays it visited)
    (hgo : visited.stop = false) : visited.iter = it := by
  rcases h with h | ⟨-, hs⟩
  · exact h
  · rw [hs] at hgo
    cases hgo

/-! ## A visit along its walk -/

theorem visitLoop_walked {v : Visitor σ} (hv : v.unsupportedType = none) {fuel : Nat}
    {it : BsonIter} (h : Turns fuel it) (data : σ) :
    visitLoop v fuel it data = visitWalked v (visitWalk fuel it).1 (visitWalk fuel it).2 data := by
  induction fuel generalizing it data with
  | zero => exact absurd h.pos (Nat.lt_irrefl 0)
  | succ fuel ih =>
    simp only [visitLoop, visitWalk, visitEnd_corrupt hv]
    split
    · rfl
    · next hok =>
      split
      · rfl
      · simp only [visitWalked]
        split
        · rfl
        · next hgo =>
          rw [(stays_element _ _ _ _).go (by simpa using hgo)]
          exact ih (h.next (by simpa using hok)) _

theorem visitAll_walked {v : Visitor σ} (hv : v.unsupportedType = none) {fuel : Nat}
    {it : BsonIter} (h : Turns fuel it) (data : σ) :
    bsonIterVisitAll v it data = visitWalked v (visitWalkAll it).1 (visitWalkAll it).2 data :=
  visitLoop_walked hv h.all data

/-- The rest of a walk is the walk from the element in front of it. -/
theorem visitWalk_split {fuel : Nat} {it fin : BsonIter} {pre post : List (BsonIter × Bytes)}
    {f : BsonIter × Bytes} (h : Turns fuel it) (hw : visitWalk fuel it = (pre ++ f :: post, fin)) :
    (∃ k, Turns k f.1) ∧ visitWalkAll f.1 = (post, fin) ∧ f.1.errOff = 0 ∧ f.1.off ≠ 0 := by
  induction fuel generalizing it pre with
  | zero => exact absurd h.pos (Nat.lt_irrefl 0)
  | succ fuel ih =>
    simp only [visitWalk] at hw
    split at hw
    · simp at hw
    · next hok =>
      split at hw
      · simp at hw
      · have hok' : (bsonIterNextInternal it).ok = true := by simpa using hok
        have hnext := h.next hok'
        cases pre with
        | nil =>
          obtain ⟨m, hraw⟩ := raw_of_next_ok hok'
          have h4 := h.start m hraw
          obtain ⟨o, t, he⟩ := element_of_next hraw h4 (h.small m hraw) hok'
          simp only [List.nil_append, Prod.mk.injEq, List.cons.injEq] at hw
          obtain ⟨⟨rfl, hpost⟩, hfin⟩ := hw
          refine ⟨⟨fuel, hnext⟩, ?_, he.err, ?_⟩
          · rw [visitWalkAll, visitWalk_turns hnext.all hnext]
            exact Prod.ext hpost hfin
          · have := he.off
            dsimp only
            omega
        | cons g pre =>
          simp only [List.cons_append, Prod.mk.injEq, List.cons.injEq] at hw
          obtain ⟨⟨rfl, hpost⟩, hfin⟩ := hw
          exact ih hnext (Prod.ext hpost hfin)

/-- The walk from an iterator on which an error offset was set. -/
theorem visitWalkAll_errOff {fuel : Nat} {it : BsonIter} (h : Turns fuel it) (x : Nat) :
    visitWalkAll { it with errOff := x } = visitWalkAll it ∧
        ((visitWalkAll it).1 = [] → (visitWalkAll it).2.errOff ≠ 0) ∨
      (visitWalkAll it).1 = [] ∧ (visitWalkAll it).2.errOff = it.errOff ∧
        visitWalkAll { it with errOff := x } = ([], { (visitWalkAll it).2 with errOff := x }) := by
  rcases next_errOff it x (fun m hraw => ⟨h.start m hraw, h.small m hraw⟩) with
    ⟨heq, hreport⟩ | ⟨hok, herr, heq⟩
  · refine Or.inl ⟨?_, fun hnil => ?_⟩
    · simp only [visitWalkAll, visitWalk, heq]
      rfl
    · simp only [visitWalkAll, visitWalk] at hnil ⊢
      split at hnil
      · next hok =>
        rw [if_pos hok]
        exact hreport hok
      · next hok =>
        rw [if_neg hok]
        split at hnil
        · next hkey =>
          have hok' : (bsonIterNextInternal it).ok = true := by simpa using hok
          obtain ⟨m, hraw⟩ := raw_of_next_ok hok'
          have h4 := h.start m hraw
          obtain ⟨o, t, he⟩ := element_of_next hraw h4 (h.small m hraw) hok'
          have hoff := he.off
          rw [if_pos hkey]
          dsimp only
          omega
        · cases hnil
  · refine Or.inr ?_
    simp only [visitWalkAll, visitWalk, heq, hok, if_true]
    exact ⟨trivial, herr, trivial⟩

/-- Behind a walk without an error there is nothing left. -/
theorem visitWalk_end {fuel : Nat} {it : BsonIter} (h : Turns fuel it)
    (herr : (visitWalk fuel it).2.errOff = 0) : (visitWalk fuel it).2.raw = none := by
  induction fuel generalizing it with
  | zero => exact absurd h.pos (Nat.lt_irrefl 0)
  | succ fuel ih =>
    simp only [visitWalk] at herr ⊢
    split at herr
    · next hok =>
      rw [if_pos hok]
      exact raw_of_next_fail it hok
    · next hok =>
      have hok' : (bsonIterNextInternal it).ok = true := by simpa using hok
      rw [if_neg hok]
      split at herr
      · obtain ⟨m, hraw⟩ := raw_of_next_ok hok'
        have h4 := h.start m hraw
        obtain ⟨o, t, he⟩ := element_of_next hraw h4 (h.small m hraw) hok'
        have hoff := he.off
        dsimp only at herr
        omega
      · next hkey =>
        rw [if_neg hkey]
        exact ih (h.next hok') herr

theorem visitWalkAll_none {it : BsonIter} (h : it.raw = none) : visitWalkAll it = ([], it) := by
  simp [visitWalkAll, visitWalk, bsonIterNextInternal, h]

end LibBson.Source
