import LibBson.Source.VisitWalk

/-!
# A count beside a visit

`Visitor.beside` are the callbacks of a visitor, with a second value that they carry
along: the callbacks for documents, arrays and code with scope change it, the others
leave it. The first value is what the visitor alone would leave (`visitAll_beside`).
-/

set_option autoImplicit false

namespace LibBson.Source
open LibBson.Library

variable {σ τ α : Type}

/-- What is done to the second value, given the callback's argument and the first. -/
abbrev Beside (σ τ α : Type) : Type := α → σ → τ → τ

structure Besides (σ τ : Type) where
  document : Beside σ τ BsonRef
  array : Beside σ τ BsonRef
  codewscope : Beside σ τ (Bytes × BsonRef)

def Callback.beside (f : Callback σ α) (count : Beside σ τ α) : Callback (σ × τ) α :=
  some fun it key value data =>
    let visited := Callback.call f it key value data.1
    (visited.stop, visited.data, count value data.1 data.2)

/-- The second value is left as it is. -/
def Callback.aside (f : Callback σ α) : Callback (σ × τ) α := f.beside fun _ _ c => c

def Visitor.beside (v : Visitor σ) (count : Besides σ τ) : Visitor (σ × τ) where
  before := v.before.aside
  after := v.after.aside
  corrupt := v.corrupt.map fun f it data => (f it data.1, data.2)
  double := v.double.aside
  utf8 := v.utf8.aside
  document := v.document.beside count.document
  array := v.array.beside count.array
  binary := v.binary.aside
  undefined := v.undefined.aside
  oid := v.oid.aside
  bool := v.bool.aside
  dateTime := v.dateTime.aside
  null := v.null.aside
  regex := v.regex.aside
  dbpointer := v.dbpointer.aside
  code := v.code.aside
  symbol := v.symbol.aside
  codewscope := v.codewscope.beside count.codewscope
  int32 := v.int32.aside
  timestamp := v.timestamp.aside
  int64 := v.int64.aside
  maxkey := v.maxkey.aside
  minkey := v.minkey.aside
  unsupportedType := v.unsupportedType.map fun f it key t data => (f it key t data.1, data.2)
  decimal128 := v.decimal128.aside

def Visited.beside (visited : Visited σ) (c : τ) : Visited (σ × τ) :=
  { stop := visited.stop, iter := visited.iter, data := (visited.data, c) }

/-! ## The documents in a field -/

/-- The document or array a callback is given, and whether it is a document. -/
def nestedDocument (it : BsonIter) : Option (Bool × BsonRef) :=
  match iterType it with
  | some .document => ((bsonIterDocument it).bind it.initStatic).map fun b => (true, b)
  | some .array => ((bsonIterArray it).bind it.initStatic).map fun b => (false, b)
  | _ => none

/-- The code and the scope a callback is given. -/
def scopeDocument (it : BsonIter) : Option (Bytes × BsonRef) :=
  match iterType it with
  | some .codewscope =>
    match bsonIterCodewscope it with
    | none => none
    | some (p, q) =>
      if bsonUtf8Validate (it.octets p) true then
        (it.initStatic q).map fun b => (it.octets p, b)
      else none
  | _ => none

/-- What the callback for a field does to the second value. -/
def Besides.field (count : Besides σ τ) (it : BsonIter) (data : σ) (c : τ) : τ :=
  match nestedDocument it, scopeDocument it with
  | some (true, b), _ => count.document b data c
  | some (false, b), _ => count.array b data c
  | none, some v => count.codewscope v data c
  | none, none => c

section Beside

variable {v : Visitor σ} {count : Besides σ τ}

theorem Callback.call_beside (f : Callback σ α) (count : Beside σ τ α) (it : BsonIter) (key : Bytes)
    (value : α) (data : σ) (c : τ) :
    Callback.call (f.beside count) it key value (data, c) =
      (Callback.call f it key value data).beside (count value data c) := by
  cases f with
  | none => rfl
  | some f => rfl

theorem Callback.call_aside (f : Callback σ α) (it : BsonIter) (key : Bytes) (value : α)
    (data : σ) (c : τ) :
    Callback.call f.aside it key value (data, c) = (Callback.call f it key value data).beside c :=
  Callback.call_beside f _ it key value data c

theorem visitText_beside (it : BsonIter) (text : Bytes) (data : σ) (c : τ) {call : Visited (σ × τ)}
    {plain : Visited σ} {c' : τ} (h : call = plain.beside c') :
    visitText it text (data, c) call =
      (visitText it text data plain).beside (if bsonUtf8Validate text true then c' else c) := by
  unfold visitText
  split
  · exact h
  · rfl

theorem visitStatic_beside (it : BsonIter) (p : Slice) (data : σ) (c : τ)
    {call : BsonRef → Visited (σ × τ)} {plain : BsonRef → Visited σ} {c' : BsonRef → τ}
    (h : ∀ b, call b = (plain b).beside (c' b)) :
    visitStatic it p (data, c) call =
      (visitStatic it p data plain).beside (((it.initStatic p).map c').getD c) := by
  unfold visitStatic
  cases it.initStatic p with
  | none => rfl
  | some b => exact h b

theorem visitText_aside (f : Callback σ α) (it : BsonIter) (text key : Bytes) (value : α) (data : σ)
    (c : τ) :
    visitText it text (data, c) (Callback.call f.aside it key value (data, c)) =
      (visitText it text data (Callback.call f it key value data)).beside c := by
  have h := visitText_beside it text data c (Callback.call_aside f it key value data c)
  rw [ite_self] at h
  exact h

theorem visitValue_beside (it : BsonIter) (key : Bytes) (data : σ) (c : τ) :
    visitValue (v.beside count) it key (data, c) =
      (visitValue v it key data).beside (count.field it data c) := by
  unfold visitValue Besides.field nestedDocument scopeDocument
  cases iterType it with
  | none => rfl
  | some t =>
    cases t
    case eod => rfl
    case double | undefined | bool | dateTime | null | int32 | timestamp | int64 | maxkey | minkey =>
      exact Callback.call_aside _ _ _ _ _ _
    case utf8 =>
      cases bsonIterUtf8 it with
      | none => rfl
      | some p => exact visitText_aside _ _ _ _ _ _ _
    case code =>
      cases bsonIterCode it with
      | none => rfl
      | some p => exact visitText_aside _ _ _ _ _ _ _
    case symbol =>
      cases bsonIterSymbol it with
      | none => rfl
      | some p => exact visitText_aside _ _ _ _ _ _ _
    case regex =>
      cases bsonIterRegex it with
      | none => rfl
      | some p => exact visitText_aside _ _ _ _ _ _ _
    case dbpointer =>
      cases bsonIterDbpointer it with
      | none => rfl
      | some p => exact visitText_aside _ _ _ _ _ _ _
    case binary =>
      cases bsonIterBinary it with
      | none => rfl
      | some p => exact Callback.call_aside _ _ _ _ _ _
    case oid =>
      cases bsonIterOid it with
      | none => rfl
      | some o => exact Callback.call_aside _ _ _ _ _ _
    case decimal128 =>
      cases bsonIterDecimal128 it with
      | none => rfl
      | some d => exact Callback.call_aside _ _ _ _ _ _
    case document =>
      cases bsonIterDocument it with
      | none => rfl
      | some p =>
        have h := visitStatic_beside it p data c fun b =>
          Callback.call_beside v.document count.document it key b data c
        dsimp only [Option.bind_some]
        cases hb : it.initStatic p with
        | none =>
          rw [hb] at h
          exact h
        | some b =>
          rw [hb] at h
          exact h
    case array =>
      cases bsonIterArray it with
      | none => rfl
      | some p =>
        have h := visitStatic_beside it p data c fun b =>
          Callback.call_beside v.array count.array it key b data c
        dsimp only [Option.bind_some]
        cases hb : it.initStatic p with
        | none =>
          rw [hb] at h
          exact h
        | some b =>
          rw [hb] at h
          exact h
    case codewscope =>
      cases bsonIterCodewscope it with
      | none => rfl
      | some p =>
        have hstatic := visitStatic_beside it p.2 data c fun b =>
          Callback.call_beside v.codewscope count.codewscope it key (it.octets p.1, b) data c
        have htext := visitText_beside it (it.octets p.1) data c hstatic
        dsimp only
        cases hvalid : bsonUtf8Validate (it.octets p.1) true with
        | false =>
          rw [hvalid] at htext
          exact htext
        | true =>
          rw [hvalid] at htext
          cases hb : it.initStatic p.2 with
          | none =>
            rw [hb] at htext
            exact htext
          | some b =>
            rw [hb] at htext
            exact htext

/-- A field: where its value is visited, what that does to the second value. -/
def Besides.element (v : Visitor σ) (count : Besides σ τ) (f : BsonIter × Bytes) (data : σ) (c : τ) :
    τ :=
  let before := Callback.call v.before f.1 f.2 () data
  if before.stop then c else count.field f.1 before.data c

theorem visitElement_beside (f : BsonIter × Bytes) (data : σ) (c : τ) :
    visitElement (v.beside count) f.1 f.2 (data, c) =
      (visitElement v f.1 f.2 data).beside (count.element v f data c) := by
  have hbefore : Callback.call (v.beside count).before f.1 f.2 () (data, c) =
      (Callback.call v.before f.1 f.2 () data).beside c := Callback.call_aside _ _ _ _ _ _
  simp only [visitElement, Besides.element, hbefore]
  cases hstop : (Callback.call v.before f.1 f.2 () data).stop with
  | true => simp [Visited.beside, hstop]
  | false =>
    simp only [Visited.beside, hstop, Bool.false_eq_true, if_false, visitValue_beside]
    split
    · rfl
    · exact Callback.call_aside _ _ _ _ _ _

/-- The fields of a walk, up to the one at which the visit stops. -/
def Besides.walked (v : Visitor σ) (count : Besides σ τ) : List (BsonIter × Bytes) → σ → τ → τ
  | [], _, c => c
  | f :: fs, data, c =>
    let element := visitElement v f.1 f.2 data
    let c := count.element v f data c
    if element.stop then c else count.walked v fs element.data c

theorem visitWalked_beside (fs : List (BsonIter × Bytes)) (fin : BsonIter) (data : σ) (c : τ) :
    visitWalked (v.beside count) fs fin (data, c) =
      (visitWalked v fs fin data).beside (count.walked v fs data c) := by
  induction fs generalizing data c with
  | nil =>
    simp only [visitWalked, visitCorrupt, Besides.walked, Visited.beside, Visitor.beside]
    split
    · rfl
    · cases v.corrupt with
      | none => rfl
      | some f => rfl
  | cons f fs ih =>
    simp only [visitWalked, Besides.walked, visitElement_beside]
    cases hstop : (visitElement v f.1 f.2 data).stop with
    | true => simp [Visited.beside, hstop]
    | false => simpa [Visited.beside, hstop] using ih _ _

/-- The visitor with the count does what the visitor alone does. -/
theorem visitAll_beside (hv : v.unsupportedType = none) {fuel : Nat} {it : BsonIter}
    (h : Turns fuel it) (data : σ) (c : τ) :
    bsonIterVisitAll (v.beside count) it (data, c) =
      (bsonIterVisitAll v it data).beside (count.walked v (visitWalkAll it).1 data c) := by
  have hv' : (v.beside count).unsupportedType = none := by
    simp only [Visitor.beside, hv, Option.map_none]
  rw [visitAll_walked hv' h, visitAll_walked hv h]
  exact visitWalked_beside _ _ _ _

end Beside

/-! ## The fields a visit reaches -/

/-- The callback for the value of the field is called, in the state `data'`. -/
inductive FieldReached (v : Visitor σ) :
    List (BsonIter × Bytes) → σ → BsonIter → σ → Prop
  | here (f : BsonIter × Bytes) (fs : List (BsonIter × Bytes)) (data : σ)
    (hgo : (Callback.call v.before f.1 f.2 () data).stop = false) :
    FieldReached v (f :: fs) data f.1 (Callback.call v.before f.1 f.2 () data).data
  | later {f : BsonIter × Bytes} {fs : List (BsonIter × Bytes)} {data data' : σ} {it : BsonIter}
    (hgo : (visitElement v f.1 f.2 data).stop = false)
    (h : FieldReached v fs (visitElement v f.1 f.2 data).data it data') :
    FieldReached v (f :: fs) data it data'

theorem fieldReached_cons {v : Visitor σ} {f : BsonIter × Bytes} {fs : List (BsonIter × Bytes)}
    {data data' : σ} {it : BsonIter} :
    FieldReached v (f :: fs) data it data' ↔
      (Callback.call v.before f.1 f.2 () data).stop = false ∧ it = f.1 ∧
          data' = (Callback.call v.before f.1 f.2 () data).data ∨
        (visitElement v f.1 f.2 data).stop = false ∧
          FieldReached v fs (visitElement v f.1 f.2 data).data it data' := by
  constructor
  · intro h
    cases h with
    | here f fs data hgo => exact Or.inl ⟨hgo, rfl, rfl⟩
    | later hgo h => exact Or.inr ⟨hgo, h⟩
  · rintro (⟨hgo, rfl, rfl⟩ | ⟨hgo, h⟩)
    · exact .here f fs data hgo
    · exact .later hgo h

theorem not_fieldReached_nil {v : Visitor σ} {data data' : σ} {it : BsonIter} :
    ¬ FieldReached v [] data it data' := nofun

theorem FieldReached.keeps {v : Visitor σ} {I : σ → Prop} (hv : v.Keeps I)
    {fs : List (BsonIter × Bytes)} {data data' : σ} {it : BsonIter}
    (h : FieldReached v fs data it data') (hdata : I data) : I data' := by
  induction h with
  | here f fs data hgo => exact hv.before.call _ _ _ hdata
  | later hgo h ih => exact ih (visitElement_keeps hv _ _ hdata)

end LibBson.Source
