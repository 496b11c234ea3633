import LibBson.Source.IterRuns
import LibBson.Source.Visit

/-!
# Rules for visits

`visitLoop_keeps`: what every callback keeps of the user data, a visit keeps.
`visitLoop_end` and `visitLoop_field` are the two ways a turn of the loop goes.
-/

set_option autoImplicit false

namespace LibBson.Source
open LibBson.Library

variable {σ α : Type}

/-! ## Invariants of the user data -/

def Callback.Keeps (f : Callback σ α) (I : σ → Prop) : Prop :=
  ∀ g, f = some g → ∀ it key value data, I data → I (g it key value data).2

/-- Every callback keeps `I`. -/
structure Visitor.Keeps (v : Visitor σ) (I : σ → Prop) : Prop where
  before : Callback.Keeps v.before I
  after : Callback.Keeps v.after I
  corrupt : ∀ g, v.corrupt = some g → ∀ it data, I data → I (g it data)
  double : Callback.Keeps v.double I
  utf8 : Callback.Keeps v.utf8 I
  document : Callback.Keeps v.document I
  array : Callback.Keeps v.array I
  binary : Callback.Keeps v.binary I
  undefined : Callback.Keeps v.undefined I
  oid : Callback.Keeps v.oid I
  bool : Callback.Keeps v.bool I
  dateTime : Callback.Keeps v.dateTime I
  null : Callback.Keeps v.null I
  regex : Callback.Keeps v.regex I
  dbpointer : Callback.Keeps v.dbpointer I
  code : Callback.Keeps v.code I
  symbol : Callback.Keeps v.symbol I
  codewscope : Callback.Keeps v.codewscope I
  int32 : Callback.Keeps v.int32 I
  timestamp : Callback.Keeps v.timestamp I
  int64 : Callback.Keeps v.int64 I
  maxkey : Callback.Keeps v.maxkey I
  minkey : Callback.Keeps v.minkey I
  unsupportedType : ∀ g, v.unsupportedType = some g → ∀ it key t data, I data → I (g it key t data)
  decimal128 : Callback.Keeps v.decimal128 I

theorem Callback.keeps_none (I : σ → Prop) : Callback.Keeps (none : Callback σ α) I :=
  fun _ h => nomatch h

theorem Callback.keeps_some {I : σ → Prop} {f : BsonIter → Bytes → α → σ → Bool × σ}
    (h : ∀ it key value data, I data → I (f it key value data).2) :
    Callback.Keeps (some f) I := by
  rintro g hg
  cases hg
  exact h

theorem Callback.Keeps.call {f : Callback σ α} {I : σ → Prop} (h : Callback.Keeps f I)
    (it : BsonIter) (key : Bytes) (value : α) {data : σ} (hd : I data) :
    I (Callback.call f it key value data).data := by
  cases f with
  | none => exact hd
  | some g => exact h g rfl it key value data hd

theorem visitText_keeps {I : σ → Prop} {it : BsonIter} {text : Bytes} {data : σ}
    {call : Visited σ} (hd : I data) (hc : I call.data) : I (visitText it text data call).data := by
  unfold visitText
  split
  · exact hc
  · exact hd

theorem visitStatic_keeps {I : σ → Prop} {it : BsonIter} {p : Slice} {data : σ}
    {call : BsonRef → Visited σ} (hd : I data) (hc : ∀ b, I (call b).data) :
    I (visitStatic it p data call).data := by
  unfold visitStatic
  split
  · exact hd
  · exact hc _

theorem visitValue_keeps {v : Visitor σ} {I : σ → Prop} (hv : v.Keeps I) (it : BsonIter)
    (key : Bytes) {data : σ} (hd : I data) : I (visitValue v it key data).data := by
  unfold visitValue
  cases iterType it with
  | none => exact hd
  | some t =>
    cases t
    case eod => exact hd
    case double => exact hv.double.call _ _ _ hd
    case undefined => exact hv.undefined.call _ _ _ hd
    case bool => exact hv.bool.call _ _ _ hd
    case dateTime => exact hv.dateTime.call _ _ _ hd
    case null => exact hv.null.call _ _ _ hd
    case int32 => exact hv.int32.call _ _ _ hd
    case timestamp => exact hv.timestamp.call _ _ _ hd
    case int64 => exact hv.int64.call _ _ _ hd
    case maxkey => exact hv.maxkey.call _ _ _ hd
    case minkey => exact hv.minkey.call _ _ _ hd
    case utf8 =>
      cases bsonIterUtf8 it with
      | none => exact hd
      | some p => exact visitText_keeps hd (hv.utf8.call _ _ _ hd)
    case document =>
      cases bsonIterDocument it with
      | none => exact hd
      | some p => exact visitStatic_keeps hd fun b => hv.document.call _ _ _ hd
    case array =>
      cases bsonIterArray it with
      | none => exact hd
      | some p => exact visitStatic_keeps hd fun b => hv.array.call _ _ _ hd
    case binary =>
      cases bsonIterBinary it with
      | none => exact hd
      | some p => exact hv.binary.call _ _ _ hd
    case oid =>
      cases bsonIterOid it with
      | none => exact hd
      | some o => exact hv.oid.call _ _ _ hd
    case regex =>
      cases bsonIterRegex it with
      | none => exact hd
      | some p => exact visitText_keeps hd (hv.regex.call _ _ _ hd)
    case dbpointer =>
      cases bsonIterDbpointer it with
      | none => exact hd
      | some p => exact visitText_keeps hd (hv.dbpointer.call _ _ _ hd)
    case code =>
      cases bsonIterCode it with
      | none => exact hd
      | some p => exact visitText_keeps hd (hv.code.call _ _ _ hd)
    case symbol =>
      cases bsonIterSymbol it with
      | none => exact hd
      | some p => exact visitText_keeps hd (hv.symbol.call _ _ _ hd)
    case codewscope =>
      cases bsonIterCodewscope it with
      | none => exact hd
      | some p =>
        exact visitText_keeps hd (visitStatic_keeps hd fun b => hv.codewscope.call _ _ _ hd)
    case decimal128 =>
      cases bsonIterDecimal128 it with
      | none => exact hd
      | some d => exact hv.decimal128.call _ _ _ hd

theorem visitElement_keeps {v : Visitor σ} {I : σ → Prop} (hv : v.Keeps I) (it : BsonIter)
    (key : Bytes) {data : σ} (hd : I data) : I (visitElement v it key data).data := by
  have hb := hv.before.call it key () hd
  have hval := visitValue_keeps hv it key hb
  unfold visitElement
  dsimp only
  split
  · exact hb
  · split
    · exact hval
    · exact hv.after.call _ _ _ hval

theorem visitEnd_keeps {v : Visitor σ} {I : σ → Prop} (hv : v.Keeps I) (it : BsonIter)
    (next : Next) (key : Bytes) {data : σ} (hd : I data) :
    I (visitEnd v it next key data).data := by
  unfold visitEnd
  split
  · exact hd
  · split
    · next f hf _ => exact hv.unsupportedType f hf _ _ _ _ hd
    · cases hc : v.corrupt with
      | none => exact hd
      | some g => exact hv.corrupt g hc _ _ hd

/-- A visit keeps what every callback keeps. -/
theorem visitLoop_keeps {v : Visitor σ} {I : σ → Prop} (hv : v.Keeps I) (fuel : Nat)
    (it : BsonIter) {data : σ} (hd : I data) : I (visitLoop v fuel it data).data := by
  induction fuel generalizing it data with
  | zero => exact hd
  | succ fuel ih =>
    unfold visitLoop
    dsimp only
    split
    · exact visitEnd_keeps hv _ _ _ hd
    · split
      · exact visitEnd_keeps hv _ _ _ hd
      · have he := visitElement_keeps hv (bsonIterNextInternal it).iter
          (((bsonIterNextInternal it).key.map fun k => cstringAt it.mem k (it.len - k)).getD []) hd
        split
        · exact he
        · exact ih _ he

/-! ## Turns of the loop -/

/-- A value that does not stop the visit leaves the iterator where it is. -/
theorem visitValue_iter {v : Visitor σ} {it : BsonIter} {key : Bytes} {data : σ}
    (h : (visitValue v it key data).stop = false) : (visitValue v it key data).iter = it := by
  have hcall : ∀ {α : Type} (f : Callback σ α) (a : α),
      (Callback.call f it key a data).iter = it := fun f a => by cases f <;> rfl
  have htext : ∀ (s : Bytes) (call : Visited σ), call.iter = it →
      (visitText it s data call).stop = false → (visitText it s data call).iter = it := by
    intro s call hc hs
    unfold visitText at *
    split at hs
    · next hv => rw [if_pos hv]; exact hc
    · cases hs
  have hstatic : ∀ (p : Slice) (call : BsonRef → Visited σ), (∀ b, (call b).iter = it) →
      (visitStatic it p data call).iter = it := by
    intro p call hc
    unfold visitStatic
    split
    · rfl
    · exact hc _
  unfold visitValue at *
  cases htype : iterType it with
  | none => rfl
  | some t =>
    rw [htype] at h
    cases t <;> simp only at h ⊢
    case utf8 | code | symbol | regex | dbpointer =>
      split at h
      · rfl
      · exact htext _ _ (hcall _ _) h
    case codewscope =>
      split at h
      · rfl
      · exact htext _ _ (hstatic _ _ fun b => hcall _ _) h
    case document | array =>
      split
      · rfl
      · exact hstatic _ _ fun b => hcall _ _
    case binary | oid | decimal128 =>
      split
      · rfl
      · exact hcall _ _
    all_goals exact hcall _ _

/-- The out parameter `key` of a successful step. -/
theorem next_key {it : BsonIter} (h : (bsonIterNextInternal it).ok = true) :
    (bsonIterNextInternal it).key = some (u32 (it.nextOff + 1)) := by
  unfold bsonIterNextInternal at *
  cases hraw : it.raw with
  | none => simp [hraw] at h
  | some m =>
    simp only [hraw, nextElement, Read.val_bind] at h ⊢
    split at h
    · cases h
    · simp only [fillDataFields, Read.val_bind] at h ⊢
      split at h
      · cases h
      · next hv =>
        split
        · rfl
        · rfl

/-- The loop ends where a step fails, and reports what the step has found. -/
theorem visitLoop_end {v : Visitor σ} {it : BsonIter} {data : σ} (fuel : Nat)
    (hv : v.unsupportedType = none) (h : (bsonIterNextInternal it).ok = false) :
    (visitLoop v (fuel + 1) it data).data =
      if (bsonIterNextInternal it).iter.errOff = 0 then data
      else (v.corrupt.map fun f => f (bsonIterNextInternal it).iter data).getD data := by
  simp only [visitLoop, h, if_true, visitEnd, hv]
  split <;> rfl

/-- The key a turn reads is that of the element it has stepped to. -/
theorem key_of_next {it : BsonIter} {m : Mem} {o : Nat} {t : BsonType} (hraw : it.raw = some m)
    (hmax : it.len ≤ maxLen) (hok : (bsonIterNextInternal it).ok = true)
    (he : Element m it (bsonIterNext it).2 o t) :
    ((bsonIterNextInternal it).key.map fun k => cstringAt it.mem k (it.len - k)).getD [] =
      bsonIterKeyUnsafe (bsonIterNext it).2 := by
  have hmem : (bsonIterNext it).2.mem = it.mem := by
    rw [he.mem_eq]
    simp [BsonIter.mem, hraw]
  have hin := he.progress
  unfold maxLen at hmax
  rw [next_key hok, Option.map_some, Option.getD_some, bsonIterKeyUnsafe, hmem, he.len, he.key,
    u32_of_lt (by omega)]

/-- A turn on an element: its key is checked first. -/
theorem visitLoop_field {v : Visitor σ} {it : BsonIter} {m : Mem} {o : Nat} {t : BsonType} {data : σ}
    (fuel : Nat) (hraw : it.raw = some m) (hmax : it.len ≤ maxLen)
    (hok : (bsonIterNextInternal it).ok = true)
    (he : Element m it (bsonIterNext it).2 o t) :
    visitLoop v (fuel + 1) it data =
      let e := (bsonIterNext it).2
      let key := bsonIterKeyUnsafe e
      if key ≠ [] ∧ bsonUtf8Validate key false = false then
        visitEnd v { e with errOff := e.off } (bsonIterNextInternal it) key data
      else
        let element := visitElement v e key data
        if element.stop then element else visitLoop v fuel element.iter element.data := by
  simp only [visitLoop, hok, key_of_next hraw hmax hok he, Bool.true_eq_false, if_false]
  rfl

end LibBson.Source
