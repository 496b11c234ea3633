import LibBson.Source.AsJson
import LibBson.Source.VisitWalk

/-!
# What a callback adds to the state

A callback adds calls behind those made before and reads neither them nor the cell of
the error offset: it commutes with `resumed`, which puts calls in front. So what the
printing of a value adds can be read off from a blank state (`visitValue_blank`).
-/

set_option autoImplicit false

namespace LibBson.Source
open LibBson.Library

/-! ## Visitors that commute with a map of the data -/

section Commutes

variable {σ α : Type}

def Callback.Commutes (f : Callback σ α) (φ : σ → σ) : Prop :=
  ∀ g, f = some g → ∀ it key value data,
    g it key value (φ data) = ((g it key value data).1, φ (g it key value data).2)

def Visited.map (φ : σ → σ) (visited : Visited σ) : Visited σ :=
  { visited with data := φ visited.data }

/-- The callbacks for values commute with `φ`. -/
structure Visitor.ValuesCommute (v : Visitor σ) (φ : σ → σ) : Prop where
  double : Callback.Commutes v.double φ
  utf8 : Callback.Commutes v.utf8 φ
  document : Callback.Commutes v.document φ
  array : Callback.Commutes v.array φ
  binary : Callback.Commutes v.binary φ
  undefined : Callback.Commutes v.undefined φ
  oid : Callback.Commutes v.oid φ
  bool : Callback.Commutes v.bool φ
  dateTime : Callback.Commutes v.dateTime φ
  null : Callback.Commutes v.null φ
  regex : Callback.Commutes v.regex φ
  dbpointer : Callback.Commutes v.dbpointer φ
  code : Callback.Commutes v.code φ
  symbol : Callback.Commutes v.symbol φ
  codewscope : Callback.Commutes v.codewscope φ
  int32 : Callback.Commutes v.int32 φ
  timestamp : Callback.Commutes v.timestamp φ
  int64 : Callback.Commutes v.int64 φ
  maxkey : Callback.Commutes v.maxkey φ
  minkey : Callback.Commutes v.minkey φ
  decimal128 : Callback.Commutes v.decimal128 φ

theorem Callback.commutes_none (φ : σ → σ) : Callback.Commutes (none : Callback σ α) φ :=
  fun _ h => nomatch h

theorem Callback.commutes_some {φ : σ → σ} {f : BsonIter → Bytes → α → σ → Bool × σ}
    (h : ∀ it key value data,
      f it key value (φ data) = ((f it key value data).1, φ (f it key value data).2)) :
    Callback.Commutes (some f) φ := by
  intro g hg
  cases hg
  exact h

theorem Callback.Commutes.call {f : Callback σ α} {φ : σ → σ} (h : Callback.Commutes f φ)
    (it : BsonIter) (key : Bytes) (value : α) (data : σ) :
    Callback.call f it key value (φ data) = (Callback.call f it key value data).map φ := by
  cases f with
  | none => rfl
  | some g => simp only [Callback.call, h g rfl, Visited.map]

theorem visitText_map (φ : σ → σ) (it : BsonIter) (text : Bytes) (data : σ)
    {call call' : Visited σ} (hc : call' = call.map φ) :
    visitText it text (φ data) call' = (visitText it text data call).map φ := by
  unfold visitText
  split
  · exact hc
  · rfl

theorem visitStatic_map (φ : σ → σ) (it : BsonIter) (p : Slice) (data : σ)
    {call call' : BsonRef → Visited σ} (hc : ∀ b, call' b = (call b).map φ) :
    visitStatic it p (φ data) call' = (visitStatic it p data call).map φ := by
  unfold visitStatic
  split
  · rfl
  · exact hc _

theorem visitValue_map {v : Visitor σ} {φ : σ → σ} (hv : v.ValuesCommute φ) (it : BsonIter)
    (key : Bytes) (data : σ) :
    visitValue v it key (φ data) = (visitValue v it key data).map φ := by
  unfold visitValue
  cases iterType it with
  | none => rfl
  | some t =>
    cases t
    case eod => rfl
    case double => exact hv.double.call _ _ _ _
    case undefined => exact hv.undefined.call _ _ _ _
    case bool => exact hv.bool.call _ _ _ _
    case dateTime => exact hv.dateTime.call _ _ _ _
    case null => exact hv.null.call _ _ _ _
    case int32 => exact hv.int32.call _ _ _ _
    case timestamp => exact hv.timestamp.call _ _ _ _
    case int64 => exact hv.int64.call _ _ _ _
    case maxkey => exact hv.maxkey.call _ _ _ _
    case minkey => exact hv.minkey.call _ _ _ _
    case utf8 =>
      cases bsonIterUtf8 it with
      | none => rfl
      | some p => exact visitText_map φ _ _ _ (hv.utf8.call _ _ _ _)
    case document =>
      cases bsonIterDocument it with
      | none => rfl
      | some p => exact visitStatic_map φ _ _ _ fun b => hv.document.call _ _ _ _
    case array =>
      cases bsonIterArray it with
      | none => rfl
      | some p => exact visitStatic_map φ _ _ _ fun b => hv.array.call _ _ _ _
    case binary =>
      cases bsonIterBinary it with
      | none => rfl
      | some p => exact hv.binary.call _ _ _ _
    case oid =>
      cases bsonIterOid it with
      | none => rfl
      | some o => exact hv.oid.call _ _ _ _
    case regex =>
      cases bsonIterRegex it with
      | none => rfl
      | some p => exact visitText_map φ _ _ _ (hv.regex.call _ _ _ _)
    case dbpointer =>
      cases bsonIterDbpointer it with
      | none => rfl
      | some p => exact visitText_map φ _ _ _ (hv.dbpointer.call _ _ _ _)
    case code =>
      cases bsonIterCode it with
      | none => rfl
      | some p => exact visitText_map φ _ _ _ (hv.code.call _ _ _ _)
    case symbol =>
      cases bsonIterSymbol it with
      | none => rfl
      | some p => exact visitText_map φ _ _ _ (hv.symbol.call _ _ _ _)
    case codewscope =>
      cases bsonIterCodewscope it with
      | none => rfl
      | some p =>
        exact visitText_map φ _ _ _ (visitStatic_map φ _ _ _ fun b => hv.codewscope.call _ _ _ _)
    case decimal128 =>
      cases bsonIterDecimal128 it with
      | none => rfl
      | some d => exact hv.decimal128.call _ _ _ _

/-- All callbacks commute with `φ`. -/
structure Visitor.Commutes (v : Visitor σ) (φ : σ → σ) : Prop where
  values : v.ValuesCommute φ
  before : Callback.Commutes v.before φ
  after : Callback.Commutes v.after φ
  corrupt : ∀ g, v.corrupt = some g → ∀ it data, g it (φ data) = φ (g it data)
  unsupported : v.unsupportedType = none

theorem visitElement_map {v : Visitor σ} {φ : σ → σ} (hv : v.Commutes φ) (it : BsonIter)
    (key : Bytes) (data : σ) :
    visitElement v it key (φ data) = (visitElement v it key data).map φ := by
  have hstop : ∀ visited : Visited σ, (visited.map φ).stop = visited.stop := fun _ => rfl
  have hiter : ∀ visited : Visited σ, (visited.map φ).iter = visited.iter := fun _ => rfl
  have hdata : ∀ visited : Visited σ, (visited.map φ).data = φ visited.data := fun _ => rfl
  simp only [visitElement, hv.before.call, hstop, hdata, visitValue_map hv.values, hiter,
    hv.after.call]
  split
  · rfl
  · split <;> rfl

theorem visitCorrupt_map {v : Visitor σ} {φ : σ → σ} (hv : v.Commutes φ) (it : BsonIter)
    (data : σ) : visitCorrupt v it (φ data) = φ (visitCorrupt v it data) := by
  unfold visitCorrupt
  split
  · rfl
  · cases hc : v.corrupt with
    | none => rfl
    | some g => exact hv.corrupt g hc it data

/-- A visit commutes with what its callbacks commute with. -/
theorem visitLoop_map {v : Visitor σ} {φ : σ → σ} (hv : v.Commutes φ) (fuel : Nat)
    (it : BsonIter) (data : σ) :
    visitLoop v fuel it (φ data) = (visitLoop v fuel it data).map φ := by
  induction fuel generalizing it data with
  | zero => rfl
  | succ fuel ih =>
    simp only [visitLoop, visitEnd_corrupt hv.unsupported, visitCorrupt_map hv,
      visitElement_map hv]
    split
    · rfl
    · split
      · rfl
      · simp only [Visited.map, ih]
        split <;> rfl

end Commutes

/-! ## The callbacks of the printer -/

namespace BsonJsonState

/-- The state `t`, as it is when it was entered with the calls `pre` made and the error
offset `err` found, and with another count and flag where these are given. -/
def resumed (count : Option Nat) (keys : Option Bool) (pre : List StringCall) (err : Option Nat)
    (t : BsonJsonState) : BsonJsonState :=
  { count := count.getD t.count
    keys := keys.getD t.keys
    errOffset := t.errOffset.or err
    depth := t.depth
    str := pre ++ t.str
    mode := t.mode }

variable {count : Option Nat} {keys : Option Bool} {pre : List StringCall} {err : Option Nat}

theorem perform_resumed (t : BsonJsonState) (calls : List StringCall) :
    (t.resumed count keys pre err).perform calls = (t.perform calls).resumed count keys pre err := by
  simp [perform, resumed]

theorem appends_resumed (t : BsonJsonState) (texts : List Bytes) :
    (t.resumed count keys pre err).appends texts =
      ((t.appends texts).1, (t.appends texts).2.resumed count keys pre err) := by
  simp [appends, perform_resumed]

theorem escapedOr_resumed (t : BsonJsonState) (escaped : Escaped)
    {next next' : Bytes → Bool × BsonJsonState}
    (h : ∀ text, next' text = ((next text).1, (next text).2.resumed count keys pre err)) :
    (t.resumed count keys pre err).escapedOr escaped next' =
      ((t.escapedOr escaped next).1, (t.escapedOr escaped next).2.resumed count keys pre err) := by
  cases escaped with
  | lost => simp [escapedOr, perform_resumed]
  | null => rfl
  | text str => exact h str

theorem ite_resumed {c : Prop} [Decidable c] {x y x' y' : Bool × BsonJsonState}
    (hx : x' = (x.1, x.2.resumed count keys pre err))
    (hy : y' = (y.1, y.2.resumed count keys pre err)) :
    (if c then x' else y') =
      ((if c then x else y).1, (if c then x else y).2.resumed count keys pre err) := by
  split
  · exact hx
  · exact hy

@[simp] theorem mode_resumed (t : BsonJsonState) : (t.resumed count keys pre err).mode = t.mode := rfl

@[simp] theorem depth_resumed (t : BsonJsonState) :
    (t.resumed count keys pre err).depth = t.depth := rfl

end BsonJsonState

section Printer

open BsonJsonState

variable {count : Option Nat} {keys : Option Bool} {pre : List StringCall} {err : Option Nat}

theorem nestedResult_resumed (bracket close : UInt8) (visited : Visited BsonJsonState)
    (t : BsonJsonState) :
    nestedResult bracket close (visited.map (resumed none none [] err))
        (t.resumed count keys pre err) =
      ((nestedResult bracket close visited t).1,
        (nestedResult bracket close visited t).2.resumed count keys pre err) := by
  have hstop : (visited.map (resumed none none [] err)).stop = visited.stop := rfl
  have hstr : (visited.map (resumed none none [] err)).data.str = visited.data.str := rfl
  have hparent : ({ t.resumed count keys pre err with
        errOffset := (visited.map (resumed none none [] err)).data.errOffset } : BsonJsonState) =
      ({ t with errOffset := visited.data.errOffset } : BsonJsonState).resumed count keys pre
        err := rfl
  simp only [nestedResult, hstop, hstr, hparent]
  cases (bsonStringOpen bracket).performAll visited.data.str with
  | none => simp only [perform_resumed]
  | some str =>
    dsimp only
    split
    · rfl
    · cases bsonStringAppend str [32, close] with
      | none => simp only [perform_resumed]
      | some str => exact appends_resumed _ _

/-- The visit of a child finds the cell of the error offset as its parent has left it. -/
theorem visitNested_resumed {v : Visitor BsonJsonState}
    (hv : ∀ err, v.Commutes (resumed none none [] err)) (k : Bool) (bracket close : UInt8)
    (b : BsonRef) (t : BsonJsonState) :
    visitNested v k bracket close b (t.resumed count keys pre err) =
      ((visitNested v k bracket close b t).1,
        (visitNested v k bracket close b t).2.resumed count keys pre err) := by
  unfold visitNested
  rw [depth_resumed]
  by_cases hdepth : bsonMaxRecursion ≤ t.depth
  · rw [if_pos hdepth, if_pos hdepth]
    exact appends_resumed t _
  · rw [if_neg hdepth, if_neg hdepth]
    cases bsonIterInit b with
    | mk ok child =>
      cases ok with
      | false => rfl
      | true =>
        have hchild : (t.resumed count keys pre err).child k =
            (t.child k).resumed none none [] err := rfl
        simp only [hchild, bsonIterVisitAll, visitLoop_map (hv err)]
        exact nestedResult_resumed _ _ _ _

theorem visitCodewscope_resumed (v : Visitor BsonJsonState) (a : Bytes × BsonRef)
    (t : BsonJsonState) :
    bsonAsJsonVisitCodewscope v a (t.resumed count keys pre err) =
      ((bsonAsJsonVisitCodewscope v a t).1,
        (bsonAsJsonVisitCodewscope v a t).2.resumed count keys pre err) := by
  refine escapedOr_resumed t _ fun text => ?_
  rw [mode_resumed]
  cases bsonAsJsonVisitAll v a.2 t.mode with
  | lost => simp only [perform_resumed]
  | null => rfl
  | text scope => exact appends_resumed t _

theorem visitBefore_resumed (key : Bytes) (t : BsonJsonState) :
    bsonAsJsonVisitBefore (t.resumed none none pre err) key =
      ((bsonAsJsonVisitBefore t key).1,
        (bsonAsJsonVisitBefore t key).2.resumed none none pre err) := by
  have hcomma : appendComma (t.resumed none none pre err) =
      (appendComma t).resumed none none pre err := by
    have hcount : (t.resumed none none pre err).count = t.count := rfl
    simp only [appendComma, hcount]
    split
    · rfl
    · exact perform_resumed t _
  have hkeys : ((appendComma t).resumed none none pre err).keys = (appendComma t).keys := rfl
  simp only [bsonAsJsonVisitBefore, hcomma, hkeys]
  split
  · refine escapedOr_resumed _ _ fun text => ?_
    rw [perform_resumed]
    rfl
  · rfl

/-- The callbacks commute with calls made before. -/
theorem asJson_commutes (n : Nat) (count : Option Nat) (keys : Option Bool)
    (pre : List StringCall) (err : Option Nat) :
    (bsonAsJsonVisitors n).ValuesCommute (resumed count keys pre err) := by
  induction n generalizing count keys pre err with
  | zero => constructor <;> exact Callback.commutes_none _
  | succ n ih =>
    have hchild : ∀ err, (bsonAsJsonVisitors n).Commutes (resumed none none [] err) := by
      intro err
      cases n with
      | zero =>
        exact {
          values := ih none none [] err
          before := Callback.commutes_none _
          after := Callback.commutes_none _
          corrupt := fun g hg => nomatch hg
          unsupported := rfl }
      | succ n =>
        exact {
          values := ih none none [] err
          before := Callback.commutes_some fun _ key _ t => visitBefore_resumed key t
          after := Callback.commutes_none _
          corrupt := fun g hg it t => by
            cases hg
            rfl
          unsupported := rfl }
    exact {
      double := Callback.commutes_some fun _ _ v t => by
        simp only [bsonAsJsonVisitDouble, mode_resumed]
        exact ite_resumed (appends_resumed t _) (appends_resumed t _)
      utf8 := Callback.commutes_some fun _ _ v t =>
        escapedOr_resumed t _ fun _ => appends_resumed t _
      document := Callback.commutes_some fun _ _ v t => visitNested_resumed hchild _ _ _ _ _
      array := Callback.commutes_some fun _ _ v t => visitNested_resumed hchild _ _ _ _ _
      binary := Callback.commutes_some fun _ _ v t => by
        simp only [bsonAsJsonVisitBinary, mode_resumed]
        exact ite_resumed (appends_resumed t _) (appends_resumed t _)
      undefined := Callback.commutes_some fun _ _ _ t => appends_resumed t _
      oid := Callback.commutes_some fun _ _ _ t => appends_resumed t _
      bool := Callback.commutes_some fun _ _ _ t => appends_resumed t _
      dateTime := Callback.commutes_some fun _ _ v t => by
        simp only [bsonAsJsonVisitDateTime, mode_resumed, perform_resumed]
      null := Callback.commutes_some fun _ _ _ t => appends_resumed t _
      regex := Callback.commutes_some fun _ _ v t => escapedOr_resumed t _ fun _ => by
        simp only [mode_resumed, perform_resumed]
        exact ite_resumed rfl rfl
      dbpointer := Callback.commutes_some fun _ _ v t => escapedOr_resumed t _ fun _ => by
        simp only [mode_resumed]
        exact ite_resumed (appends_resumed t _) (appends_resumed t _)
      code := Callback.commutes_some fun _ _ v t =>
        escapedOr_resumed t _ fun _ => appends_resumed t _
      symbol := Callback.commutes_some fun _ _ v t => escapedOr_resumed t _ fun _ => by
        simp only [mode_resumed]
        exact ite_resumed (appends_resumed t _) (appends_resumed t _)
      codewscope := Callback.commutes_some fun _ _ v t => visitCodewscope_resumed _ v t
      int32 := Callback.commutes_some fun _ _ v t => by
        simp only [bsonAsJsonVisitInt32, mode_resumed]
        exact ite_resumed (appends_resumed t _) (appends_resumed t _)
      timestamp := Callback.commutes_some fun _ _ _ t => appends_resumed t _
      int64 := Callback.commutes_some fun _ _ v t => by
        simp only [bsonAsJsonVisitInt64, mode_resumed]
        exact ite_resumed (appends_resumed t _) (appends_resumed t _)
      maxkey := Callback.commutes_some fun _ _ _ t => appends_resumed t _
      minkey := Callback.commutes_some fun _ _ _ t => appends_resumed t _
      decimal128 := Callback.commutes_some fun _ _ _ t => appends_resumed t _ }

end Printer

end LibBson.Source
