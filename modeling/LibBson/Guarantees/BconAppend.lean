import LibBson.Guarantees.BuildExact
import LibBson.Source.BconRuns

/-!
# BCON building equals encoding

For every tree of arguments, every target document in any chain of open parents and every
context. Source: bcon.c:28-76, 207-294, 456-570, 709-820.
-/

set_option autoImplicit false

namespace LibBson.Guarantees
open LibBson.Library LibBson.Source LibBson.Spec

/-! ## What the copies lose -/

/-- Shorter parts add up to the same octets only if they are the same. -/
theorem append_eq_iff {a a' b b' : Bytes} (ha : a.length ≤ a'.length) (hb : b.length ≤ b'.length) :
    a ++ b = a' ++ b' ↔ a = a' ∧ b = b' := by
  constructor
  · intro h
    have hlength := congrArg List.length h
    rw [List.length_append, List.length_append] at hlength
    exact List.append_inj h (by omega)
  · rintro ⟨rfl, rfl⟩
    rfl

theorem lengthText_eq_iff {s t : Bytes} : lengthText s = lengthText t ↔ s = t := by
  constructor
  · intro h
    exact List.append_cancel_right (List.append_inj h (by simp)).2
  · rintro rfl
    rfl

theorem frame_eq_iff {s t : Bytes} : frame s = frame t ↔ s = t := by
  constructor
  · intro h
    exact List.append_cancel_right (List.append_inj h (by simp)).2
  · rintro rfl
    rfl

theorem cText_eq_iff (s : Bytes) : cText s = s ↔ (0 : UInt8) ∉ s := by
  constructor
  · intro h
    rw [← h]
    exact not_mem_cText s
  · exact cText_of_no_nul

theorem cText_length_le (s : Bytes) : (cText s).length ≤ s.length :=
  (List.takeWhile_prefix _).length_le

theorem copy_type (v : Value) : v.copy.type = v.sorted.type := by
  cases v <;> rfl

/-- A copy is no longer than the value, and as long only if no text was cut. -/
theorem copy_encode (v : Value) : v.copy.encode.length ≤ v.sorted.encode.length ∧
    (v.copy.encode = v.sorted.encode ↔ v.NulFree) := by
  cases v with
  | code s =>
    have hle := cText_length_le s
    simp only [Value.copy, Value.sorted, Value.encode, lengthText_length, lengthText_eq_iff,
      cText_eq_iff, Value.NulFree]
    exact ⟨by omega, trivial⟩
  | dbpointer s o =>
    have hle := cText_length_le s
    simp only [Value.copy, Value.sorted, Value.encode, List.length_append, lengthText_length,
      List.append_cancel_right_eq, lengthText_eq_iff, cText_eq_iff, Value.NulFree]
    exact ⟨by omega, trivial⟩
  | codewscope s scope =>
    have hle := cText_length_le s
    simp only [Value.copy, Value.sorted, Value.encode, List.length_append, lengthText_length,
      leBytes_length, Value.NulFree]
    refine ⟨by omega, fun h => ?_, fun h => ?_⟩
    · have htext := List.append_cancel_right (List.append_inj h (by simp)).2
      exact (cText_eq_iff s).mp (lengthText_eq_iff.mp htext)
    · rw [(cText_eq_iff s).mpr h]
  | _ => exact ⟨Nat.le_refl _, iff_of_true rfl trivial⟩

theorem leaf_encode (leaf : BconLeaf) :
    (leaf.valueWith Value.copy).type = (leaf.valueWith Value.sorted).type ∧
      (leaf.valueWith Value.copy).encode.length ≤ (leaf.valueWith Value.sorted).encode.length ∧
      ((leaf.valueWith Value.copy).encode = (leaf.valueWith Value.sorted).encode ↔
        leaf.NulFree) := by
  cases leaf with
  | iter it m k v h => exact ⟨copy_type v, copy_encode v⟩
  | utf8 v => cases v <;> exact ⟨rfl, Nat.le_refl _, iff_of_true rfl trivial⟩
  | symbol v => cases v <;> exact ⟨rfl, Nat.le_refl _, iff_of_true rfl trivial⟩
  | _ => exact ⟨rfl, Nat.le_refl _, iff_of_true rfl trivial⟩

/-- An element in front of others. -/
theorem cons_body_iff {k : CStr} {v w : Value} {d e : Doc} {p q : Prop} (ht : v.type = w.type)
    (hv : v.encode.length ≤ w.encode.length ∧ (v.encode = w.encode ↔ p))
    (hd : d.body.length ≤ e.body.length ∧ (d.body = e.body ↔ q)) :
    (Doc.cons k v d).body.length ≤ (Doc.cons k w e).body.length ∧
      ((Doc.cons k v d).body = (Doc.cons k w e).body ↔ p ∧ q) := by
  rw [Doc.body_cons, Doc.body_cons, ht, List.append_cancel_left_eq, append_eq_iff hv.1 hd.1, hv.2,
    hd.2]
  simp only [List.length_append]
  exact ⟨by omega, trivial⟩

theorem renumbered_body (d : Doc) (i : Nat) :
    (d.renumbered Value.copy i).body.length ≤ (d.renumbered Value.sorted i).body.length ∧
      ((d.renumbered Value.copy i).body = (d.renumbered Value.sorted i).body ↔ d.NulFree) := by
  match d with
  | .nil => exact ⟨Nat.le_refl _, iff_of_true rfl trivial⟩
  | .cons k v rest =>
    exact cons_body_iff (copy_type v) (copy_encode v) (renumbered_body rest (i + 1))

/-- The octets written are no more than those described, and the same only if no text is
cut. -/
theorem docWith_body {a : Bool} (t : BconTree a) (i : Nat) :
    (t.docWith Value.copy i).body.length ≤ (t.docWith Value.sorted i).body.length ∧
      ((t.docWith Value.copy i).body = (t.docWith Value.sorted i).body ↔ t.NulFree) := by
  induction t generalizing i with
  | nil => exact ⟨Nat.le_refl _, iff_of_true rfl trivial⟩
  | single name leaf rest ih =>
    obtain ⟨ht, hv⟩ := leaf_encode leaf
    exact cons_body_iff ht hv (ih (name.next i))
  | document name child rest ihc ihr =>
    obtain ⟨hle, hiff⟩ := ihc 0
    refine cons_body_iff rfl ?_ (ihr (name.next i))
    simp only [Value.encode, frame_length, frame_eq_iff]
    exact ⟨by omega, hiff⟩
  | array name child rest ihc ihr =>
    obtain ⟨hle, hiff⟩ := ihc 0
    refine cons_body_iff rfl ?_ (ihr (name.next i))
    simp only [Value.encode, frame_length, frame_eq_iff]
    exact ⟨by omega, hiff⟩
  | concat b d h rest ih =>
    obtain ⟨hle, hiff⟩ := ih i
    simp only [BconTree.docWith, Doc.body_append, List.length_append, List.append_cancel_left_eq]
    exact ⟨by omega, hiff⟩
  | splice b d h small rest ih =>
    obtain ⟨hle, hiff⟩ := ih (i + fieldCount d)
    obtain ⟨hle', hiff'⟩ := renumbered_body d i
    simp only [BconTree.docWith, Doc.body_append, List.length_append, append_eq_iff hle' hle]
    exact ⟨by omega, and_congr hiff' hiff⟩

/-- A document does not count positions. -/
theorem position_free {a : Bool} (t : BconTree a) (ha : a = false) (copy : Value → Value)
    (i j : Nat) :
    t.docWith copy i = t.docWith copy j ∧ treeSteps i t = treeSteps j t ∧ t.stop i = i := by
  have hname : ∀ (name : BconName a) (i j : Nat),
      name.key i = name.key j ∧ name.text i = name.text j ∧ name.next i = i := by
    intro name i j
    cases name with
    | position => cases ha
    | _ => exact ⟨rfl, rfl, rfl⟩
  induction t generalizing i j with
  | nil => exact ⟨rfl, rfl, rfl⟩
  | single name leaf rest ih =>
    obtain ⟨hkey, htext, hnext⟩ := hname name i j
    obtain ⟨hdoc, hsteps, hstop⟩ := ih ha i j hname
    have hnext' := (hname name j i).2.2
    simp only [BconTree.docWith, treeSteps, BconTree.stop, hkey, htext, hnext, hnext', hdoc, hsteps,
      hstop, and_self]
  | document name child rest ihc ihr =>
    obtain ⟨hkey, htext, hnext⟩ := hname name i j
    obtain ⟨hdoc, hsteps, hstop⟩ := ihr ha i j hname
    have hnext' := (hname name j i).2.2
    simp only [BconTree.docWith, treeSteps, BconTree.stop, hkey, htext, hnext, hnext', hdoc, hsteps,
      hstop, and_self]
  | array name child rest ihc ihr =>
    obtain ⟨hkey, htext, hnext⟩ := hname name i j
    obtain ⟨hdoc, hsteps, hstop⟩ := ihr ha i j hname
    have hnext' := (hname name j i).2.2
    simp only [BconTree.docWith, treeSteps, BconTree.stop, hkey, htext, hnext, hnext', hdoc, hsteps,
      hstop, and_self]
  | concat b d h rest ih =>
    obtain ⟨hdoc, hsteps, hstop⟩ := ih ha i j hname
    simp only [BconTree.docWith, treeSteps, BconTree.stop, hdoc, hsteps, hstop, and_self]
  | splice b d h small rest ih => cases ha

theorem treeTurns_le {a : Bool} (t : BconTree a) : treeTurns t ≤ t.args.length := by
  have hleaf : ∀ leaf : BconLeaf, 0 < leaf.args.length := by
    intro leaf
    cases leaf <;> simp [BconLeaf.args]
  induction t with
  | nil => exact Nat.le_refl 0
  | single name leaf rest ih =>
    have hpos := hleaf leaf
    simp only [treeTurns, BconTree.args, List.length_append]
    omega
  | document name child rest ihc ihr =>
    simp only [treeTurns, BconTree.args, List.length_append, List.length_cons]
    omega
  | array name child rest ihc ihr =>
    simp only [treeTurns, BconTree.args, List.length_append, List.length_cons]
    omega
  | concat b d h rest ih =>
    simp only [treeTurns, BconTree.args, List.length_cons]
    omega
  | splice b d h small rest ih =>
    simp only [treeTurns, BconTree.args, List.length_cons]
    omega

/-- The arguments of a tree and the NULL behind them: the calls of the tree are made, and
the context is as it was. -/
theorem bconAppendCtxVa_tree (fresh : Nat → Mem) (t : BconTree false) (ctx : BconAppendCtx)
    (c : Chain) (ap : List VaArg) (hctx : ctx.top.isArray = false)
    (hdepth : ctx.below.length + t.depth < bconStackMax)
    (hsize : (t.docWith Value.copy 0).body.length < 4294967296) :
    bconAppendCtxVa fresh c ctx (t.args ++ .null :: ap) =
      (bconCalls fresh (treeSteps 0 t) c).map fun c' => (ctx, c', ap) := by
  cases ctx with
  | mk top below =>
    cases top with
    | mk i isArray =>
      obtain rfl : isArray = false := hctx
      obtain ⟨hdoc, hsteps, hstop⟩ := position_free t rfl Value.copy i 0
      obtain ⟨fuel, hfuel⟩ := Nat.exists_eq_add_of_le (treeTurns_le t)
      have hturns : (t.args ++ .null :: ap).length + 1 =
          treeTurns t + (fuel + (ap.length + 1) + 1) := by
        rw [List.length_append, List.length_cons, hfuel]
        omega
      have hloop := bconAppendLoop_tree fresh t i below c (.null :: ap)
        (fuel + (ap.length + 1) + 1) hdepth (by rw [hdoc]; exact hsize) (fun h => by cases h)
      rw [bconAppendCtxVa, hturns, hloop, hsteps, hstop]
      cases bconCalls fresh (treeSteps 0 t) c <;> rfl

/-! ## The octets of two contents -/

theorem holds_unique {m : Mem} {o : Nat} {s t : Bytes} (hs : Holds m o s) (ht : Holds m o t)
    (hlen : s.length = t.length) : s = t := by
  rw [← hs.slice_eq, ← ht.slice_eq, hlen]

/-- The arguments of a tree append exactly the encoding of the tree if and only if each call is
accepted in the state before it and no copied text is cut at a NUL. -/
theorem bcon_append_iff (fresh : Nat → Mem) (c : Chain) (before : Doc) (ctx : BconAppendCtx)
    (t : BconTree false) (ap : List VaArg) (hold : Holding c before.body)
    (hctx : ctx.top.isArray = false) (hdepth : ctx.below.length + t.depth < bconStackMax)
    (hsize : (before.append t.doc).encode.length ≤ bsonMaxSize) :
    (∃ c', bconAppendCtxVa fresh c ctx (t.args ++ .null :: ap) = some (ctx, c', ap) ∧
        Encodes c'.ref (before.append t.doc) ∧ SameSpot c c') ↔
      t.NulFree ∧ AllAccepted fresh (treeSteps 0 t) c := by
  have hbody := docWith_body t 0
  rw [← BconTree.doc] at hbody
  obtain ⟨hle, hsame⟩ := hbody
  rw [Doc.encode_length, Doc.body_append, List.length_append] at hsize
  have hbuilds := treeSteps_builds t 0
  have hroom : before.body.length + (t.docWith Value.copy 0).body.length + 5 ≤ bsonMaxSize := by
    omega
  rw [bconAppendCtxVa_tree fresh t ctx c ap hctx hdepth (by unfold bsonMaxSize at hsize; omega),
    allAccepted_iff fresh hbuilds c before.body hold hroom, ← hsame]
  constructor
  · rintro ⟨c', hcalls, henc, -⟩
    obtain ⟨c1, h1, hc1⟩ := Option.map_eq_some_iff.mp hcalls
    obtain rfl : c1 = c' := (Prod.ext_iff.mp (Prod.ext_iff.mp hc1).2).1
    obtain ⟨added, hold', -, hcase⟩ := bconCalls_delivers hbuilds c c1 _ h1 hold hroom
    have hlen := hold'.len
    have hlen' : c1.bson.len = _ := henc.len_body
    rw [List.length_append] at hlen
    rw [Doc.body_append, List.length_append] at hlen'
    rcases hcase with ⟨hok, rfl⟩ | hlt
    · refine ⟨?_, c1, hok⟩
      have hframe := henc.data
      rw [Chain.ref, holds_shift, Nat.add_zero, Doc.encode, Doc.body_append] at hframe
      have heq := holds_unique hold'.content hframe
        (by simp only [frame_length, List.length_append]; omega)
      exact List.append_cancel_left (frame_eq_iff.mp heq)
    · omega
  · rintro ⟨hbody, c', hok⟩
    obtain ⟨hold', hspot⟩ := run_holding hbuilds c c' _ hok hold
      (by unfold bsonMaxSize at hroom; omega)
    rw [hbody] at hold'
    rw [← Doc.body_append] at hold'
    exact ⟨c', by rw [bconCalls_of_ok hok]; rfl, encodes_of_holding hold', hspot⟩

/-- Below 1 GiB a document that can grow accepts every call, unless a child is begun while it
is inline and longer than its 120 octets. -/
theorem accepted_iff_not_full (fresh : Nat → Mem) (c : Chain) (before : Doc) (t : BconTree false)
    (hstart : WritableStart c before)
    (hsize : c.bson.offset + (before.append (t.docWith Value.copy 0)).encode.length ≤ 1073741824) :
    AllAccepted fresh (treeSteps 0 t) c ↔
      ¬ (c.isInline = true ∧ beginsFull c.bson.len (treeSteps 0 t) = true) := by
  have hbuilds := treeSteps_builds t 0
  have hold := hstart.holding
  rw [Doc.encode_length, Doc.body_append, List.length_append] at hsize
  have hbound : c.bson.offset + (before.body.length + (t.docWith Value.copy 0).body.length + 5) +
      c.bson.depth ≤ 1073741824 := by
    rw [hstart.depth]
    omega
  rw [allAccepted_iff fresh hbuilds c before.body hold (by unfold bsonMaxSize; omega)]
  constructor
  · rintro ⟨c', hok⟩ ⟨hin, hfull⟩
    rw [run_aborts hbuilds c _ hold hstart.writable hbound hin hfull] at hok
    cases hok
  · intro hfull
    obtain ⟨c', hok, -⟩ := run_success fresh hbuilds c _ hold hstart.writable hbound hfull
    exact ⟨c', hok⟩

theorem bare_a : Bare [97] := by
  unfold Bare
  decide

/-- `BCON_APPEND (b, "a", "[", "a", BCON_INT32 (7), "{", "a", BCON_NULL, "}", "]", "a", "{",
"a", BCON_REGEX ("a", "xi"), "}")` -/
def nestedTree : BconTree false :=
  .array (.bare [97] bare_a)
    (.single .position (.bare [97] bare_a) <|
      .single .position (.int32 7) <|
        .document .position (.single (.bare [97] bare_a) .null .nil) .nil) <|
    .document (.bare [97] bare_a)
      (.single (.bare [97] bare_a) (.regex (some [97]) (some [120, 105])) .nil) .nil

theorem bcon_append_iff_nested :
    ∃ c', bconAppendCtxVa (fun _ _ => 0) (bsonInit fun _ => 0) bconAppendCtxInit
        (nestedTree.args ++ [.null]) = some (bconAppendCtxInit, c', []) ∧
      Encodes c'.ref (Doc.nil.append nestedTree.doc) ∧ SameSpot (bsonInit fun _ => 0) c' := by
  have haccepted : AllAccepted (fun _ _ => 0) (treeSteps 0 nestedTree) (bsonInit fun _ => 0) := by
    apply (accepted_iff_not_full (fun _ _ => 0) _ .nil nestedTree (start_bsonInit _) (by decide)).mpr
    decide
  apply (bcon_append_iff (fun _ _ => 0) (bsonInit fun _ => 0) .nil bconAppendCtxInit nestedTree []
    (start_bsonInit _).holding rfl (by decide) (by decide)).mpr
  exact ⟨by simp [nestedTree, BconTree.NulFree, BconLeaf.NulFree], haccepted⟩

theorem bare_nil : Bare [] := by
  unfold Bare
  decide

/-- `BCON_APPEND (b, "", BCON_BIN (BSON_SUBTYPE_BINARY, data, 105), "", BCON_REGEX ("", ""),
"", "{", "}")` -/
def fullInlineTree : BconTree false :=
  .single (.bare [] bare_nil) (.bin 0 [] 105) <|
    .single (.bare [] bare_nil) (.regex (some []) (some [])) <|
      .document (.bare [] bare_nil) .nil .nil

/-- The regex fills the 120 octets of a fresh `bson_t`, and one more; the begin of the
document aborts. -/
theorem bcon_append_aborts :
    fullInlineTree.depth = 1 ∧ fullInlineTree.doc.encode.length = 128 ∧
      bconAppendCtxVa (fun _ _ => 0) (bsonInit fun _ => 0) bconAppendCtxInit
        (fullInlineTree.args ++ [.null]) = none := by
  refine ⟨rfl, ?_, rfl⟩
  simp [fullInlineTree, BconTree.doc, BconTree.docWith, BconLeaf.valueWith, BconName.key, cStr,
    cText, sortedOptions, Doc.encode_length, Doc.body_cons, Value.encode, subtypeBinaryDeprecated]

end LibBson.Guarantees
