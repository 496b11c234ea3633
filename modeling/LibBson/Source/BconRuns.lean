import LibBson.Source.CopyExcluding
import LibBson.Source.IterFind
import LibBson.Source.UncheckedRuns
import LibBson.Spec.BconTree

/-!
# The arguments of a tree come down to its calls

`treeSteps` are the calls of the append API that a tree asks for. The loop of
`bcon_append_ctx_va` over the arguments of a tree makes just these calls
(`bconAppendLoop_tree`), and they describe the tree with what is copied element by element as
an append writes it (`treeSteps_builds`). Source: bcon.c:207-294, 456-570, 709-820.
-/

set_option autoImplicit false

namespace LibBson.Source
open LibBson.Library LibBson.Spec

/-- The token that the arguments of a value are taken for. -/
def leafToken : BconLeaf → BconToken
  | .bare s _ => .utf8 (some s)
  | .utf8 v => .utf8 v
  | .double v => .double v
  | .document b .. => .document b
  | .array b .. => .array b
  | .bin subtype binary length => .bin subtype binary length
  | .undefined => .undefined
  | .oid v => .oid v
  | .bool v => .bool v
  | .dateTime v => .dateTime v
  | .null => .null
  | .regex pattern flags => .regex pattern flags
  | .dbpointer collection o => .dbpointer collection o
  | .code v => .code v
  | .symbol v => .symbol v
  | .codewscope js b .. => .codewscope js (some b)
  | .codeNullScope js => .codewscope js none
  | .int32 v => .int32 v
  | .timestamp t i => .timestamp t i
  | .int64 v => .int64 v
  | .decimal128 low high => .decimal128 low high
  | .maxkey => .maxkey
  | .minkey => .minkey
  | .iter it .. => .iter it

/-- The calls of `_bson_concat_array` on the elements ahead of `iter`. -/
def spliceSteps : Nat → BsonIter → Nat → List Step
  | 0, _, _ => []
  | fuel + 1, iter, i =>
    let (more, iter) := bsonIterNext iter
    if more then .append (.iter (some (decimal i)) (-1) iter) :: spliceSteps fuel iter (i + 1)
    else []

/-- The calls that a tree asks for, the first element of an array being at position `i`. -/
def treeSteps {a : Bool} : Nat → BconTree a → List Step
  | _, .nil => []
  | i, .single name leaf rest =>
    ((bconAppendSingle (some (name.text i)) (leafToken leaf)).map Step.append).toList ++
      treeSteps (name.next i) rest
  | i, .document name child rest =>
    .documentBegin (name.text i) (-1) ::
      (treeSteps 0 child ++ .end :: treeSteps (name.next i) rest)
  | i, .array name child rest =>
    .arrayBegin (name.text i) (-1) :: (treeSteps 0 child ++ .end :: treeSteps (name.next i) rest)
  | i, .concat b _ _ rest => .append (.concat b) :: treeSteps i rest
  | i, .splice b d _ _ rest =>
    spliceSteps ((bsonIterInit b).2.len + 1) (bsonIterInit b).2 i ++
      treeSteps (i + fieldCount d) rest

/-! ## What the calls describe -/

theorem key_textOf {a : Bool} (name : BconName a) (i : Nat) :
    (name.key i).bytes = textOf (name.text i) (-1) := by
  rw [textOf, if_pos (by decide)]
  cases name with
  | bare s h => rfl
  | utf8 s => rfl
  | position => exact (cText_of_no_nul (indexKey i).noNul).symm

/-- The append of a value describes it. -/
theorem leaf_means (leaf : BconLeaf) {key : Bytes} {k : CStr} (hkey : k.bytes = textOf key (-1)) :
    ∃ call, bconAppendSingle (some key) (leafToken leaf) = some call ∧
      CallMeans call (.cons k (leaf.valueWith Value.copy) .nil) := by
  have field : ∀ f v, Means f v → CallMeans (.field key (-1) f) (.cons k v .nil) :=
    fun f v hm => .keyed _ key (-1) f k v rfl hkey hm
  cases leaf with
  | bare s h => exact ⟨_, rfl, field _ _ (.utf8 s (-1))⟩
  | utf8 v =>
    cases v with
    | none => exact ⟨_, rfl, field _ _ (.utf8Null (-1))⟩
    | some s => exact ⟨_, rfl, field _ _ (.utf8 s (-1))⟩
  | symbol v =>
    cases v with
    | none => exact ⟨_, rfl, field _ _ (.symbolNull (-1))⟩
    | some s => exact ⟨_, rfl, field _ _ (.symbol s (-1))⟩
  | double v => exact ⟨_, rfl, field _ _ (.double v)⟩
  | document b d h => exact ⟨_, rfl, field _ _ (.document b d h)⟩
  | array b d h => exact ⟨_, rfl, field _ _ (.array b d h)⟩
  | bin subtype binary length => exact ⟨_, rfl, field _ _ (.binary subtype binary length.toNat)⟩
  | undefined => exact ⟨_, rfl, field _ _ .undefined⟩
  | oid v => exact ⟨_, rfl, field _ _ (.oid v.bytes ⟨v.bytes, v.size⟩ (copied_of_length v.size))⟩
  | bool v => exact ⟨_, rfl, field _ _ (.bool v)⟩
  | dateTime v => exact ⟨_, rfl, field _ _ (.dateTime v)⟩
  | null => exact ⟨_, rfl, field _ _ .null⟩
  | regex pattern flags => exact ⟨_, rfl, field _ _ (.regex pattern flags _ _ rfl rfl)⟩
  | dbpointer collection o =>
    exact ⟨_, rfl, field _ _
      (.dbpointer collection o.bytes ⟨o.bytes, o.size⟩ (copied_of_length o.size))⟩
  | code v => exact ⟨_, rfl, field _ _ (.code v)⟩
  | codewscope js b scope h => exact ⟨_, rfl, field _ _ (.codeWithScope js b scope h)⟩
  | codeNullScope js => exact ⟨_, rfl, field _ _ (.codeNullScope js)⟩
  | int32 v => exact ⟨_, rfl, field _ _ (.int32 v)⟩
  | timestamp t i => exact ⟨_, rfl, field _ _ (.timestamp t i)⟩
  | int64 v => exact ⟨_, rfl, field _ _ (.int64 v)⟩
  | decimal128 low high => exact ⟨_, rfl, field _ _ (.decimal128 low high)⟩
  | maxkey => exact ⟨_, rfl, field _ _ .maxkey⟩
  | minkey => exact ⟨_, rfl, field _ _ .minkey⟩
  | iter it m k' v h =>
    obtain ⟨f, hf, hmeans⟩ := iterField_copies h
    exact ⟨_, rfl, .keyed _ key (-1) f k _ (by simp [AppendCall.keyed, hf]) hkey hmeans⟩

/-- The elements ahead of an iterator, appended under the keys of an array. -/
theorem spliceSteps_builds {m : Mem} {steps : List Step} {e : Doc} (hb : Builds steps e) (d : Doc)
    {it : BsonIter} {fuel i : Nat} (hit : Before d m it) (hfuel : d.body.length < fuel) :
    Builds (spliceSteps fuel it i ++ steps) ((d.renumbered Value.copy i).append e) := by
  obtain ⟨fuel, rfl⟩ := Nat.exists_eq_succ_of_ne_zero (Nat.ne_zero_of_lt hfuel)
  match d with
  | .nil =>
    rw [spliceSteps, bsonIterNext, hit.nil_next]
    exact hb
  | .cons k v rest =>
    obtain ⟨hok, -, -, hat, hrest⟩ := hit.next
    have hnext : bsonIterNext it = (true, (bsonIterNext it).2) := by rw [bsonIterNext, hok]
    rw [Doc.body_cons, List.length_append, List.length_append, header_length] at hfuel
    have ih := spliceSteps_builds hb rest (i := i + 1) hrest (by omega : rest.body.length < fuel)
    rw [spliceSteps, hnext]
    obtain ⟨f, hf, hmeans⟩ := iterField_copies hat
    refine .append _ (.cons (indexKey i) v.copy .nil) _ _ ?_ ih
    refine .keyed _ (decimal i) (-1) f _ _ (by simp [AppendCall.keyed, hf]) ?_ hmeans
    exact key_textOf .position i

/-- The calls describe the tree, as the append functions write it. -/
theorem treeSteps_builds {a : Bool} (t : BconTree a) (i : Nat) :
    Builds (treeSteps i t) (t.docWith Value.copy i) := by
  induction t generalizing i with
  | nil => exact .nil
  | single name leaf rest ih =>
    obtain ⟨call, hcall, hmeans⟩ := leaf_means leaf (key_textOf name i)
    rw [treeSteps, hcall]
    exact .append call (.cons (name.key i) _ .nil) _ _ hmeans (ih (name.next i))
  | document name child rest ihc ihr =>
    exact .document _ _ (name.key i) _ _ _ _ (key_textOf name i) (ihc 0) (ihr (name.next i))
  | array name child rest ihc ihr =>
    exact .array _ _ (name.key i) _ _ _ _ (key_textOf name i) (ihc 0) (ihr (name.next i))
  | concat b d h rest ih => exact .append _ d _ _ (.concat b d h) (ih i)
  | splice b d h small rest ih =>
    obtain ⟨hinit, hbefore⟩ := encodes_before h small
    rw [treeSteps, hinit]
    refine spliceSteps_builds (ih (i + fieldCount d)) d hbefore ?_
    show d.body.length < b.len + 1
    rw [h.len_body]
    omega

/-! ## What the loop does with the arguments -/

theorem mark_bare {s : Bytes} (h : Bare s) : bconAppendMark s = .utf8 (some s) := by
  unfold Bare at h
  unfold bconAppendMark
  split
  · next hs => exact absurd (by rw [hs]; decide) h
  · next hs => exact absurd (by rw [hs]; decide) h
  · next hs => exact absurd (by rw [hs]; decide) h
  · next hs => exact absurd (by rw [hs]; decide) h
  · rfl

theorem tokenize_leaf (leaf : BconLeaf) (ap : List VaArg) :
    bconAppendTokenize (leaf.args ++ ap) = some (leafToken leaf, ap) := by
  cases leaf with
  | bare s h => exact congrArg (fun token => some (token, ap)) (mark_bare h)
  | utf8 v => cases v <;> rfl
  | symbol v => cases v <;> rfl
  | bool v => cases v <;> rfl
  | regex pattern flags => cases pattern <;> cases flags <;> rfl
  | _ => rfl

section Turns

variable (fresh : Nat → Mem) {a : Bool} {i : Nat} {below : List BconFrame} {c : Chain}
  {ap : List VaArg}

/-- A turn takes the key of a member, or counts the position of an element. -/
theorem turn_name (name : BconName a) (hi : a = true → i < 4294967296) :
    bconAppendTurn fresh { top := { i := i, isArray := a }, below := below } c (name.args ++ ap) =
      bconAppendValue fresh (some (name.text i))
        { top := { i := name.next i, isArray := a }, below := below } c ap := by
  cases name with
  | bare s h =>
    have htoken : bconAppendTokenize (.str s :: ap) = some (.utf8 (some s), ap) :=
      congrArg (fun token => some (token, ap)) (mark_bare h)
    simp only [bconAppendTurn, BconName.args, List.cons_append, List.nil_append, htoken]
    rfl
  | utf8 s => rfl
  | position =>
    have hword : u32 i = i := u32_of_lt (hi rfl)
    simp only [bconAppendTurn, BconName.args, BconName.text, BconName.next, hword, if_true,
      List.nil_append]

/-- Behind its key a value is appended. -/
theorem value_leaf (leaf : BconLeaf) {ctx : BconAppendCtx} {key : Bytes} {call : AppendCall}
    (hcall : bconAppendSingle (some key) (leafToken leaf) = some call) :
    bconAppendValue fresh (some key) ctx c (leaf.args ++ ap) =
      .behind ctx ap (bconCall fresh c (.append call)) := by
  unfold bconAppendValue
  rw [tokenize_leaf]
  cases leaf <;> simp only [leafToken] at hcall ⊢ <;> simp only [hcall]

end Turns

/-- The turns of the loop over a tree's arguments. -/
def treeTurns {a : Bool} : BconTree a → Nat
  | .nil => 0
  | .single _ _ rest => treeTurns rest + 1
  | .document _ child rest => treeTurns child + (treeTurns rest + 1) + 1
  | .array _ child rest => treeTurns child + (treeTurns rest + 1) + 1
  | .concat _ _ _ rest => treeTurns rest + 1
  | .splice _ _ _ _ rest => treeTurns rest + 1

theorem concatArrayLoop_eq (fresh : Nat → Mem) (fuel : Nat) (iter : BsonIter) (i : Nat) (c : Chain)
    (hi : i + (spliceSteps fuel iter i).length ≤ 4294967296) :
    bsonConcatArrayLoop fresh fuel iter i c =
      (bconCalls fresh (spliceSteps fuel iter i) c).map fun c' =>
        (i + (spliceSteps fuel iter i).length, c') := by
  induction fuel generalizing iter i c with
  | zero => rfl
  | succ fuel ih =>
    rw [spliceSteps] at hi ⊢
    rw [bsonConcatArrayLoop]
    cases hnext : bsonIterNext iter with
    | mk more next =>
      cases more with
      | false => rfl
      | true =>
        simp only [hnext, if_true, List.length_cons] at hi ⊢
        rw [u32_of_lt (by omega), bconCalls]
        cases bconCall fresh c (.append (.iter (some (decimal i)) (-1) next)) with
        | none => rfl
        | some c1 =>
          have hrest := ih next (i + 1) c1 (by omega)
          rw [Nat.add_assoc, Nat.add_comm 1] at hrest
          exact hrest

/-- What the loop does with the arguments of a tree in front of others. -/
def LoopsAs (fresh : Nat → Mem) {a : Bool} (t : BconTree a) : Prop :=
  ∀ (i : Nat) (below : List BconFrame) (c : Chain) (ap : List VaArg) (fuel : Nat),
    below.length + t.depth < bconStackMax →
    (t.docWith Value.copy i).body.length < 4294967296 →
    (a = true → i + (t.docWith Value.copy i).body.length < 4294967296) →
    bconAppendLoop fresh (treeTurns t + fuel) { top := { i := i, isArray := a }, below := below } c
        (t.args ++ ap) =
      (bconCalls fresh (treeSteps i t) c).bind fun c' =>
        bconAppendLoop fresh fuel { top := { i := t.stop i, isArray := a }, below := below } c' ap

/-- The turn at an opening bracket begins a child, the turn at its closing one ends it. -/
theorem loop_child (fresh : Nat → Mem) {a b : Bool} {child : BconTree b} {rest : BconTree a}
    (ihc : LoopsAs fresh child) (ihr : LoopsAs fresh rest) {i : Nat} {below : List BconFrame}
    {c : Chain} {ap ap' closing : List VaArg} {fuel : Nat} {key : Bytes} {ctx : BconAppendCtx}
    {begin : Step} (hdepth : below.length + (child.depth + 1) < bconStackMax)
    (hdepth' : below.length + rest.depth < bconStackMax)
    (hchild : (child.docWith Value.copy 0).body.length < 4294967296)
    (hrest : (rest.docWith Value.copy i).body.length < 4294967296)
    (hi : a = true → i + (rest.docWith Value.copy i).body.length < 4294967296)
    (hbegin : begin = if b then .arrayBegin key (-1) else .documentBegin key (-1))
    (hclosing : closing = .str [if b then 93 else 125] :: (rest.args ++ ap))
    (hturn : bconAppendTurn fresh ctx c ap' = bconPush fresh b (some key)
      { top := { i := i, isArray := a }, below := below } c (child.args ++ closing)) :
    bconAppendLoop fresh (treeTurns child + (treeTurns rest + 1) + 1 + fuel) ctx c ap' =
      (bconCalls fresh (begin :: (treeSteps 0 child ++ .end :: treeSteps i rest)) c).bind fun c' =>
        bconAppendLoop fresh fuel { top := { i := rest.stop i, isArray := a }, below := below } c'
          ap := by
  have hroom : below.length < bconStackMax - 1 := by
    unfold bconStackMax at hdepth ⊢
    omega
  have hfuel : treeTurns child + (treeTurns rest + 1) + 1 + fuel =
      treeTurns child + (treeTurns rest + fuel + 1) + 1 := by
    omega
  rw [bconCalls, hfuel, bconAppendLoop, hturn]
  simp only [bconPush, if_pos hroom, ← hbegin]
  cases bconCall fresh c begin with
  | none => rfl
  | some c1 =>
    simp only [Option.bind_some, BconTurn.behind]
    rw [ihc 0 _ c1 closing _ (by rw [List.length_cons]; omega) hchild (fun _ => by omega),
      bconCalls_append]
    cases bconCalls fresh (treeSteps 0 child) c1 with
    | none => rfl
    | some c2 =>
      have hclose : bconAppendTurn fresh ⟨⟨child.stop 0, b⟩, ⟨i, a⟩ :: below⟩ c2 closing =
          .behind { top := { i := i, isArray := a }, below := below } (rest.args ++ ap)
            (bconCall fresh c2 .end) := by
        rw [hclosing]
        cases b <;> rfl
      simp only [Option.bind_some]
      rw [bconCalls, bconAppendLoop, hclose]
      cases bconCall fresh c2 .end with
      | none => rfl
      | some c3 => exact ihr i below c3 ap fuel hdepth' hrest hi

theorem spliceSteps_length {m : Mem} (d : Doc) {it : BsonIter} {fuel : Nat} (i : Nat)
    (hit : Before d m it) (hfuel : d.body.length < fuel) :
    (spliceSteps fuel it i).length = fieldCount d := by
  obtain ⟨fuel, rfl⟩ := Nat.exists_eq_succ_of_ne_zero (Nat.ne_zero_of_lt hfuel)
  match d with
  | .nil =>
    rw [spliceSteps, bsonIterNext, hit.nil_next]
    rfl
  | .cons k v rest =>
    obtain ⟨hok, -, -, -, hrest⟩ := hit.next
    have hnext : bsonIterNext it = (true, (bsonIterNext it).2) := by rw [bsonIterNext, hok]
    rw [Doc.body_cons, List.length_append, List.length_append, header_length] at hfuel
    rw [spliceSteps, hnext]
    exact congrArg (· + 1) (spliceSteps_length rest (i + 1) hrest (by omega))

theorem renumbered_count (copy : Value → Value) (d : Doc) (i : Nat) :
    fieldCount (d.renumbered copy i) = fieldCount d := by
  match d with
  | .nil => rfl
  | .cons k v rest => exact congrArg (· + 1) (renumbered_count copy rest (i + 1))

theorem concatArray_eq (fresh : Nat → Mem) {b : BsonRef} {d : Doc} (h : Encodes b d)
    (small : b.len ≤ bsonMaxSize) {i : Nat} (c : Chain) (hi : i + fieldCount d < 4294967296) :
    bsonConcatArray fresh c b (i + 1) =
      (bconCalls fresh (spliceSteps ((bsonIterInit b).2.len + 1) (bsonIterInit b).2 i) c).map
        fun c' => (i + fieldCount d, c') := by
  obtain ⟨hinit, hbefore⟩ := encodes_before h small
  have hfuel : d.body.length < b.len + 1 := by
    rw [h.len_body]
    omega
  have hlength := spliceSteps_length d i hbefore hfuel
  have hloop := concatArrayLoop_eq fresh (b.len + 1) (BsonIter.start (some b.data) b.len) i c
    (by omega)
  rw [hlength] at hloop
  simp only [bsonConcatArray, hinit, Nat.add_sub_cancel]
  exact hloop

/-- The turn at a spliced array appends its elements and leaves the counter behind them. -/
theorem turn_splice (fresh : Nat → Mem) {b : BsonRef} {d : Doc} (h : Encodes b d)
    (small : b.len ≤ bsonMaxSize) {i : Nat} {below : List BconFrame} (c : Chain) (ap : List VaArg)
    (hi : i + fieldCount d < 4294967296) :
    bconAppendTurn fresh ⟨⟨i, true⟩, below⟩ c (.magic :: .type .bcon :: .bson b :: ap) =
      .behind ⟨⟨i + fieldCount d, true⟩, below⟩ ap
        (bconCalls fresh (spliceSteps ((bsonIterInit b).2.len + 1) (bsonIterInit b).2 i) c) := by
  unfold bconAppendTurn bconAppendValue
  simp only [if_true, bconAppendTokenize, bconAppendPayload, concatArray_eq fresh h small c hi]
  cases bconCalls fresh (spliceSteps ((bsonIterInit b).2.len + 1) (bsonIterInit b).2 i) c with
  | none => rfl
  | some c1 => rfl

/-- The loop over a tree's arguments makes the tree's calls. -/
theorem bconAppendLoop_tree (fresh : Nat → Mem) {a : Bool} (t : BconTree a) : LoopsAs fresh t := by
  induction t with
  | nil =>
    intro i below c ap fuel _ _ _
    rw [treeTurns, Nat.zero_add]
    rfl
  | single name leaf rest ih =>
    intro i below c ap fuel hdepth hsize hi
    have hnext := name.next_le i
    simp only [BconTree.docWith, Doc.body_cons, List.length_append, header_length] at hsize hi
    obtain ⟨call, hcall, -⟩ := leaf_means leaf (key_textOf name i)
    have hfuel : treeTurns rest + 1 + fuel = treeTurns rest + fuel + 1 := by omega
    simp only [treeTurns, hfuel, bconAppendLoop, BconTree.args, List.append_assoc]
    rw [turn_name fresh name (fun h => by have := hi h; omega), value_leaf fresh leaf hcall,
      treeSteps, hcall]
    simp only [Option.map_some, Option.toList_some, List.cons_append, List.nil_append, bconCalls]
    cases bconCall fresh c (.append call) with
    | none => rfl
    | some c1 =>
      exact ih _ below c1 ap fuel hdepth (by omega) fun h => by have := hi h; omega
  | document name child rest ihc ihr =>
    intro i below c ap fuel hdepth hsize hi
    have hnext := name.next_le i
    simp only [BconTree.docWith, Doc.body_cons, List.length_append, header_length, Value.encode,
      frame_length] at hsize hi
    rw [BconTree.depth] at hdepth
    rw [BconTree.args, List.append_assoc]
    refine loop_child fresh ihc ihr (by omega) (by omega) (by omega) (by omega)
      (fun h => by have := hi h; omega) rfl rfl ?_
    rw [turn_name fresh name fun h => by have := hi h; omega]
    simp only [List.cons_append, List.append_assoc]
    rfl
  | array name child rest ihc ihr =>
    intro i below c ap fuel hdepth hsize hi
    have hnext := name.next_le i
    simp only [BconTree.docWith, Doc.body_cons, List.length_append, header_length, Value.encode,
      frame_length] at hsize hi
    rw [BconTree.depth] at hdepth
    rw [BconTree.args, List.append_assoc]
    refine loop_child fresh ihc ihr (by omega) (by omega) (by omega) (by omega)
      (fun h => by have := hi h; omega) rfl rfl ?_
    rw [turn_name fresh name fun h => by have := hi h; omega]
    simp only [List.cons_append, List.append_assoc]
    rfl
  | concat b d h rest ih =>
    intro i below c ap fuel hdepth hsize hi
    simp only [BconTree.docWith, Doc.body_append, List.length_append] at hsize
    have hfuel : treeTurns rest + 1 + fuel = treeTurns rest + fuel + 1 := by omega
    have hturn : bconAppendTurn fresh ⟨⟨i, false⟩, below⟩ c
        ((BconTree.concat b d h rest).args ++ ap) =
        .behind ⟨⟨i, false⟩, below⟩ (rest.args ++ ap)
          (bconCall fresh c (.append (.concat b))) := rfl
    rw [treeTurns, hfuel, bconAppendLoop, hturn, treeSteps, bconCalls]
    cases bconCall fresh c (.append (.concat b)) with
    | none => rfl
    | some c1 => exact ih i below c1 ap fuel hdepth (by omega) fun h => by cases h
  | splice b d h small rest ih =>
    intro i below c ap fuel hdepth hsize hi
    have hcount := fieldCount_le (d.renumbered Value.copy i)
    rw [renumbered_count] at hcount
    simp only [BconTree.docWith, Doc.body_append, List.length_append] at hsize hi
    have hbound := hi trivial
    have hfuel : treeTurns rest + 1 + fuel = treeTurns rest + fuel + 1 := by omega
    rw [treeTurns, hfuel, bconAppendLoop, BconTree.args, List.cons_append, List.cons_append,
      List.cons_append, turn_splice fresh h small c _ (by omega), treeSteps, bconCalls_append]
    cases bconCalls fresh (spliceSteps ((bsonIterInit b).2.len + 1) (bsonIterInit b).2 i) c with
    | none => rfl
    | some c1 => exact ih _ below c1 ap fuel hdepth (by omega) fun _ => by omega

end LibBson.Source
