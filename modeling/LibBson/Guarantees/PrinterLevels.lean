import LibBson.Source.AsJsonActive
import LibBson.Source.AsJsonFields
import LibBson.Source.DecodeLevel
import LibBson.Spec.Builds

/-!
# How deep the printers nest

The depth test of documents and arrays starts anew in every code scope: it bounds the
levels of a document without scopes, and those of others only between two scopes.
Source: bson.c:29-31, 2956-2991, 3023-3216.
-/

set_option autoImplicit false

namespace LibBson.Guarantees
open LibBson.Library LibBson.Source LibBson.Spec

/-- The levels that hang together under the field `it`, the value of which is visited in
the state `s`; `below` are those that start with the visit of a child. `inScope`: a code
scope is among them. -/
inductive FieldChain (below : BsonIter → BsonJsonState → Bool → Nat → Prop) (it : BsonIter)
    (s : BsonJsonState) : Bool → Nat → Prop
  | nested {keys : Bool} {b : BsonRef} {child : BsonIter} {inScope : Bool} {levels : Nat}
    (hb : nestedDocument it = some (keys, b)) (hdepth : s.depth < bsonMaxRecursion)
    (hinit : bsonIterInit b = (true, child)) (h : below child (s.child keys) inScope levels) :
    FieldChain below it s inScope levels
  | scope {code escaped : Bytes} {b : BsonRef} {child : BsonIter} {inScope : Bool} {levels : Nat}
    (hb : scopeDocument it = some (code, b)) (hcode : escapeText code = .text escaped)
    (hempty : bsonEmpty b = false) (hinit : bsonIterInit b = (true, child))
    (h : below child (.init true s.mode) inScope levels) : FieldChain below it s true levels

/-- A chain of `levels` nested levels, the visit of `it` from the state `s` the first:
each is the value of a field that the visit of the one before reaches. Visitors are for
`n` more levels. -/
def LevelChain : Nat → BsonIter → BsonJsonState → Bool → Nat → Prop
  | 0, _, _, inScope, levels => inScope = false ∧ levels = 1
  | n + 1, it, s, inScope, levels =>
    inScope = false ∧ levels = 1 ∨
      ∃ f s' below, levels = below + 1 ∧
        FieldReached (bsonAsJsonVisitors (n + 1)) (visitWalkAll it).1 s f s' ∧
          FieldChain (LevelChain n) f s' inScope below

/-- A chain that starts with the document a printer is called for. -/
def PrinterChain (bson : BsonRef) (mode : BsonJsonMode) (inScope : Bool) (levels : Nat) : Prop :=
  bsonEmpty bson = false ∧ ∃ it, bsonIterInit bson = (true, it) ∧
    LevelChain bson.len it (.init true mode) inScope levels

theorem levelChain_one (n : Nat) (it : BsonIter) (s : BsonJsonState) :
    LevelChain n it s false 1 := by
  cases n with
  | zero => exact ⟨rfl, rfl⟩
  | succ n => exact Or.inl ⟨rfl, rfl⟩

theorem scopeDocument_not_nested {it : BsonIter} {v : Bytes × BsonRef}
    (h : scopeDocument it = some v) : nestedDocument it = none := by
  unfold scopeDocument at h
  split at h
  · next htype =>
    unfold nestedDocument
    rw [htype]
  · cases h

section FieldChain

variable {below : BsonIter → BsonJsonState → Bool → Nat → Prop} {it child : BsonIter}
  {s : BsonJsonState} {inScope : Bool} {levels : Nat}

theorem fieldChain_nested {keys : Bool} {b : BsonRef} (hb : nestedDocument it = some (keys, b))
    (hinit : bsonIterInit b = (true, child)) :
    FieldChain below it s inScope levels ↔
      s.depth < bsonMaxRecursion ∧ below child (s.child keys) inScope levels := by
  constructor
  · intro h
    cases h with
    | nested hb' hdepth hinit' h =>
      cases hb.symm.trans hb'
      cases hinit.symm.trans hinit'
      exact ⟨hdepth, h⟩
    | scope hb' =>
      rw [scopeDocument_not_nested hb'] at hb
      cases hb
  · rintro ⟨hdepth, h⟩
    exact .nested hb hdepth hinit h

theorem fieldChain_scope {code : Bytes} {b : BsonRef} (hb : scopeDocument it = some (code, b))
    (hinit : bsonIterInit b = (true, child)) :
    FieldChain below it s inScope levels ↔
      inScope = true ∧ (∃ escaped, escapeText code = .text escaped) ∧ bsonEmpty b = false ∧
        ∃ inner, below child (.init true s.mode) inner levels := by
  constructor
  · intro h
    cases h with
    | nested hb' =>
      rw [scopeDocument_not_nested hb] at hb'
      cases hb'
    | scope hb' hcode hempty hinit' h =>
      cases hb.symm.trans hb'
      cases hinit.symm.trans hinit'
      exact ⟨rfl, ⟨_, hcode⟩, hempty, _, h⟩
  · rintro ⟨rfl, ⟨escaped, hcode⟩, hempty, inner, h⟩
    exact .scope hb hcode hempty hinit h

theorem not_fieldChain (hnested : nestedDocument it = none) (hscope : scopeDocument it = none) :
    ¬ FieldChain below it s inScope levels := by
  intro h
  cases h with
  | nested hb => cases hnested.symm.trans hb
  | scope hb => cases hscope.symm.trans hb

end FieldChain

/-! ## The count and the chains -/

/-- A visit with the count reaches `x` levels where a chain does. -/
def CountsChains (n : Nat) : Prop :=
  ∀ (b : BsonRef) (it : BsonIter) (s : BsonJsonState) (c : ActiveLevels) (x : Nat),
    b.len ≤ maxLen → bsonIterInit b = (true, it) → c.active ≤ c.most →
      (x ≤ (bsonIterVisitAll (watchedVisitors n) it (s, c)).data.2.most ↔
        x ≤ c.most ∨ ∃ inScope levels, LevelChain n it s inScope levels ∧ x + 1 ≤ c.active + levels)

section Count

variable {n x : Nat} {c : ActiveLevels}

/-- The visit of a child, entered and left. -/
theorem CountsChains.child (h : CountsChains n) {b : BsonRef} {it : BsonIter} (s : BsonJsonState)
    (hmax : b.len ≤ maxLen) (hinit : bsonIterInit b = (true, it)) :
    x ≤ (c.leave (bsonIterVisitAll (watchedVisitors n) it (s, c.enter)).data.2).most ↔
      x ≤ c.most ∨ ∃ inScope levels, LevelChain n it s inScope levels ∧ x ≤ c.active + levels := by
  have hvisit := h b it s c.enter x hmax hinit (Nat.le_max_right _ _)
  have hmost : c.enter.most = max c.most (c.active + 1) := rfl
  have hactive : c.enter.active = c.active + 1 := rfl
  rw [hmost, hactive] at hvisit
  refine hvisit.trans ?_
  constructor
  · rintro (hx | ⟨inScope, levels, hchain, hx⟩)
    · rcases Nat.lt_or_ge c.most x with hlt | hge
      · exact Or.inr ⟨false, 1, levelChain_one n it s, by omega⟩
      · exact Or.inl hge
    · exact Or.inr ⟨inScope, levels, hchain, by omega⟩
  · rintro (hx | ⟨inScope, levels, hchain, hx⟩)
    · exact Or.inl (by omega)
    · exact Or.inr ⟨inScope, levels, hchain, by omega⟩

theorem CountsChains.nested (h : CountsChains n) {it : BsonIter} {keys : Bool} {b : BsonRef}
    (hb : nestedDocument it = some (keys, b)) (s : BsonJsonState) :
    x ≤ (activeNested (watchedVisitors n) keys b s c).most ↔
      x ≤ c.most ∨ ∃ inScope levels, FieldChain (LevelChain n) it s inScope levels ∧
        x ≤ c.active + levels := by
  obtain ⟨h5, hmax⟩ := nestedDocument_len hb
  have hinit := bsonIterInit_of_le h5
  simp only [fieldChain_nested hb hinit]
  unfold activeNested
  split
  · next hdeep =>
    refine ⟨Or.inl, ?_⟩
    rintro (hx | ⟨inScope, levels, ⟨hdepth, -⟩, -⟩)
    · exact hx
    · omega
  · next hdeep =>
    have hdepth : s.depth < bsonMaxRecursion := Nat.lt_of_not_le hdeep
    rw [hinit]
    refine (h.child (s.child keys) hmax hinit).trans ?_
    simp only [hdepth, true_and]

theorem CountsChains.scope (h : CountsChains n) {it : BsonIter} {v : Bytes × BsonRef}
    (hb : scopeDocument it = some v) (s : BsonJsonState) :
    x ≤ (activeCodewscope (watchedVisitors n) v s c).most ↔
      x ≤ c.most ∨ ∃ inScope levels, FieldChain (LevelChain n) it s inScope levels ∧
        x ≤ c.active + levels := by
  obtain ⟨h5, hmax⟩ := scopeDocument_len hb
  have hinit := bsonIterInit_of_le h5
  simp only [fieldChain_scope hb hinit]
  unfold activeCodewscope activeAll
  cases hcode : escapeText v.1 with
  | lost => simp
  | null => simp
  | text escaped =>
    cases hempty : bsonEmpty v.2 with
    | true => simp
    | false =>
      rw [hinit]
      simp only [Bool.false_eq_true, if_false]
      refine (h.child (.init true s.mode) hmax hinit).trans ?_
      constructor
      · rintro (hx | ⟨inner, levels, hchain, hx⟩)
        · exact Or.inl hx
        · exact Or.inr ⟨true, levels, ⟨rfl, ⟨escaped, rfl⟩, trivial, inner, hchain⟩, hx⟩
      · rintro (hx | ⟨inScope, levels, ⟨-, -, -, inner, hchain⟩, hx⟩)
        · exact Or.inl hx
        · exact Or.inr ⟨inner, levels, hchain, hx⟩

/-- A field adds levels where a chain goes through it. -/
theorem CountsChains.field (h : CountsChains n) (it : BsonIter) (s : BsonJsonState) :
    x ≤ ((activeCounts (n + 1)).field it s c).most ↔
      x ≤ c.most ∨ ∃ inScope levels, FieldChain (LevelChain n) it s inScope levels ∧
        x ≤ c.active + levels := by
  unfold Besides.field
  cases hnested : nestedDocument it with
  | some b =>
    obtain ⟨keys, b⟩ := b
    cases keys with
    | true => exact h.nested hnested s
    | false => exact h.nested hnested s
  | none =>
    cases hscope : scopeDocument it with
    | some v => exact h.scope hscope s
    | none => simp [not_fieldChain hnested hscope]

theorem nested_active (visitors : Visitor (BsonJsonState × ActiveLevels)) (keys : Bool) (b : BsonRef)
    (s : BsonJsonState) : (activeNested visitors keys b s c).active = c.active := by
  unfold activeNested
  split
  · rfl
  · split
    · rfl
    · rfl

theorem scope_active (visitors : Visitor (BsonJsonState × ActiveLevels)) (v : Bytes × BsonRef)
    (s : BsonJsonState) : (activeCodewscope visitors v s c).active = c.active := by
  unfold activeCodewscope activeAll
  split
  · rfl
  · rfl
  · split
    · rfl
    · split
      · rfl
      · rfl

theorem field_active (it : BsonIter) (s : BsonJsonState) :
    ((activeCounts (n + 1)).field it s c).active = c.active := by
  unfold Besides.field
  split
  · exact nested_active _ _ _ _
  · exact nested_active _ _ _ _
  · exact scope_active _ _ _
  · rfl

theorem CountsChains.element (h : CountsChains n) (f : BsonIter × Bytes) (s : BsonJsonState) :
    x ≤ ((activeCounts (n + 1)).element (bsonAsJsonVisitors (n + 1)) f s c).most ↔
      x ≤ c.most ∨ ∃ inScope levels,
        (Callback.call (bsonAsJsonVisitors (n + 1)).before f.1 f.2 () s).stop = false ∧
          FieldChain (LevelChain n) f.1
            (Callback.call (bsonAsJsonVisitors (n + 1)).before f.1 f.2 () s).data inScope levels ∧
          x ≤ c.active + levels := by
  unfold Besides.element
  cases hstop : (Callback.call (bsonAsJsonVisitors (n + 1)).before f.1 f.2 () s).stop with
  | true => simp [hstop]
  | false =>
    simp only [hstop, Bool.false_eq_true, if_false, true_and]
    exact h.field _ _

theorem element_active (f : BsonIter × Bytes) (s : BsonJsonState) :
    ((activeCounts (n + 1)).element (bsonAsJsonVisitors (n + 1)) f s c).active = c.active := by
  unfold Besides.element
  dsimp only
  split
  · rfl
  · exact field_active _ _

/-- The fields of a walk: a chain goes through one that is reached. -/
theorem CountsChains.walked (h : CountsChains n) (fs : List (BsonIter × Bytes)) (s : BsonJsonState) :
    x ≤ ((activeCounts (n + 1)).walked (bsonAsJsonVisitors (n + 1)) fs s c).most ↔
      x ≤ c.most ∨ ∃ f s' inScope levels, FieldReached (bsonAsJsonVisitors (n + 1)) fs s f s' ∧
        FieldChain (LevelChain n) f s' inScope levels ∧ x ≤ c.active + levels := by
  induction fs generalizing s c with
  | nil => simp [Besides.walked, not_fieldReached_nil]
  | cons f fs ih =>
    have helement := h.element (x := x) (c := c) f s
    have hactive := element_active (n := n) (c := c) f s
    simp only [Besides.walked, fieldReached_cons]
    split
    · next hstop =>
      refine helement.trans ?_
      constructor
      · rintro (hx | ⟨inScope, levels, hgo, hchain, hx⟩)
        · exact Or.inl hx
        · exact Or.inr ⟨_, _, inScope, levels, Or.inl ⟨hgo, rfl, rfl⟩, hchain, hx⟩
      · rintro (hx | ⟨g, s', inScope, levels, ⟨hgo, rfl, rfl⟩ | ⟨hgo, -⟩, hchain, hx⟩)
        · exact Or.inl hx
        · exact Or.inr ⟨inScope, levels, hgo, hchain, hx⟩
        · rw [hstop] at hgo
          cases hgo
    · next hstop =>
      refine (ih _).trans ?_
      rw [helement, hactive]
      constructor
      · rintro ((hx | ⟨inScope, levels, hgo, hchain, hx⟩) |
          ⟨g, s', inScope, levels, hreached, hchain, hx⟩)
        · exact Or.inl hx
        · exact Or.inr ⟨_, _, inScope, levels, Or.inl ⟨hgo, rfl, rfl⟩, hchain, hx⟩
        · exact Or.inr ⟨g, s', inScope, levels, Or.inr ⟨by simpa using hstop, hreached⟩, hchain, hx⟩
      · rintro (hx | ⟨g, s', inScope, levels, ⟨hgo, rfl, rfl⟩ | ⟨-, hreached⟩, hchain, hx⟩)
        · exact Or.inl (Or.inl hx)
        · exact Or.inl (Or.inr ⟨inScope, levels, hgo, hchain, hx⟩)
        · exact Or.inr ⟨g, s', inScope, levels, hreached, hchain, hx⟩

end Count

/-- A document that can be visited has turns enough. -/
theorem turns_of_init {b : BsonRef} {it : BsonIter} (hmax : b.len ≤ maxLen)
    (hinit : bsonIterInit b = (true, it)) : Turns (b.len + 1) it := by
  unfold bsonIterInit at hinit
  split at hinit
  · cases hinit
  · cases hinit
    exact turns_start hmax

theorem walked_zero (fs : List (BsonIter × Bytes)) (s : BsonJsonState) (c : ActiveLevels) :
    (activeCounts 0).walked (bsonAsJsonVisitors 0) fs s c = c := by
  have hfield : ∀ (it : BsonIter) (s : BsonJsonState), (activeCounts 0).field it s c = c := by
    intro it s
    unfold Besides.field
    split
    · rfl
    · rfl
    · rfl
    · rfl
  induction fs generalizing s with
  | nil => rfl
  | cons f fs ih =>
    have helement : (activeCounts 0).element (bsonAsJsonVisitors 0) f s c = c := by
      unfold Besides.element
      dsimp only
      split
      · rfl
      · exact hfield _ _
    simp only [Besides.walked, helement]
    split
    · rfl
    · exact ih _

/-- The count is the length of the longest chain. -/
theorem countsChains (n : Nat) : CountsChains n := by
  induction n with
  | zero =>
    intro b it s c x hmax hinit hactive
    rw [watched_visit 0 (turns_of_init hmax hinit)]
    simp only [Visited.beside, walked_zero]
    refine ⟨Or.inl, ?_⟩
    rintro (hx | ⟨inScope, levels, ⟨-, rfl⟩, hx⟩)
    · exact hx
    · omega
  | succ n ih =>
    intro b it s c x hmax hinit hactive
    rw [watched_visit (n + 1) (turns_of_init hmax hinit)]
    refine (ih.walked _ s).trans ?_
    constructor
    · rintro (hx | ⟨f, s', inScope, below, hreached, hchain, hx⟩)
      · exact Or.inl hx
      · exact Or.inr ⟨inScope, below + 1, Or.inr ⟨f, s', below, rfl, hreached, hchain⟩, by omega⟩
    · rintro (hx | ⟨inScope, levels, ⟨-, rfl⟩ | ⟨f, s', below, rfl, hreached, hchain⟩, hx⟩)
      · exact Or.inl hx
      · exact Or.inl (by omega)
      · exact Or.inr ⟨f, s', inScope, below, hreached, hchain, by omega⟩

theorem activeLevels_iff (bson : BsonRef) (hmax : bson.len ≤ maxLen) (mode : BsonJsonMode) (x : Nat)
    (hpos : 0 < x) :
    x ≤ activeLevels bson mode ↔
      ∃ inScope levels, PrinterChain bson mode inScope levels ∧ x ≤ levels := by
  unfold activeLevels activeAll PrinterChain
  cases hempty : bsonEmpty bson with
  | true =>
    simp
    omega
  | false =>
    cases hinit : bsonIterInit bson with
    | mk ok it =>
      cases ok with
      | false =>
        simp
        omega
      | true =>
        simp only [Bool.false_eq_true, if_false]
        refine ((countsChains bson.len).child (.init true mode) hmax hinit).trans ?_
        constructor
        · rintro (hx | ⟨inScope, levels, hchain, hx⟩)
          · exact absurd hx (Nat.not_le_of_lt hpos)
          · exact ⟨inScope, levels, ⟨trivial, it, rfl, hchain⟩, by simpa using hx⟩
        · rintro ⟨inScope, levels, ⟨-, it', hit, hchain⟩, hx⟩
          cases hit
          exact Or.inr ⟨inScope, levels, hchain, by simpa using hx⟩

/-! ## Chains without a scope -/

/-- Documents and arrays alone: the depth of the state is that of the level. -/
theorem levelChain_bounded {n depth levels : Nat} {it : BsonIter} {s : BsonJsonState}
    {mode : BsonJsonMode} (h : LevelChain n it s false levels) (hs : ProperState mode depth s)
    (hdepth : depth ≤ bsonMaxRecursion) : depth + levels ≤ bsonMaxRecursion + 1 := by
  induction n generalizing it s depth levels with
  | zero =>
    obtain ⟨-, rfl⟩ := h
    omega
  | succ n ih =>
    rcases h with ⟨-, rfl⟩ | ⟨f, s', below, rfl, hreached, hchain⟩
    · omega
    · have hs' := hreached.keeps (proper_keeps (n + 1)) hs
      cases hchain with
      | @nested keys b child _ _ hb hlow hinit hbelow =>
        have hd := hs'.depth
        have hchild : ProperState mode (depth + 1) (s'.child keys) :=
          ⟨List.not_mem_nil, hs'.mode, congrArg (· + 1) hd⟩
        have hle := ih hbelow hchild (by omega)
        omega

/-- The printers nest at most `BSON_MAX_RECURSION + 1` levels exactly if no chain that
goes through a code scope is longer. -/
theorem printer_levels_iff (bson : BsonRef) (hmax : bson.len ≤ 2147483647) (mode : BsonJsonMode) :
    activeLevels bson mode ≤ bsonMaxRecursion + 1 ↔
      ∀ levels, PrinterChain bson mode true levels → levels ≤ bsonMaxRecursion + 1 := by
  have hcount := activeLevels_iff bson (Nat.le_trans hmax (by decide)) mode (bsonMaxRecursion + 2)
    (by decide)
  constructor
  · intro h levels hchain
    by_contra hlong
    have hdeep := hcount.mpr ⟨true, levels, hchain, by omega⟩
    omega
  · intro h
    by_contra hdeep
    obtain ⟨inScope, levels, hchain, hlong⟩ := hcount.mp (by omega)
    cases inScope with
    | true =>
      have hle := h levels hchain
      omega
    | false =>
      obtain ⟨-, it, -, hlevels⟩ := hchain
      have hinit : ProperState mode 0 (.init true mode) := ⟨List.not_mem_nil, rfl, rfl⟩
      have hle := levelChain_bounded hlevels hinit (by decide)
      omega

/-- `{"a": [null], "s": Code ("x", {"b": true})}` -/
def arrayBesideScope : BsonRef where
  data := Mem.ofBytes [38, 0, 0, 0, 4, 97, 0, 8, 0, 0, 0, 10, 48, 0, 0,
    15, 115, 0, 19, 0, 0, 0, 2, 0, 0, 0, 120, 0, 9, 0, 0, 0, 8, 98, 0, 1, 0, 0]
  len := 38

/-- The array and the scope are a level each below the document. -/
theorem printer_levels_iff_arrayBesideScope :
    activeLevels arrayBesideScope .canonical = 2 ∧
      ∀ levels, PrinterChain arrayBesideScope .canonical true levels →
        levels ≤ bsonMaxRecursion + 1 := by
  have htwo : activeLevels arrayBesideScope .canonical = 2 := by decide +kernel
  refine ⟨htwo, (printer_levels_iff arrayBesideScope (by decide) .canonical).mp ?_⟩
  rw [htwo]
  decide

/-! ## A chain of scopes -/

/-- Empty code, the scope of which holds empty code with a scope, and so on. -/
def scopesDoc : Nat → Doc
  | 0 => .cons ⟨[97], noNul_a⟩ .null .nil
  | n + 1 => .cons ⟨[97], noNul_a⟩ (.codewscope [] (scopesDoc n)) .nil

/-- A document with these octets. -/
def scopesBson (n : Nat) : BsonRef where
  data := Mem.ofBytes (scopesDoc n).encode
  len := (scopesDoc n).encode.length

theorem scopesDoc_length (n : Nat) : (scopesDoc n).body.length = 17 * n + 3 := by
  induction n with
  | zero => rfl
  | succ n ih =>
    simp only [scopesDoc, Doc.body_cons, Doc.body_nil, Value.encode, List.length_append,
      header_length, leBytes_length, lengthText_length, frame_length, ih, List.length_nil,
      List.length_singleton]
    omega

section Fields

variable {b : BsonRef} {it : BsonIter} {key : CStr} {v : Value} {rest : Doc}

/-- The step to the first field. -/
theorem first_element (hmax : b.len ≤ maxLen) (hinit : bsonIterInit b = (true, it))
    (h : Yields (.cons key v rest) it) :
    it = BsonIter.start (some b.data) b.len ∧
      ∃ o t, Element b.data it (bsonIterNext it).2 o t := by
  unfold bsonIterInit at hinit
  split at hinit
  · cases hinit
  · cases hinit
    rw [Yields] at h
    exact ⟨rfl, element_of_next rfl (Nat.le_refl 4) hmax h.1⟩

theorem first_field (hmax : b.len ≤ maxLen) (hinit : bsonIterInit b = (true, it))
    (h : Yields (.cons key v rest) it) (hkey : validKey key.bytes = true) :
    ∃ fs, (visitWalkAll it).1 = ((bsonIterNext it).2, key.bytes) :: fs := by
  obtain ⟨rfl, o, t, he⟩ := first_element hmax hinit h
  rw [Yields] at h
  obtain ⟨hok, hholds, -⟩ := h
  have hread := key_of_next rfl hmax hok he
  rw [he.key_eq hholds] at hread
  have hvalid : ¬ (key.bytes ≠ [] ∧ bsonUtf8Validate key.bytes false = false) := by
    rintro ⟨hne, hinvalid⟩
    simp [validKey, hne, hinvalid] at hkey
  simp only [visitWalkAll, visitWalk, hok, hread, Bool.true_eq_false, if_false, if_neg hvalid]
  exact ⟨_, rfl⟩

theorem nonempty_of_yields (hmax : b.len ≤ maxLen) (hinit : bsonIterInit b = (true, it))
    (h : Yields (.cons key v rest) it) : bsonEmpty b = false := by
  obtain ⟨rfl, o, t, he⟩ := first_element hmax hinit h
  have hprogress := he.progress
  have htype : b.data 4 ≠ 0 := by
    have hbyte : b.data 4 = t.toByte := he.typeByte
    rw [hbyte]
    intro hzero
    cases t
    case eod => exact he.layout
    all_goals exact absurd hzero (by decide)
  have hstart : (BsonIter.start (some b.data) b.len).nextOff = 4 := rfl
  have hlen : (BsonIter.start (some b.data) b.len).len = b.len := rfl
  have h5 : b.len ≠ 5 := by omega
  simp [bsonEmpty, htype, h5]

end Fields

/-- The key of these documents does not stop a visit. -/
theorem before_key_a (n : Nat) (it : BsonIter) (s : BsonJsonState) :
    (Callback.call (bsonAsJsonVisitors (n + 1)).before it [97] () s).stop = false := by
  have hkey : escapeCString [97] = .text [97] := by decide
  have hcall : (Callback.call (bsonAsJsonVisitors (n + 1)).before it [97] () s).stop =
      (bsonAsJsonVisitBefore s [97]).1 := rfl
  rw [hcall, bsonAsJsonVisitBefore, hkey]
  split
  · rfl
  · rfl

theorem scopesDoc_cons (n : Nat) : ∃ v, scopesDoc n = .cons ⟨[97], noNul_a⟩ v .nil := by
  cases n with
  | zero => exact ⟨_, rfl⟩
  | succ n => exact ⟨_, rfl⟩

/-- One level more for each scope. -/
theorem levelChain_scopes (k : Nat) {n : Nat} (hn : k ≤ n) {b : BsonRef} {it : BsonIter}
    (hmax : b.len ≤ maxLen) (hinit : bsonIterInit b = (true, it)) (h : Yields (scopesDoc k) it)
    (s : BsonJsonState) : ∃ inScope, LevelChain n it s inScope (k + 1) := by
  induction k generalizing n b it s with
  | zero => exact ⟨false, levelChain_one n it s⟩
  | succ k ih =>
    obtain ⟨n, rfl⟩ : ∃ j, n = j + 1 := ⟨n - 1, by omega⟩
    obtain ⟨fs, hfs⟩ := first_field hmax hinit h (by decide)
    rw [scopesDoc, Yields] at h
    obtain ⟨-, -, htype, hreads, -⟩ := h
    rw [Reads] at hreads
    obtain ⟨p, q, hp, hcode, scope, child, hstatic, hchild, hyields⟩ := hreads
    have hscope : scopeDocument (bsonIterNext it).2 = some ([], scope) := by
      have hoctets : (bsonIterNext it).2.octets p = [] := hcode
      have hinitStatic : (bsonIterNext it).2.initStatic q = some scope := hstatic
      have hvalid : bsonUtf8Validate [] true = true := by decide
      simp only [scopeDocument, htype, Value.type, hp, hoctets, hvalid, if_true, hinitStatic,
        Option.map_some]
    obtain ⟨-, hsmall⟩ := scopeDocument_len hscope
    have hempty : bsonEmpty scope = false := by
      obtain ⟨v, hv⟩ := scopesDoc_cons k
      rw [hv] at hyields
      exact nonempty_of_yields hsmall hchild hyields
    have hreached := FieldReached.here ((bsonIterNext it).2, [97]) fs s (before_key_a n _ s)
    rw [← hfs] at hreached
    obtain ⟨inner, hchain⟩ := ih (Nat.le_of_succ_le_succ hn) hsmall hchild hyields _
    refine ⟨true, Or.inr ⟨_, _, k + 1, rfl, hreached, ?_⟩⟩
    exact .scope hscope (by decide : escapeText [] = .text []) hempty hchild hchain

/-- There is no bound on the levels of documents with scopes. -/
theorem scopesBson_levels (k : Nat) (hk : 17 * k + 8 ≤ maxLen) (mode : BsonJsonMode) :
    k < activeLevels (scopesBson k) mode := by
  have hlen : (scopesBson k).len = 17 * k + 8 := by
    rw [scopesBson, Doc.encode_length, scopesDoc_length]
  have hencodes : Encodes (scopesBson k) (scopesDoc k) := ⟨rfl, holds_ofBytes _⟩
  have hinit := bsonIterInit_of_le (b := scopesBson k) (by omega)
  have hmax : (scopesBson k).len ≤ maxLen := by omega
  have hyields : Yields (scopesDoc k)
      (BsonIter.start (some (scopesBson k).data) (scopesBson k).len) := by
    refine yields_of_holds _ rfl (Nat.le_refl 4) hencodes.elements ?_ hmax rfl
    have hbody := hencodes.len_body
    simp only [BsonIter.start]
    omega
  obtain ⟨v, hv⟩ := scopesDoc_cons k
  have hempty : bsonEmpty (scopesBson k) = false := by
    rw [hv] at hyields
    exact nonempty_of_yields hmax hinit hyields
  obtain ⟨inScope, hchain⟩ := levelChain_scopes k (n := (scopesBson k).len) (by omega) hmax
    hinit hyields (.init true mode)
  exact (activeLevels_iff (scopesBson k) hmax mode (k + 1) (Nat.succ_pos k)).mpr
    ⟨inScope, k + 1, ⟨hempty, _, hinit, hchain⟩, Nat.le_refl _⟩

/-- A document of 3425 octets is enough to pass the limit. -/
theorem scopes_past_limit :
    (scopesBson 201).len = 3425 ∧
      ¬ activeLevels (scopesBson 201) .canonical ≤ bsonMaxRecursion + 1 ∧
      ¬ activeLevels (scopesBson 201) .relaxed ≤ bsonMaxRecursion + 1 ∧
      ¬ activeLevels (scopesBson 201) .legacy ≤ bsonMaxRecursion + 1 := by
  have hdeep : ∀ mode, ¬ activeLevels (scopesBson 201) mode ≤ bsonMaxRecursion + 1 := fun mode =>
    Nat.not_le_of_lt (scopesBson_levels 201 (by decide) mode)
  refine ⟨?_, hdeep .canonical, hdeep .relaxed, hdeep .legacy⟩
  rw [scopesBson, Doc.encode_length, scopesDoc_length]

end LibBson.Guarantees
