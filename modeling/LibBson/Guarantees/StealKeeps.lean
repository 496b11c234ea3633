import LibBson.Source.HeapRuns

/-!
# Moving a document keeps it

Source: bson.c:2317-2396, 2093-2144. `bson_steal` points `buf` and `buflen` of the
destination at its own `alloc` and `alloclen`, also for a document that reaches its
octets through the variables of its caller, whose `alloc` is NULL. It copies the 120
octets of an inline document, which an append of a regular expression can make longer.
`bson_destroy_with_steal` follows `buf` instead.
-/

set_option autoImplicit false

namespace LibBson.Guarantees
open LibBson.Library LibBson.Source

/-- `bson` can be moved to a `bson_t` that holds `mem` or to a new buffer that holds
`block`, whatever those are. Calls on the moved document end as they do on `bson`, and unless
its buffer is larger than `_bson_grow` makes one the blocks it grows into may hold something
else. -/
structure MovesWhole (fresh : Nat → Mem) (v : Caller) (bson : BsonT) (c : Chain) : Prop where
  steal : ∀ mem, ∃ c', (bsonSteal mem bson).1 = true ∧
    (bsonSteal mem bson).2.1.document v = some c' ∧ SameDocument c c' ∧
    ∀ steps, EndAlike SameDocument (bsonSteps fresh c steps) (bsonSteps fresh c' steps) ∧
      (c.InOrder → ∀ fresh',
        EndAlike SameDocument (bsonSteps fresh c steps) (bsonSteps fresh' c' steps))
  destroy : ∀ block, ∃ m, bsonDestroyWithSteal block v bson true = (some m, c.bson.len) ∧
    ∀ i, i < c.bson.len → m i = c.ref.data i

/-- The variables of the caller hold the document that `bson_new_from_buffer` put there. -/
def HeldBy (v : Caller) (place : Place) (c : Chain) : Prop :=
  place = .caller → v = { buf := some c.buf, buflen := c.capacity }

section Moves

variable {fresh : Nat → Mem} {v : Caller} {place : Place} {c : Chain}

theorem destroy_keeps (static : Bool) (hheld : Held fresh place c) (root : c.parents = [])
    (hv : HeldBy v place c) (block : Mem) :
    ∃ m, bsonDestroyWithSteal block v (layOut place static c) true = (some m, c.bson.len) ∧
      ∀ i, i < c.bson.len → m i = c.ref.data i := by
  have hroot := hheld.root
  rw [Chain.root, root, outermost] at hroot
  cases c with
  | inline data len =>
    refine ⟨data.copyPrefix block len, rfl, fun i hi => ?_⟩
    rw [Mem.copyPrefix_of_lt _ _ _ _ hi]
    simp [Chain.ref]
  | alloc buf buflen realloc bson parents =>
    have hbuf : (layOut place static (.alloc buf buflen realloc bson parents)).buf v = some buf := by
      cases place with
      | own => rfl
      | caller =>
        rw [hv rfl]
        rfl
    refine ⟨buf, ?_, fun i hi => ?_⟩
    · cases place <;> exact congrArg (·, bson.len) hbuf
    · rw [Chain.ref, hroot]
      simp

/-- The copied 120 octets hold the inline document while it is not longer. -/
theorem steal_inline (data mem : Mem) {len : Nat} (hlen : len ≤ 120) (static : Bool) :
    ∃ c', (bsonSteal mem (layOut place static (.inline data len))).2.1.document v = some c' ∧
      Moved (.inline data len) c' := by
  refine ⟨_, rfl, .inline _ _ _ fun i hi => ?_⟩
  exact Mem.write_slice_at _ _ _ _ (Nat.lt_of_lt_of_le hi hlen)

theorem steal_returns (static : Bool) (mem : Mem) :
    (bsonSteal mem (layOut place static c)).1 = true := by
  cases c with
  | inline data len => rfl
  | alloc buf buflen realloc bson parents => cases place <;> rfl

/-- A longer document loses its octet behind the 120. -/
theorem steal_inline_long (place : Place) (v : Caller) (data : Mem) {len : Nat} (hlen : 120 < len)
    (static : Bool) :
    ∃ mem, ∀ c', (bsonSteal mem (layOut place static (.inline data len))).2.1.document v = some c' →
      ¬ SameDocument (.inline data len) c' := by
  refine ⟨fun _ => data 120 + 1, fun c' h hsame => ?_⟩
  cases h
  have hoctet : data 120 + 1 = data 120 := by
    have hinside : 120 < 0 + len := by omega
    have h120 := hsame.octets 120 hinside
    rwa [Chain.buf, Mem.write_after _ _ _ _ (by simp), Mem.write_after _ _ _ _ (by simp)] at h120
  exact absurd hoctet (by simp)

end Moves

/-- A document can be moved exactly if it does not reach its octets through its caller's
variables and, while inline, is not longer than its 120 octets. -/
theorem moves_whole_iff (fresh : Nat → Mem) (v : Caller) (place : Place) (static : Bool)
    (c : Chain) (hheld : Held fresh place c) (root : c.parents = []) (hv : HeldBy v place c) :
    MovesWhole fresh v (layOut place static c) c ↔
      (c.isInline = true → c.bson.len ≤ 120) ∧ (c.isInline = false → place = .own) := by
  constructor
  · intro h
    refine ⟨fun hinline => ?_, fun hheap => ?_⟩
    · cases c with
      | alloc buf buflen realloc bson parents => cases hinline
      | inline data len =>
        by_contra hlong
        obtain ⟨mem, hlost⟩ := steal_inline_long place v data (Nat.lt_of_not_le hlong)
          static
        obtain ⟨c', -, hdocument, hsame, -⟩ := h.steal mem
        exact hlost c' hdocument hsame
    · cases place with
      | own => rfl
      | caller =>
        -- `alloc` is NULL
        obtain ⟨c', -, hdocument, -⟩ := h.steal fun _ => 0
        cases c with
        | inline data len => cases hheap
        | alloc buf buflen realloc bson parents => cases hdocument
  · rintro ⟨hshort, hown⟩
    refine ⟨fun mem => ?_, destroy_keeps static hheld root hv⟩
    have hmoved : ∃ c', (bsonSteal mem (layOut place static c)).2.1.document v = some c' ∧
        Moved c c' := by
      cases c with
      | inline data len => exact steal_inline data mem (hshort rfl) static
      | alloc buf buflen realloc bson parents =>
        obtain rfl := hown rfl
        obtain rfl : parents = [] := root
        exact ⟨_, rfl, .same _⟩
    obtain ⟨c', hdocument, hmoved⟩ := hmoved
    refine ⟨c', steal_returns static mem, hdocument, hmoved.sameDocument, fun steps => ⟨?_, ?_⟩⟩
    · exact (bsonSteps_moved fresh steps hmoved).mono fun _ _ h => h.sameDocument
    · intro horder fresh'
      exact (bsonSteps_alike fresh fresh' steps (hmoved.alike horder)).mono fun _ _ h =>
        h.sameDocument

/-- What `bson_new_from_buffer` makes of a NULL buffer. -/
def fromNull (fresh : Nat → Mem) : Chain :=
  .alloc (((fresh 5).write 0 (leBytes 4 5)).write 4 [0]) 5 true { len := 5, depth := 0, offset := 0 }
    []

/-- `{"d": {"n": 5}, "s": "xy", "t": true}` -/
def fieldsRun : List Step :=
  [.documentBegin [100] (-1), .append (.field [110] (-1) (.int32 5)), .end,
    .append (.field [115] (-1) (.utf8 (some [120, 121]) (-1))),
    .append (.field [116] (-1) (.bool true))]

/-- A document on the heap with its fields. -/
theorem moves_whole_fields :
    ∃ c, bsonSteps (fun _ _ => 0) (bsonInit fun _ => 0) fieldsRun = .ok c ∧
      c.isInline = false ∧ c.bson.len = 34 ∧
      MovesWhole (fun _ _ => 0) { buf := none, buflen := 0 } (layOut .own true c) c := by
  have hrun : bsonSteps (fun _ _ => 0) (bsonInit fun _ => 0) fieldsRun = .ok _ := rfl
  have hheld := (Held.init (fun _ => 0)).run hrun
  refine ⟨_, hrun, rfl, rfl, ?_⟩
  apply (moves_whole_iff (fun _ _ => 0) { buf := none, buflen := 0 } .own true _ hheld rfl ?_).mpr
  · exact ⟨fun h => absurd h Bool.false_ne_true, fun _ => rfl⟩
  · intro h
    cases h

/-- A document made over a NULL buffer is not there after it has been stolen. -/
theorem not_moves_whole :
    Held (fun _ _ => 0) .caller (fromNull fun _ _ => 0) ∧
      ¬ MovesWhole (fun _ _ => 0)
        { buf := some (fromNull fun _ _ => 0).buf, buflen := (fromNull fun _ _ => 0).capacity }
        (layOut .caller false (fromNull fun _ _ => 0)) (fromNull fun _ _ => 0) := by
  refine ⟨.made (.newFromBuffer none 0) _ rfl, fun h => ?_⟩
  obtain ⟨c', -, hdocument, -⟩ := h.steal fun _ => 0
  cases hdocument

end LibBson.Guarantees
