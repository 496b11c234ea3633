import LibBson.Source.BuildRuns

/-!
# Building a document gives its encoding

For every well-bracketed sequence of appends, concatenations and children, on an
inline or a heap document, through every growth of the buffer.
Source: bson.c:115-222, 310-565, 752-1958, 3466-3477.
-/

set_option autoImplicit false

namespace LibBson.Guarantees
open LibBson.Library LibBson.Source LibBson.Spec

/-- A `bson_t` without open children that holds `d`, be its buffer fixed or not. -/
structure Start (c : Chain) (d : Doc) : Prop where
  root : c.parents = []
  depth : c.bson.depth = 0
  fits : c.Fits 1
  content : Encodes c.ref d

/-- One whose storage can be reallocated. -/
structure WritableStart (c : Chain) (d : Doc) : Prop extends Start c d where
  writable : c.growable = true

theorem Start.holding {c : Chain} {d : Doc} (h : Start c d) : Holding c d.body := by
  obtain ⟨hlen, hroom, haddr⟩ := h.fits
  have hdata : Holds c.buf c.bson.offset (frame d.body) := by
    have hd := h.content.data
    rwa [Chain.ref, holds_shift, Nat.add_zero, Doc.encode] at hd
  refine ⟨⟨⟨hlen, by omega, haddr⟩, h.content.len_body, ?_, fun _ => h.depth⟩, hdata⟩
  rw [frame, holds_append, leBytes_length, holds_append] at hdata
  exact hdata.2.1

theorem encodes_of_holding {c : Chain} {d : Doc} (h : Holding c d.body) : Encodes c.ref d where
  len := by
    rw [Doc.encode_length]
    exact h.len
  data := by
    rw [Chain.ref, holds_shift, Nat.add_zero]
    exact h.content

/-- The calls all return true and leave exactly the encoding of the described
tree, exactly when no child is begun on an inline document that fills more than
its 120 octets. -/
theorem build_exact_iff (fresh : Nat → Mem) (c : Chain) (before d : Doc) (steps : List Step)
    (hstart : WritableStart c before) (hb : Builds steps d)
    (hsize : c.bson.offset + (before.append d).encode.length ≤ 1073741824) :
    (∃ c', bsonSteps fresh c steps = .ok c' ∧ c'.parents = [] ∧
        Encodes c'.ref (before.append d)) ↔
      ¬ (c.isInline = true ∧ beginsFull c.bson.len steps = true) := by
  have hold := hstart.holding
  rw [Doc.encode_length, Doc.body_append, List.length_append] at hsize
  have hbound : c.bson.offset + (before.body.length + d.body.length + 5) + c.bson.depth ≤
      1073741824 := by
    rw [hstart.depth]
    omega
  constructor
  · rintro ⟨c', hok, -, -⟩ ⟨hin, hfull⟩
    rw [run_aborts hb c _ hold hstart.writable hbound hin hfull] at hok
    cases hok
  · intro hfull
    obtain ⟨c', hok, -⟩ := run_success fresh hb c _ hold hstart.writable hbound hfull
    obtain ⟨hold', hs⟩ := run_holding hb c c' _ hok hold (by omega)
    rw [← Doc.body_append] at hold'
    exact ⟨c', hok, hs.parents.trans hstart.root, encodes_of_holding hold'⟩

/-- A document built through an open child has the octets of one built
separately and appended. -/
theorem open_child_eq_separate (fresh1 fresh2 : Nat → Mem) (c c1 c2 : Chain) (before d : Doc)
    (opened separate : List Step) (hstart : Start c before) (ho : Builds opened d)
    (hs : Builds separate d)
    (hsize : c.bson.offset + (before.append d).encode.length ≤ 1073741824)
    (h1 : bsonSteps fresh1 c opened = .ok c1) (h2 : bsonSteps fresh2 c separate = .ok c2) :
    c1.ref.data.slice 0 c1.ref.len = c2.ref.data.slice 0 c2.ref.len := by
  have hold := hstart.holding
  rw [Doc.encode_length, Doc.body_append, List.length_append] at hsize
  have e1 := (run_holding ho c c1 _ h1 hold (by omega)).1
  have e2 := (run_holding hs c c2 _ h2 hold (by omega)).1
  rw [← Doc.body_append] at e1 e2
  rw [(encodes_of_holding e1).slice, (encodes_of_holding e2).slice]

theorem start_bsonInit (data : Mem) : WritableStart (bsonInit data) .nil where
  root := rfl
  depth := rfl
  writable := rfl
  fits := ⟨(by decide : 5 ≤ 5), (by decide : 0 + 5 + 0 ≤ 120 + 1),
    (by decide : 120 < 4611686018427387904)⟩
  content := ⟨by simp [bsonInit, Chain.ref, Doc.encode_length], by
    rw [Chain.ref, holds_shift]
    exact Mem.holds_write_self _ _ _⟩

def emptyKey : CStr := ⟨[], by simp⟩

/-- `{"": BinData (0, 105 octets), "": //, "": {}}` on a fresh `bson_t`: the regex
fills the 120 octets that are there, and one more. -/
def fullInline : List Step :=
  [.append (.field [] 0 (.binary 0 [] 105)), .append (.field [] 0 (.regex none none)),
    .documentBegin [] 0, .end]

def fullInlineDoc : Doc :=
  .cons emptyKey (.binary 0 (copied [] 105))
    (.cons emptyKey (.regex emptyKey emptyKey) (.cons emptyKey (.document .nil) .nil))

theorem builds_fullInline : Builds fullInline fullInlineDoc :=
  .append _ (.cons emptyKey (.binary 0 (copied [] 105)) .nil) _ _
    (.keyed _ [] 0 _ emptyKey _ rfl rfl (.binary 0 [] 105)) <|
  .append _ (.cons emptyKey (.regex emptyKey emptyKey) .nil) _ _
    (.keyed _ [] 0 _ emptyKey _ rfl rfl (.regex none none emptyKey emptyKey rfl rfl)) <|
  .document [] 0 emptyKey [] .nil [] .nil rfl .nil .nil

theorem fullInlineDoc_length : fullInlineDoc.encode.length = 128 := by
  simp [fullInlineDoc, Doc.encode_length, Doc.body_cons, Value.encode, emptyKey,
    subtypeBinaryDeprecated]

theorem build_exact_iff_fullInline :
    (∃ c', bsonSteps (fun _ _ => 0) (bsonInit fun _ => 0) fullInline = .ok c' ∧ c'.parents = [] ∧
        Encodes c'.ref (Doc.nil.append fullInlineDoc)) ↔
      ¬ ((bsonInit fun _ => 0).isInline = true ∧
        beginsFull (bsonInit fun _ => 0).bson.len fullInline = true) :=
  build_exact_iff (fun _ _ => 0) (bsonInit fun _ => 0) .nil fullInlineDoc fullInline
    (start_bsonInit _) builds_fullInline
    (by
      rw [Doc.append, fullInlineDoc_length]
      exact (by decide : 0 + 128 ≤ 1073741824))

/-- `bson_append_document_begin` aborts on `BSON_ASSERT (bson->len <= 120)`. -/
theorem fullInline_aborts :
    Builds fullInline fullInlineDoc ∧ fullInlineDoc.encode.length = 128 ∧
      bsonSteps (fun _ _ => 0) (bsonInit fun _ => 0) fullInline = .aborted :=
  ⟨builds_fullInline, fullInlineDoc_length, rfl⟩

end LibBson.Guarantees
