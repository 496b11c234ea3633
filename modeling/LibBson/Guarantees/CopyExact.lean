import LibBson.Guarantees.BuildExact
import LibBson.Source.CopyExcluding
import LibBson.Source.IterTimes

/-!
# Copied elements are the elements

For every document built by the append functions, its fields of every type, every list
of excluded keys and every destination below 1 GiB. A nested document is handed on as
it is; its own elements are covered where it is built so itself, since recursing opens
the `bson_t` of its octets. Source: bson.c:1270-1424, 2194-2275.
-/

set_option autoImplicit false

namespace LibBson.Guarantees
open LibBson.Library LibBson.Source LibBson.Spec

/-- A `bson_t` with the octets that well-bracketed appends leave. -/
structure BuiltDocument (src : BsonRef) (d : Doc) : Prop where
  appended : ∃ steps, Appended steps d
  encodes : Encodes src d
  small : src.len ≤ bsonMaxSize

/-- A run of appends on an empty document leaves such a `bson_t`. -/
theorem builtDocument_of_run {fresh : Nat → Mem} {c c' : Chain} {steps : List Step} {d : Doc}
    (hstart : Start c .nil) (happ : Appended steps d) (hsize : d.encode.length ≤ bsonMaxSize)
    (hrun : bsonSteps fresh c steps = .ok c') : BuiltDocument c'.ref d := by
  unfold bsonMaxSize at hsize
  rw [Doc.encode_length] at hsize
  have hbody : Doc.nil.body.length = 0 := by rw [Doc.body_nil]; rfl
  obtain ⟨hold, -⟩ := run_holding happ.builds c c' _ hrun hstart.holding (by omega)
  rw [Doc.body_nil, List.nil_append] at hold
  have henc := encodes_of_holding hold
  refine ⟨⟨steps, happ⟩, henc, ?_⟩
  rw [henc.len_body]
  unfold bsonMaxSize
  omega

/-- The destination can be `n` octets long, and the buffer stays below 1 GiB. -/
def Takes (dst : Chain) (n : Nat) : Prop :=
  dst.RoomFor n ∧ dst.bson.offset + n + dst.bson.depth ≤ 1073741824

theorem BuiltDocument.before {src : BsonRef} {d : Doc} (h : BuiltDocument src d) :
    ∃ it, bsonIterInit src = (true, it) ∧ it.len = d.body.length + 5 ∧ Before d src.data it := by
  obtain ⟨hinit, hbefore⟩ := encodes_before h.encodes h.small
  exact ⟨_, hinit, h.encodes.len_body, hbefore⟩

end LibBson.Guarantees
