import LibBson.Source.ReaderRuns

/-!
# The two kinds of reader agree

For every stream of documents and every way a callback may hand it out.
Source: bson-reader.c:89-135, 395-503, 563-624.
-/

set_option autoImplicit false

namespace LibBson.Guarantees
open LibBson.Library LibBson.Source LibBson.Spec

/-- The octets of a stream of documents with the given elements. -/
def streamOf (bodies : List Bytes) : Bytes := (bodies.map frame).flatten

theorem streamOf_cons (body : Bytes) (bodies : List Bytes) :
    streamOf (body :: bodies) = frame body ++ streamOf bodies := rfl

section Run

variable (fresh : Nat → Mem)

theorem reads_finished (k : Nat) {r : BsonReaderHandle} {d : BsonReaderData} {pre : Bytes}
    (h : r.Finished pre.length) (hd : d.At pre []) (hsize : d.length < 2147483648) :
    ∃ last, r.reads fresh k = some ((d.reads k).1, last) := by
  have hlength := hd.length
  rw [List.append_nil] at hlength
  have hsmall := h.small
  induction k with
  | zero => exact ⟨r, rfl⟩
  | succ k ih =>
    obtain ⟨last, hrest⟩ := ih
    refine ⟨last, ?_⟩
    rw [BsonReaderHandle.reads, h.read, BsonReaderData.reads, BsonReaderData.read_end hd hsize]
    simp only [hrest, Option.map_some, Option.map_none, hd.tell hsize,
      h.buffers.tell (by omega) (by rw [List.length_nil]; omega)]

theorem reads_reading (k : Nat) (bodies : List Bytes) (r : BsonReaderHandle) (d : BsonReaderData)
    (pre : Bytes) (hbodies : ∀ body ∈ bodies, (frame body).length < 1073741824)
    (h : r.Reading pre.length (streamOf bodies)) (hd : d.At pre (streamOf bodies))
    (hsize : d.length < 2147483648) :
    ∃ last, r.reads fresh k = some ((d.reads k).1, last) := by
  induction k generalizing bodies r d pre with
  | zero => exact ⟨r, rfl⟩
  | succ k ih =>
    cases bodies with
    | nil =>
      obtain ⟨r', hr, hfin⟩ := BsonReaderHandle.turns_end fresh h
        (BsonReaderHandle.pending r.handle)
      obtain ⟨last, hrest⟩ := reads_finished fresh k hfin hd hsize
      have hlength := hd.length
      rw [streamOf, List.map_nil, List.flatten_nil, List.append_nil] at hlength
      have hsmall := hfin.small
      refine ⟨last, ?_⟩
      rw [BsonReaderHandle.reads, BsonReaderHandle.read, hr, BsonReaderData.reads,
        BsonReaderData.read_end hd hsize]
      simp only [hrest, Option.map_some, Option.map_none, hd.tell hsize,
        hfin.buffers.tell (by omega) (by rw [List.length_nil]; omega)]
    | cons body bodies =>
      have hbody := hbodies body (List.mem_cons_self ..)
      rw [frame_length] at hbody
      rw [streamOf_cons] at h hd
      obtain ⟨b, r', hr, hoctets, hreading⟩ := BsonReaderHandle.turns_document fresh hbody
        (BsonReaderHandle.pending r.handle + 2) r pre.length h (by omega)
      obtain ⟨b', d', hd', hoctets', hlen', hat⟩ := BsonReaderData.read_document hd hsize
      have hpre : pre.length + (body.length + 5) = (pre ++ frame body).length := by
        rw [List.length_append, frame_length]
      rw [hpre] at hreading
      obtain ⟨last, hrest⟩ := ih bodies r' d' (pre ++ frame body)
        (fun c hc => hbodies c (List.mem_cons_of_mem _ hc)) hreading hat (by omega)
      obtain ⟨bs, hbuf, hstream⟩ := hreading.stream
      have hsmall := hreading.small
      have hlength := hat.length
      have htotal := congrArg List.length hstream
      rw [List.length_append] at hlength htotal
      refine ⟨last, ?_⟩
      rw [BsonReaderHandle.reads, BsonReaderHandle.read, hr, BsonReaderData.reads, hd']
      simp only [hrest, Option.map_some, hat.tell (by omega : d'.length < 2147483648), hoctets,
        hoctets', hbuf.tell (by omega) (by omega)]

end Run

/-- A handle reader shows its caller what a reader of the whole stream in memory
shows: the same documents, the same end and the same offsets. -/
theorem handle_reads_as_data (fresh : Nat → Mem) (bodies chunks : List Bytes) (k : Nat)
    (hsize : ∀ body ∈ bodies, (frame body).length < 1073741824)
    (htotal : (streamOf bodies).length < 2147483648) (hne : ∀ c ∈ chunks, c ≠ [])
    (hchunks : chunks.flatten = streamOf bodies) :
    ∃ r last, bsonReaderNewFromHandle (chunks.map .octets) = some r ∧
      r.reads fresh k = some (((bsonReaderNewFromData (streamOf bodies)).reads k).1, last) := by
  obtain ⟨hdel, herr⟩ := delivered_octets hne
  obtain ⟨r, hr, hlen, hfailed, hcases⟩ := BsonReaderHandle.new_cases (chunks.map .octets)
  rw [hdel, hchunks, herr] at hcases
  have hsmall : r.len ≤ 1073741824 := by omega
  have hat := BsonReaderData.at_new (streamOf bodies)
  rcases hcases with ⟨hdone, hnil, hbuf⟩ | ⟨hdone, hstarted, hclean, hstream⟩
  · have hfin : r.Finished ([] : Bytes).length := ⟨hdone, hfailed, hsmall, hbuf⟩
    rw [hnil] at hat htotal ⊢
    obtain ⟨last, hreads⟩ := reads_finished fresh k hfin hat htotal
    exact ⟨r, last, hr, hreads⟩
  · obtain ⟨last, hreads⟩ := reads_reading fresh k bodies r _ [] hsize
      ⟨hdone, hstarted, hsmall, hclean, hstream⟩ hat htotal
    exact ⟨r, last, hr, hreads⟩

/-- `{"a": null}` and `{}` in three pieces, cut inside a length word and inside a body. -/
theorem handle_reads_as_data_split :
    ∃ r last, bsonReaderNewFromHandle
        ([[8, 0], [0, 0, 10, 97, 0, 0, 5, 0], [0, 0, 0]].map ReadResult.octets) = some r ∧
      r.reads (fun _ _ => 0) 3 =
        some (((bsonReaderNewFromData (streamOf [[10, 97, 0], []])).reads 3).1, last) :=
  handle_reads_as_data (fun _ _ => 0) [[10, 97, 0], []]
    [[8, 0], [0, 0, 10, 97, 0, 0, 5, 0], [0, 0, 0]] 3
    (by decide) (by decide) (by decide) (by decide)

end LibBson.Guarantees
