import LibBson.Source.WriterRuns
import LibBson.Source.BuildRuns
import LibBson.Source.ReaderRuns

/-!
# A writer leaves exactly the documents that were ended

For every run of begins, appends, ends and rollbacks, from any offset, through
every growth of the buffer and every call that is refused.
Source: bson-writer.c:67-271, bson.c:115-222, 310-565, bson-reader.c:563-605.
-/

set_option autoImplicit false

namespace LibBson.Guarantees
open LibBson.Library LibBson.Source LibBson.Spec

/-- From the first offset to `bson_writer_get_length` the buffer of `w` holds the
documents, what was in front of it is untouched, and a reader returns them. -/
structure WritesExactly (w0 w : BsonWriter) (docs : List Bytes) : Prop where
  offset : w.offset = w0.offset + docs.flatten.length
  length : w.ready = true → w.getLength = w0.offset + docs.flatten.length
  octets : w.buf.slice w0.offset docs.flatten.length = docs.flatten
  front : ∀ i, i < w0.offset → i < w0.buflen → w.buf i = w0.buf i
  reader : ((bsonReaderNewFromData docs.flatten).reads (docs.length + 1)).1.map
    (fun s => (s.bson, s.reachedEof)) = docs.map (fun d => (some d, false)) ++ [(none, true)]

theorem reads_documents {docs : List Bytes} (hframed : ∀ d ∈ docs, ∃ body, d = frame body)
    {r : BsonReaderData} {pre : Bytes} (h : r.At pre docs.flatten)
    (hsize : r.length < 2147483648) :
    (r.reads (docs.length + 1)).1.map (fun s => (s.bson, s.reachedEof)) =
      docs.map (fun d => (some d, false)) ++ [(none, true)] := by
  induction docs generalizing r pre with
  | nil =>
    rw [List.flatten_nil] at h
    simp [BsonReaderData.reads, BsonReaderData.read_end h hsize]
  | cons d docs ih =>
    obtain ⟨body, rfl⟩ := hframed d (List.mem_cons_self ..)
    rw [List.flatten_cons] at h
    obtain ⟨b, r', hread, hoctets, hlength, hat⟩ := BsonReaderData.read_document h hsize
    have hrest := ih (fun d hd => hframed d (List.mem_cons_of_mem _ hd)) hat
      (by rw [hlength]; exact hsize)
    rw [List.length_cons, BsonReaderData.reads, hread]
    simp only [List.map_cons, Option.map_some, hoctets, List.cons_append, hrest]

theorem Refines_writesExactly {w0 w : BsonWriter} {a : Written} (h : Refines w0 w a)
    (hoffset : w0.offset < 18446744073709551616) : WritesExactly w0 w a.ended where
  offset := h.offset
  length := by
    intro hready
    obtain ⟨-, hb⟩ := h.idle hready
    have hstart := h.offset
    have haddr := h.addressable
    have hlt : w.offset < 18446744073709551616 := by
      rcases h.inside with hnil | hinside
      · rw [hnil, List.flatten_nil, List.length_nil] at hstart
        omega
      · omega
    rw [BsonWriter.getLength, BsonWriter.bLen, hb, Nat.add_zero, ← hstart]
    exact Nat.mod_eq_of_lt hlt
  octets := h.ended
  front := h.front
  reader := reads_documents h.framed (BsonReaderData.at_new _) h.total

/-! ## The documents are those the calls describe -/

theorem childHeader_eq {t : BsonType} {key : Bytes} {keyLength : Int} {k : CStr}
    (hkey : k.bytes = textOf key keyLength) (hk : k.bytes.length < 2147483648) :
    childHeader t key keyLength = header t k := by
  have h := begin_bytes_eq t key keyLength
  rw [begin_bytes hkey hk] at h
  exact (List.append_cancel_right h).symm

/-- The calls of a child, between its begin and its end, add one element. -/
theorem child_add {s : Step} {t : BsonType} {key : Bytes} {keyLength : Int} {k : CStr}
    {inner : List Step} {d : Doc} (p : Partial)
    (hs : p.add s = { body := [], around := (p.body ++ childHeader t key keyLength) :: p.around })
    (hkey : k.bytes = textOf key keyLength) (hk : k.bytes.length < 2147483648)
    (hinner : ∀ p : Partial, inner.foldl Partial.add p = { p with body := p.body ++ d.body })
    (rest : List Step) :
    (s :: (inner ++ .end :: rest)).foldl Partial.add p =
      rest.foldl Partial.add { p with body := p.body ++ (header t k ++ d.encode) } := by
  rw [List.foldl_cons, List.foldl_append, hs, hinner, List.foldl_cons, childHeader_eq hkey hk]
  simp only [Partial.add, List.nil_append, List.append_assoc]
  rfl

/-- Well-bracketed calls add the fields they describe. -/
theorem builds_add {steps : List Step} {d : Doc} (hb : Builds steps d) :
    ∀ p : Partial, d.body.length < 2147483648 →
      steps.foldl Partial.add p = { p with body := p.body ++ d.body } := by
  induction hb with
  | nil =>
    intro p _
    simp [Doc.body]
  | append call d steps e hcall rest ih =>
    intro p hsize
    rw [Doc.body_append, List.length_append] at hsize
    rw [List.foldl_cons, Doc.body_append]
    rcases callMeans_cases hcall (by omega) with ⟨hreq, rfl, -⟩ | ⟨args, -, hargs, hbytes, -⟩
    · have hnone : stepArgs (.append call) = none := by simp [stepArgs, hreq]
      have hadd : p.add (.append call) = p := by simp only [Partial.add, hnone]
      rw [hadd, ih p (by omega)]
      simp [Doc.body]
    · have hadd : p.add (.append call) = { p with body := p.body ++ args.bytes } := by
        simp only [Partial.add, hargs]
      rw [hadd, ih _ (by omega), hbytes, List.append_assoc]
  | document key keyLength k inner d steps e hkey child rest ihchild ihrest =>
    intro p hsize
    rw [Doc.body_cons, List.length_append, List.length_append, header_length] at hsize
    have hd : (Value.document d).encode.length = d.body.length + 5 := Doc.encode_length d
    rw [child_add p rfl hkey (by omega) (fun p => ihchild p (by omega)),
      ihrest _ (by omega), Doc.body_cons, List.append_assoc, List.append_assoc]
    rfl
  | array key keyLength k inner d steps e hkey child rest ihchild ihrest =>
    intro p hsize
    rw [Doc.body_cons, List.length_append, List.length_append, header_length] at hsize
    have hd : (Value.array d).encode.length = d.body.length + 5 := Doc.encode_length d
    rw [child_add p rfl hkey (by omega) (fun p => ihchild p (by omega)),
      ihrest _ (by omega), Doc.body_cons, List.append_assoc, List.append_assoc]
    rfl

/-- A document that is begun, built by calls that all return true and ended is
written as the encoding of what the calls describe. -/
theorem session_adds {steps : List Step} {d : Doc} (hb : Builds steps d)
    (hsize : d.body.length < 2147483648) (a : Written) (granted : Bool) :
    a.after (.begin granted :: (steps.map fun s => .append s granted) ++ [.end])
        (List.replicate (steps.length + 2) true) =
      { ended := a.ended ++ [d.encode], current := none } := by
  have happends : ∀ (steps : List Step) (a : Written) (p : Partial), a.current = some p →
      a.after ((steps.map fun s => .append s granted) ++ [.end])
          (List.replicate (steps.length + 1) true) =
        { ended := a.ended ++ [frame (steps.foldl Partial.add p).body], current := none } := by
    intro steps
    induction steps with
    | nil =>
      intro a p hp
      simp [Written.after, Written.add, hp]
    | cons s steps ih =>
      intro a p hp
      rw [List.map_cons, List.cons_append, List.length_cons, List.replicate_succ, Written.after]
      exact ih (a.add (.append s granted) true) (p.add s) (by rw [Written.add, hp]; rfl)
  rw [List.cons_append, List.replicate_succ, Written.after,
    happends steps _ { body := [], around := [] } rfl, builds_add hb _ hsize, List.nil_append]
  rfl

/-- A run whose calls meet no defect comes back from each of them, leaves exactly
the documents that were ended, and a call that returns false after it changes
nothing. -/
theorem writer_exact (fresh : Nat → Mem) (buf : Mem) (buflen offset : Nat) (realloc : Bool)
    (ops : List WriterOp) (hbuflen : buflen < 4611686018427387904)
    (hoffset : offset < 18446744073709551616)
    (hsafe : (bsonWriterNew buf buflen offset realloc).RunsSafe fresh offset ops) :
    ∃ rets w, (bsonWriterNew buf buflen offset realloc).run fresh ops = some (rets, w) ∧
      WritesExactly (bsonWriterNew buf buflen offset realloc) w
        (Written.nothing.after ops rets).ended ∧
      ∀ op w', w.step fresh op = some (false, w') → w' = w := by
  have hnew := refines_new buf buflen offset realloc hbuflen
  obtain ⟨rets, w, hrun, hrefines⟩ := hnew.run hsafe
  exact ⟨rets, w, hrun, Refines_writesExactly hrefines hoffset, fun op w' h => hrefines.failed h⟩

/-- `{"a": null}`, a document that is rolled back and `{}`, behind 3 octets of a
buffer that is still to be allocated. -/
theorem writer_exact_rollback :
    ∃ rets w, (bsonWriterNew (fun _ => 7) 0 3 true).run (fun _ _ => 9)
        [.begin true, .append (.append (.field [97] 1 .null)) true, .end, .begin true, .rollback,
          .begin true, .end] = some (rets, w) ∧
      WritesExactly (bsonWriterNew (fun _ => 7) 0 3 true) w (Written.nothing.after
        [.begin true, .append (.append (.field [97] 1 .null)) true, .end, .begin true, .rollback,
          .begin true, .end] rets).ended ∧
      ∀ op w', w.step (fun _ _ => 9) op = some (false, w') → w' = w :=
  writer_exact (fun _ _ => 9) (fun _ => 7) 0 3 true _ (by decide) (by decide) (by decide +kernel)

/-- A regex that fills 8 octets stores the NUL of its document behind them; the
next begin moves 8 octets. And a begin whose `realloc_func` fails does not return. -/
theorem writer_not_exact :
    (∃ rets w, (bsonWriterNew (fun _ => 0) 8 0 true).run (fun _ _ => 255)
        [.begin true, .append (.append (.field [] 0 (.regex (some []) (some [])))) true, .end,
          .begin true, .end] = some (rets, w) ∧ rets = [true, true, true, true, true] ∧
      (Written.nothing.after [.begin true,
        .append (.append (.field [] 0 (.regex (some []) (some [])))) true, .end, .begin true, .end]
        rets).ended = [[9, 0, 0, 0, 11, 0, 0, 0, 0], [5, 0, 0, 0, 0]] ∧
      w.getLength = 14 ∧
      w.buf.slice 0 14 = [9, 0, 0, 0, 11, 0, 0, 0, 255, 5, 0, 0, 0, 0]) ∧
    (bsonWriterNew (fun _ => 0) 0 0 true).run (fun _ _ => 255) [.begin false] = none := by
  refine ⟨⟨_, _, rfl, rfl, ?_, ?_, ?_⟩, rfl⟩
  · decide +kernel
  · decide +kernel
  · decide +kernel

end LibBson.Guarantees
