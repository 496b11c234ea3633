import LibBson.Source.ReaderRuns

/-!
# `reached_eof` and the end of the stream

For every stream, read errors included, and every call that returns NULL.
Source: bson-reader.c:89-135, 455-503, 563-601.
-/

set_option autoImplicit false

namespace LibBson.Guarantees
open LibBson.Library LibBson.Source LibBson.Spec

/-- One of the next `k` calls refills the buffer, with octets of a document in it,
from a stream that is at its end. -/
def StarvesWithin (fresh : Nat → Mem) : Nat → BsonReaderHandle → Prop
  | 0, _ => False
  | k + 1, r => r.Starves fresh ∨
      ∃ b eof r', r.read fresh = .done b eof r' ∧ StarvesWithin fresh k r'

/-- The reader of the stream `handle` has returned the octets `docs`; `bad` says
whether it has misjudged the end of the stream. -/
inductive Tracks (handle : List ReadResult) (docs : Bytes) (bad : Prop) (r : BsonReaderHandle) :
    Prop
  | running (bs : Bytes) (done : r.done = false) (started : 0 < r.end)
      (buffers : r.Buffers docs.length bs)
      (stream : docs ++ (bs ++ delivered r.handle) = delivered handle)
      (ends : endsInError r.handle = endsInError handle) (good : ¬ bad)
  | stopped (bs : Bytes) (done : r.done = true) (stream : docs ++ bs = delivered handle)
      (judged : bad ↔ r.failed = false ∧ (bs ≠ [] ∨ endsInError handle = true))
      (failed : r.failed = true → endsInError handle = true)

theorem docs_all_iff {docs bs all : Bytes} (h : docs ++ bs = all) : docs = all ↔ bs = [] := by
  rw [← h]
  exact List.self_eq_append_right

section Run

variable {fresh : Nat → Mem} {handle : List ReadResult} {docs : Bytes} {bad : Prop}
  {r r' : BsonReaderHandle} {b : Option BsonRef} {eof : Bool}

theorem Tracks.read_stopped (hdone : r.done = true) (hr : r.read fresh = .done b eof r') :
    b = none ∧ eof = (!r.failed) ∧ r' = r ∧ ¬ r.Starves fresh := by
  have hturn := BsonReaderHandle.turn_done fresh hdone
  rw [BsonReaderHandle.read, BsonReaderHandle.turns_done _ hturn] at hr
  injection hr with hb heof hr'
  exact ⟨hb.symm, heof.symm, hr'.symm, BsonReaderHandle.not_starves_of_stop hturn
    fun hw => Bool.false_ne_true (hw.1.symm.trans hdone)⟩

theorem Tracks.step (h : Tracks handle docs bad r) (hr : r.read fresh = .done b eof r') :
    Tracks handle (docs ++ (b.map BsonRef.octets).getD []) (bad ∨ r.Starves fresh) r' := by
  cases h with
  | stopped bs done stream judged failed =>
    obtain ⟨rfl, rfl, rfl, hfed⟩ := Tracks.read_stopped done hr
    refine .stopped bs done (by simpa using stream) ?_ failed
    rw [← judged]
    exact ⟨fun h => h.resolve_right hfed, Or.inl⟩
  | running bs done started buffers stream ends good =>
    cases BsonReaderHandle.turns_answer fresh _ r r' docs.length bs b eof buffers done started hr with
    | document d r' bs' running' started' buffers' stream' ends' fed failed' =>
      refine .running bs' running' started' ?_ ?_ (ends'.trans ends) (not_or_intro good fed)
      · simpa [BsonRef.octets] using buffers'
      · rw [← stream, stream']
        simp
    | refused r' bs' running' started' buffers' more stream' ends' fed failed' =>
      refine .running bs' running' started' (by simpa using buffers') ?_ (ends'.trans ends)
        (not_or_intro good fed)
      rw [← stream, stream']
      simp
    | ended r' done' failed' buffers' starves =>
      refine .stopped (bs ++ delivered r.handle) done' (by simpa using stream) ?_ ?_
      · rw [starves, failed', ends]
        cases endsInError handle <;> simp [good]
      · rw [failed', ends]
        exact id

/-- A call that returns NULL judges the end of the stream rightly unless it, or one
before it, has starved or the first read has failed. -/
theorem Tracks.null (h : Tracks handle docs bad r) (hr : r.read fresh = .done none eof r') :
    (eof = true ↔ docs = delivered handle ∧ endsInError handle = false) ↔
      ¬ (bad ∨ r.Starves fresh) := by
  cases h with
  | stopped bs done stream judged failed =>
    obtain ⟨-, rfl, rfl, hfed⟩ := Tracks.read_stopped done hr
    rw [docs_all_iff stream, judged]
    cases hf : r'.failed with
    | true =>
      have herr := failed hf
      simp [hfed, herr]
    | false =>
      simp only [hfed, or_false, Bool.not_false, true_iff, true_and]
      rw [not_or, not_not, Bool.not_eq_true]
  | running bs done started buffers stream ends good =>
    cases BsonReaderHandle.turns_answer fresh _ r r' docs.length bs none eof buffers done started hr
      with
    | refused r' bs' running' started' buffers' more stream' ends' fed failed' =>
      rw [stream'] at stream
      rw [docs_all_iff stream]
      simp [more, good, fed]
    | ended r' done' failed' buffers' starves =>
      rw [docs_all_iff stream, starves, failed', ends]
      cases endsInError handle <;> simp [good]

theorem Tracks.reads (k : Nat) {seen : List Seen} {last : BsonReaderHandle}
    (h : Tracks handle docs bad r) (hreads : r.reads fresh k = some (seen, last))
    (hnull : last.read fresh = .done none eof r') :
    (eof = true ↔ docs ++ (returned seen).flatten = delivered handle ∧
        endsInError handle = false) ↔ ¬ (bad ∨ StarvesWithin fresh (k + 1) r) := by
  induction k generalizing docs bad r seen with
  | zero =>
    injection hreads with hreads
    injection hreads with hseen hlast
    subst hseen hlast
    have hone : StarvesWithin fresh 1 r ↔ r.Starves fresh := by
      simp [StarvesWithin]
    rw [hone, returned_nil, List.flatten_nil, List.append_nil]
    exact h.null hnull
  | succ k ih =>
    rw [BsonReaderHandle.reads] at hreads
    split at hreads
    · next b eof₁ r₁ hr =>
      rw [Option.map_eq_some_iff] at hreads
      obtain ⟨⟨seen₁, last₁⟩, hrest, heq⟩ := hreads
      injection heq with hseen hlast
      subst hseen hlast
      have hsame : StarvesWithin fresh (k + 2) r ↔
          r.Starves fresh ∨ StarvesWithin fresh (k + 1) r₁ := by
        rw [StarvesWithin]
        constructor
        · rintro (hs | ⟨b', eof', r'', hr', hs⟩)
          · exact Or.inl hs
          · rw [hr] at hr'
            injection hr' with _ _ hr''
            exact Or.inr (hr'' ▸ hs)
        · rintro (hs | hs)
          · exact Or.inl hs
          · exact Or.inr ⟨b, eof₁, r₁, hr, hs⟩
      have hstep := ih (h.step hr) hrest
      rw [List.append_assoc, or_assoc, ← hsame] at hstep
      rw [returned_cons]
      exact hstep
    · cases hreads

end Run

theorem tracks_new {handle : List ReadResult} {r : BsonReaderHandle}
    (h : bsonReaderNewFromHandle handle = some r) :
    Tracks handle [] (handle.head? = some .error) r := by
  obtain ⟨r', hr', -, hfailed, hcases⟩ := BsonReaderHandle.new_cases handle
  rw [h] at hr'
  injection hr' with hr'
  subst hr'
  rcases hcases with ⟨hdone, hnil, -⟩ | ⟨hdone, hstarted, hends, bs, hbuf, hstream⟩
  · refine .stopped [] hdone hnil.symm ?_ (fun hf => absurd hf (by simp [hfailed]))
    have herr : handle.head? = some .error ↔ endsInError handle = true := by
      cases handle with
      | nil => simp [endsInError]
      | cons a rest =>
        cases a with
        | error => simp [endsInError]
        | octets bs =>
          cases bs with
          | nil => simp [endsInError]
          | cons b bs => cases hnil
    rw [herr, hfailed]
    simp
  · refine .running bs hdone hstarted hbuf hstream hends ?_
    intro hhead
    cases handle with
    | nil => cases hhead
    | cons a rest =>
      cases hhead
      injection h with h
      subst h
      cases hdone

/-- `reached_eof` of a reader on memory. -/
theorem data_reached_eof (data : Bytes) (hsize : data.length < 9223372036854775808) (k : Nat)
    (r' : BsonReaderData) (eof : Bool)
    (hnull : ((bsonReaderNewFromData data).reads k).2.read = (none, eof, r')) :
    eof = true ↔ (returned ((bsonReaderNewFromData data).reads k).1).flatten = data := by
  have hrun : ∀ (k : Nat) (r : BsonReaderData) (pre rest : Bytes), r.At pre rest →
      r.length < 9223372036854775808 → (r.reads k).2.read = (none, eof, r') →
      (eof = true ↔ (returned (r.reads k).1).flatten = rest) := by
    intro k
    induction k with
    | zero =>
      intro r pre rest hat hlen hr
      rcases BsonReaderData.read_cases hat hlen hr with ⟨-, heof, -⟩ | ⟨d, rest', hsome, -⟩
      · rw [heof]
        exact eq_comm
      · cases hsome
    | succ k ih =>
      intro r pre rest hat hlen hr
      rcases hread : r.read with ⟨b, eof₁, r₁⟩
      rw [BsonReaderData.reads, hread] at hr ⊢
      rw [returned_cons]
      rcases BsonReaderData.read_cases hat hlen hread with
        ⟨rfl, -, rfl⟩ | ⟨d, rest', rfl, hlen', rfl, hat'⟩
      · simpa using ih r₁ pre rest hat hlen hr
      · rw [Option.map_some, Option.getD_some, List.append_cancel_left_eq]
        exact ih r₁ _ rest' hat' (by rw [hlen']; exact hlen) hr
  exact hrun k _ [] data (BsonReaderData.at_new data) hsize hnull

/-- A call that returns NULL sets `reached_eof` exactly when the stream has ended
without an error and the documents returned are all of it: always on memory, and
on a handle exactly when its first read has not failed and no call so far has
found the end of the stream with octets of a document in the buffer. -/
theorem reached_eof_iff (fresh : Nat → Mem) (handle : List ReadResult) (k : Nat)
    (r₀ r r' : BsonReaderHandle) (seen : List Seen) (eof : Bool)
    (hnew : bsonReaderNewFromHandle handle = some r₀)
    (hreads : r₀.reads fresh k = some (seen, r)) (hnull : r.read fresh = .done none eof r') :
    ((eof = true ↔ EndsAfter handle (returned seen)) ↔
        ¬ (handle.head? = some .error ∨ StarvesWithin fresh (k + 1) r₀)) ∧
      ∀ (data : Bytes) (j : Nat) (d' : BsonReaderData) (eof' : Bool),
        data.length < 9223372036854775808 →
        ((bsonReaderNewFromData data).reads j).2.read = (none, eof', d') →
        (eof' = true ↔ (returned ((bsonReaderNewFromData data).reads j).1).flatten = data) :=
  ⟨(tracks_new hnew).reads k hreads hnull,
    fun data j d' eof' hsize hread => data_reached_eof data hsize j d' eof' hread⟩

/-- `{}` and one octet more, in one piece. -/
def trailingOctet : List ReadResult := [.octets [5, 0, 0, 0, 0, 255]]

/-- The second call returns NULL with `reached_eof`, although an octet is left. -/
theorem trailingOctet_eof :
    ((bsonReaderNewFromHandle trailingOctet).bind fun r => r.reads (fun _ _ => 0) 2).map Prod.fst =
        some [⟨some [5, 0, 0, 0, 0], false, 5⟩, ⟨none, true, 5⟩] ∧
      ¬ EndsAfter trailingOctet [[5, 0, 0, 0, 0]] := by
  refine ⟨by decide, ?_⟩
  rintro ⟨hall, -⟩
  exact absurd hall (by decide)

/-- `{}`, `{"a": null}` in two pieces, and what is left of a third document. -/
def cutTail : List ReadResult :=
  [.octets [5, 0, 0, 0, 0, 8, 0, 0], .octets [0, 10, 97, 0, 0, 9, 0, 0, 0, 8]]

/-- The third call finds the end of the stream inside a document. -/
theorem reached_eof_iff_cutTail :
    ∃ r₀ r r' seen eof, bsonReaderNewFromHandle cutTail = some r₀ ∧
      r₀.reads (fun _ _ => 0) 2 = some (seen, r) ∧ r.read (fun _ _ => 0) = .done none eof r' ∧
      returned seen = [[5, 0, 0, 0, 0], [8, 0, 0, 0, 10, 97, 0, 0]] ∧
      ((eof = true ↔ EndsAfter cutTail (returned seen)) ↔
        ¬ (cutTail.head? = some .error ∨ StarvesWithin (fun _ _ => 0) 3 r₀)) := by
  refine ⟨_, _, _, _, _, rfl, rfl, rfl, rfl, ?_⟩
  exact (reached_eof_iff (fun _ _ => 0) cutTail 2 _ _ _ _ _ rfl rfl rfl).1

end LibBson.Guarantees
