import LibBson.Source.AppendExact
import LibBson.Source.Bcon
import LibBson.Source.BuildRuns

/-!
# Runs of calls whose results nobody looks at

`bconCalls` goes on behind an append that returned false. By induction on `Builds`: when every
call is accepted the run adds the elements that the calls describe, otherwise fewer octets
(`bconCalls_holding`); and the calls are all accepted exactly if all return true
(`allAccepted_iff`).
-/

set_option autoImplicit false

namespace LibBson.Source
open LibBson.Library LibBson.Spec

/-- The call is accepted in this state: `_bson_append` takes what the call declares, and
a child is not begun on an inline document that fills more than its 120 octets. -/
def Chain.Accepts (c : Chain) : Step → Prop
  | .append call => stepSize (.append call) = 0 ∨ ¬ c.Refuses (declaredSize (.append call))
  | .documentBegin key keyLength =>
    ¬ (c.isInline = true ∧ c.bson.len > 120) ∧
      ¬ c.Refuses (declaredSize (.documentBegin key keyLength))
  | .arrayBegin key keyLength =>
    ¬ (c.isInline = true ∧ c.bson.len > 120) ∧
      ¬ c.Refuses (declaredSize (.arrayBegin key keyLength))
  | .end => True

section Runs

variable (fresh : Nat → Mem)

def bconCalls : List Step → Chain → Option Chain
  | [], c => some c
  | s :: rest, c => (bconCall fresh c s).bind (bconCalls rest)

/-- Each call of the run is accepted in the state before it. -/
def AllAccepted : List Step → Chain → Prop
  | [], _ => True
  | s :: rest, c => c.Accepts s ∧ ∀ c', bsonStep fresh c s = .ok c' → AllAccepted rest c'

theorem bconCalls_append (s t : List Step) (c : Chain) :
    bconCalls fresh (s ++ t) c = (bconCalls fresh s c).bind (bconCalls fresh t) := by
  induction s generalizing c with
  | nil => rfl
  | cons a s ih =>
    rw [List.cons_append, bconCalls, bconCalls]
    cases bconCall fresh c a with
    | none => rfl
    | some c1 => exact ih c1

theorem allAccepted_append (s t : List Step) (c : Chain) :
    AllAccepted fresh (s ++ t) c ↔
      AllAccepted fresh s c ∧ ∀ c', bsonSteps fresh c s = .ok c' → AllAccepted fresh t c' := by
  induction s generalizing c with
  | nil => simp [AllAccepted, bsonSteps]
  | cons a s ih =>
    simp only [List.cons_append, AllAccepted, ih, bsonSteps_cons_ok]
    constructor
    · rintro ⟨ha, hrest⟩
      refine ⟨⟨ha, fun c1 h1 => (hrest c1 h1).1⟩, ?_⟩
      rintro c' ⟨c1, h1, h2⟩
      exact (hrest c1 h1).2 c' h2
    · rintro ⟨⟨ha, hs⟩, ht⟩
      exact ⟨ha, fun c1 h1 => ⟨hs c1 h1, fun c' h2 => ht c' ⟨c1, h1, h2⟩⟩⟩

end Runs

variable {fresh : Nat → Mem} {c : Chain} {body : Bytes}

/-- A run whose calls all return true is not different for not being looked at. -/
theorem bconCalls_of_ok {steps : List Step} {c c' : Chain}
    (h : bsonSteps fresh c steps = .ok c') : bconCalls fresh steps c = some c' := by
  induction steps generalizing c with
  | nil => exact congrArg some (Outcome.ok.inj h)
  | cons s rest ih =>
    obtain ⟨c1, h1, h2⟩ := bsonSteps_cons_ok.mp h
    have hcall : bconCall fresh c s = some c1 := by simp only [bconCall, h1]
    rw [bconCalls, hcall]
    exact ih h2

/-- A begin or an end that goes on has returned true. -/
theorem bconCall_ok {s : Step} {c' : Chain} (hs : ∀ call, s ≠ .append call)
    (h : bconCall fresh c s = some c') : bsonStep fresh c s = .ok c' := by
  unfold bconCall at h
  split at h
  · next hok =>
    rw [hok]
    exact congrArg Outcome.ok (Option.some.inj h)
  · exact absurd rfl (hs _)
  · cases h

/-- An append returns true where it is accepted, and otherwise leaves the document alone. -/
theorem append_accepts (fresh : Nat → Mem) {call : AppendCall} {d : Doc} (hm : CallMeans call d)
    (hold : Holding c body) (hsize : body.length + d.body.length + 5 ≤ bsonMaxSize) :
    (c.Accepts (.append call) → ∃ c', bsonAppendCall fresh c call = .ok c') ∧
      (¬ c.Accepts (.append call) →
        bsonAppendCall fresh c call = .failed c ∧ 0 < d.body.length) := by
  unfold bsonMaxSize at hsize
  have hlen := hold.len
  have hmax : c.bson.len ≤ bsonMaxSize := by
    unfold bsonMaxSize
    omega
  rcases callMeans_cases hm (by omega) with ⟨hreq, rfl, hz⟩ | ⟨args, hreq, hstep, hb, hnz⟩
  · refine ⟨fun _ => ⟨c, by simp only [bsonAppendCall, hreq]⟩, fun hn => ?_⟩
    exact absurd (Or.inl hz) hn
  · obtain ⟨h1, h2, h3, h4, -⟩ := call_sizes hstep hb (by omega)
    simp only [bsonAppendCall, hreq]
    have haccepts : c.Accepts (.append call) ↔ ¬ c.Refuses args.nBytes := by
      rw [Chain.Accepts, h3]
      exact or_iff_right hnz
    rw [haccepts]
    constructor
    · intro hr
      obtain ⟨c', hok, -⟩ := bsonAppendInternal_accepted fresh hold.fits hmax (by omega) hr
      exact ⟨c', hok⟩
    · intro hr
      refine ⟨bsonAppendInternal_refused fresh hold.fits hmax (by omega) (not_not.mp hr), ?_⟩
      rw [← h2]
      exact Nat.pos_of_ne_zero hnz

/-- A child is begun exactly where that is accepted. -/
theorem begin_accepts (fresh : Nat → Mem) (t : BsonType) {key : Bytes} {keyLength : Int} {k : CStr}
    (hkey : k.bytes = textOf key keyLength) (hold : Holding c body)
    (hsize : body.length + (k.bytes.length + 7) + 5 ≤ bsonMaxSize) :
    (∃ c', bsonAppendBegin fresh t key keyLength c = .ok c') ↔
      ¬ (c.isInline = true ∧ c.bson.len > 120) ∧ ¬ c.Refuses (2 + keySize key keyLength + 5) := by
  unfold bsonMaxSize at hsize
  have hlen := hold.len
  have hn := begin_nBytes t key keyLength
  have hargs := begin_size_eq (t := t) hkey (by omega)
  rw [hargs, u32_of_lt (by omega), ← hargs, begin_size] at hn
  by_cases hfull : c.isInline = true ∧ c.bson.len > 120
  · refine iff_of_false ?_ fun h => h.1 hfull
    rintro ⟨c', h⟩
    rw [bsonAppendBegin_eq, if_pos hfull.1, if_pos hfull.2] at h
    cases h
  · have hmax : c.bson.len ≤ bsonMaxSize := by
      unfold bsonMaxSize
      omega
    have hanswers := @bsonAppendBegin_answers fresh c t key keyLength hold.fits hmax
      fun hin => Nat.le_of_not_lt fun hgt => hfull ⟨hin, hgt⟩
    rw [hn] at hanswers
    refine ⟨?_, fun h => hanswers.2 h.2⟩
    rintro ⟨c', h⟩
    refine ⟨hfull, fun hr => ?_⟩
    obtain ⟨c1, h1⟩ := hanswers.1 hr
    rw [h] at h1
    cases h1

/-- The calls of a run are accepted exactly if they all return true. -/
def AcceptedIfOk (fresh : Nat → Mem) (steps : List Step) (d : Doc) : Prop :=
  ∀ (c : Chain) (body : Bytes), Holding c body →
    body.length + d.body.length + 5 ≤ bsonMaxSize →
    (AllAccepted fresh steps c ↔ ∃ c', bsonSteps fresh c steps = .ok c')

theorem child_accepted {t : BsonType} {key : Bytes} {keyLength : Int} {k : CStr}
    {inner rest : List Step} {d e : Doc} (hkey : k.bytes = textOf key keyLength)
    (hc : Builds inner d) (ihc : AcceptedIfOk fresh inner d) (ihr : AcceptedIfOk fresh rest e)
    (hold : Holding c body)
    (hsize : body.length + (k.bytes.length + 2 + (d.body.length + 5 + e.body.length)) + 5 ≤
      bsonMaxSize) :
    ((¬ (c.isInline = true ∧ c.bson.len > 120) ∧ ¬ c.Refuses (2 + keySize key keyLength + 5)) ∧
        ∀ c1, bsonAppendBegin fresh t key keyLength c = .ok c1 →
          AllAccepted fresh (inner ++ .end :: rest) c1) ↔
      ∃ c1, bsonAppendBegin fresh t key keyLength c = .ok c1 ∧
        ∃ c', bsonSteps fresh c1 (inner ++ .end :: rest) = .ok c' := by
  rw [← begin_accepts fresh t hkey hold (by omega)]
  have hafter : ∀ c1, bsonAppendBegin fresh t key keyLength c = .ok c1 →
      (AllAccepted fresh (inner ++ .end :: rest) c1 ↔
        ∃ c', bsonSteps fresh c1 (inner ++ .end :: rest) = .ok c') := by
    intro c1 h1
    unfold bsonMaxSize at hsize
    obtain ⟨hopen, hof⟩ := bsonAppendBegin_ok h1 hold.toCarries hkey (by omega)
    rw [allAccepted_append, ihc c1 [] hopen (by unfold bsonMaxSize; simp; omega)]
    constructor
    · rintro ⟨⟨c2, h2⟩, hrest⟩
      obtain ⟨hinner, hs2⟩ := run_holding hc c1 c2 [] h2 hopen (by rw [List.length_nil]; omega)
      obtain ⟨c3, h3, -⟩ := bsonAppendBsonEnd_success (hs2.parents.trans hof.parents)
      obtain ⟨hold3, -⟩ := child_holding hkey h1 hold (fun _ => ⟨hinner, hs2⟩) h3
        (by rw [List.nil_append]; omega)
      obtain ⟨c4, h4⟩ := (ihr c3 _ hold3 (by
        simp only [List.nil_append, List.length_append, header_length, frame_length]
        unfold bsonMaxSize
        omega)).mp ((hrest c2 h2).2 c3 h3)
      exact ⟨c4, bsonSteps_append_ok.mpr ⟨c2, h2, bsonSteps_cons_ok.mpr ⟨c3, h3, h4⟩⟩⟩
    · rintro ⟨c4, h⟩
      obtain ⟨c2, h2, h⟩ := bsonSteps_append_ok.mp h
      refine ⟨⟨c2, h2⟩, fun c2' h2' => ⟨trivial, fun c3 h3 => ?_⟩⟩
      obtain rfl := Outcome.ok.inj (h2.symm.trans h2')
      obtain ⟨hinner, hs2⟩ := run_holding hc c1 c2 [] h2 hopen (by rw [List.length_nil]; omega)
      obtain ⟨hold3, -⟩ := child_holding hkey h1 hold (fun _ => ⟨hinner, hs2⟩) h3
        (by rw [List.nil_append]; omega)
      obtain ⟨c3', h3', h4⟩ := bsonSteps_cons_ok.mp h
      obtain rfl := Outcome.ok.inj (h3.symm.trans h3')
      exact (ihr c3 _ hold3 (by
        simp only [List.nil_append, List.length_append, header_length, frame_length]
        unfold bsonMaxSize
        omega)).mpr ⟨c4, h4⟩
  constructor
  · rintro ⟨⟨c1, h1⟩, hall⟩
    exact ⟨c1, h1, (hafter c1 h1).mp (hall c1 h1)⟩
  · rintro ⟨c1, h1, hok⟩
    refine ⟨⟨c1, h1⟩, fun c1' h1' => ?_⟩
    obtain rfl := Outcome.ok.inj (h1.symm.trans h1')
    exact (hafter c1 h1).mpr hok

theorem allAccepted_iff (fresh : Nat → Mem) {steps : List Step} {d : Doc} (hb : Builds steps d) :
    AcceptedIfOk fresh steps d := by
  induction hb with
  | nil =>
    intro c body _ _
    exact iff_of_true trivial ⟨c, rfl⟩
  | append call d steps e hm _ ih =>
    intro c body hold hsize
    rw [Doc.body_append, List.length_append] at hsize
    obtain ⟨hok, hrefused⟩ := append_accepts fresh hm hold (by omega)
    simp only [AllAccepted, bsonSteps_cons_ok]
    constructor
    · rintro ⟨ha, hrest⟩
      obtain ⟨c1, h1⟩ := hok ha
      obtain ⟨hold1, -⟩ := bsonAppendCall_ok hm h1 hold (by unfold bsonMaxSize at hsize; omega)
      obtain ⟨c2, h2⟩ := (ih c1 _ hold1 (by rw [List.length_append]; omega)).mp (hrest c1 h1)
      exact ⟨c2, c1, h1, h2⟩
    · rintro ⟨c2, c1, h1, h2⟩
      constructor
      · by_contra hn
        rw [bsonStep, (hrefused hn).1] at h1
        cases h1
      · intro c1' h1'
        obtain rfl := Outcome.ok.inj (h1.symm.trans h1')
        obtain ⟨hold1, -⟩ := bsonAppendCall_ok hm h1 hold (by unfold bsonMaxSize at hsize; omega)
        exact (ih c1 _ hold1 (by rw [List.length_append]; omega)).mpr ⟨c2, h2⟩
  | document key keyLength k inner d steps e hkey hc _ ihc ihr
  | array key keyLength k inner d steps e hkey hc _ ihc ihr =>
    intro c body hold hsize
    simp only [Doc.body_cons, Value.encode, List.length_append, header_length, frame_length]
      at hsize
    refine Iff.trans (child_accepted hkey hc ihc ihr hold (by omega)) ?_
    simp only [bsonSteps_cons_ok]
    constructor
    · rintro ⟨c1, h1, c', h2⟩
      exact ⟨c', c1, h1, h2⟩
    · rintro ⟨c', c1, h1, h2⟩
      exact ⟨c1, h1, c', h2⟩

/-- A run that is not stopped adds the elements its calls describe, if they all return true,
and otherwise fewer octets. -/
def Delivers (fresh : Nat → Mem) (steps : List Step) (d : Doc) : Prop :=
  ∀ (c c' : Chain) (body : Bytes), bconCalls fresh steps c = some c' → Holding c body →
    body.length + d.body.length + 5 ≤ bsonMaxSize →
    ∃ added, Holding c' (body ++ added) ∧ SameSpot c c' ∧
      (bsonSteps fresh c steps = .ok c' ∧ added = d.body ∨ added.length < d.body.length)

theorem Delivers.length_le {steps : List Step} {d : Doc} {c' : Chain} {added : Bytes}
    (h : bsonSteps fresh c steps = .ok c' ∧ added = d.body ∨ added.length < d.body.length) :
    added.length ≤ d.body.length := by
  rcases h with ⟨-, rfl⟩ | h
  · exact Nat.le_refl _
  · exact Nat.le_of_lt h

theorem child_delivers {t : BsonType} {key : Bytes} {keyLength : Int} {k : CStr}
    {inner rest : List Step} {d e : Doc} (hkey : k.bytes = textOf key keyLength)
    (ihc : Delivers fresh inner d) (ihr : Delivers fresh rest e) {c1 c' : Chain}
    (hbegin : bsonAppendBegin fresh t key keyLength c = .ok c1)
    (h : bconCalls fresh (inner ++ .end :: rest) c1 = some c') (hold : Holding c body)
    (hsize : body.length + (k.bytes.length + 2 + (d.body.length + 5 + e.body.length)) + 5 ≤
      bsonMaxSize) :
    ∃ added, Holding c' (body ++ added) ∧ SameSpot c c' ∧
      (bsonSteps fresh c1 (inner ++ .end :: rest) = .ok c' ∧
          added = header t k ++ (frame d.body ++ e.body) ∨
        added.length < k.bytes.length + 2 + (d.body.length + 5 + e.body.length)) := by
  unfold bsonMaxSize at hsize
  rw [bconCalls_append] at h
  obtain ⟨c2, h2, h⟩ := Option.bind_eq_some_iff.mp h
  rw [bconCalls] at h
  obtain ⟨c3, h3, h⟩ := Option.bind_eq_some_iff.mp h
  have hend : bsonAppendBsonEnd c2 = .ok c3 := bconCall_ok (fun call h => by cases h) h3
  obtain ⟨hopen, -⟩ := bsonAppendBegin_ok hbegin hold.toCarries hkey (by omega)
  obtain ⟨added, hin, hs2, hcase⟩ := ihc c1 c2 [] h2 hopen (by unfold bsonMaxSize; simp; omega)
  have hle := Delivers.length_le hcase
  obtain ⟨hold3, hs3⟩ := child_holding hkey hbegin hold (fun _ => ⟨hin, hs2⟩) hend
    (by rw [List.nil_append]; omega)
  rw [List.nil_append] at hold3
  obtain ⟨more, hold4, hs4, hcase'⟩ := ihr c3 c' _ h hold3 (by
    simp only [List.length_append, header_length, frame_length]
    unfold bsonMaxSize
    omega)
  have hle' := Delivers.length_le hcase'
  refine ⟨header t k ++ (frame added ++ more), by simpa using hold4, hs3.trans hs4, ?_⟩
  have hlength : (header t k ++ (frame added ++ more)).length =
      k.bytes.length + 2 + (added.length + 5 + more.length) := by
    simp only [List.length_append, header_length, frame_length]
  rw [hlength]
  rcases hcase with ⟨hok, rfl⟩ | hlt
  · rcases hcase' with ⟨hok', rfl⟩ | hlt'
    · exact Or.inl ⟨bsonSteps_append_ok.mpr ⟨c2, hok, bsonSteps_cons_ok.mpr ⟨c3, hend, hok'⟩⟩, rfl⟩
    · exact Or.inr (by omega)
  · exact Or.inr (by omega)

theorem bconCalls_delivers {steps : List Step} {d : Doc} (hb : Builds steps d) :
    Delivers fresh steps d := by
  induction hb with
  | nil =>
    intro c c' body h hold _
    obtain rfl := Option.some.inj h
    exact ⟨[], by simpa using hold, SameSpot.refl c, Or.inl ⟨rfl, rfl⟩⟩
  | append call d steps e hm _ ih =>
    intro c c' body h hold hsize
    rw [Doc.body_append, List.length_append] at hsize
    obtain ⟨c1, h1, h⟩ := Option.bind_eq_some_iff.mp h
    obtain ⟨hok, hrefused⟩ := append_accepts fresh hm hold (by omega)
    by_cases ha : c.Accepts (.append call)
    · obtain ⟨c2, h2⟩ := hok ha
      have hstep : bsonStep fresh c (.append call) = .ok c2 := h2
      simp only [bconCall, hstep, Option.some.injEq] at h1
      subst h1
      obtain ⟨hold1, hs1⟩ := bsonAppendCall_ok hm h2 hold (by unfold bsonMaxSize at hsize; omega)
      obtain ⟨added, hold2, hs2, hcase⟩ := ih c2 c' _ h hold1 (by rw [List.length_append]; omega)
      rw [List.append_assoc] at hold2
      refine ⟨d.body ++ added, hold2, hs1.trans hs2, ?_⟩
      rw [Doc.body_append, List.length_append, List.length_append]
      rcases hcase with ⟨hrun, rfl⟩ | hlt
      · exact Or.inl ⟨bsonSteps_cons_ok.mpr ⟨c2, hstep, hrun⟩, rfl⟩
      · exact Or.inr (by omega)
    · obtain ⟨hfailed, hpos⟩ := hrefused ha
      have hstep : bsonStep fresh c (.append call) = .failed c := hfailed
      simp only [bconCall, hstep, Option.some.injEq] at h1
      subst h1
      obtain ⟨added, hold2, hs2, hcase⟩ := ih c c' body h hold (by omega)
      have hle := Delivers.length_le hcase
      refine ⟨added, hold2, hs2, Or.inr ?_⟩
      rw [Doc.body_append, List.length_append]
      omega
  | document key keyLength k inner d steps e hkey _ _ ihc ihr
  | array key keyLength k inner d steps e hkey _ _ ihc ihr =>
    intro c c' body h hold hsize
    simp only [Doc.body_cons, Value.encode, List.length_append, header_length, frame_length]
      at hsize ⊢
    obtain ⟨c1, h1, h⟩ := Option.bind_eq_some_iff.mp h
    have hbegin := bconCall_ok (fun call h => by cases h) h1
    obtain ⟨added, hold', hs, hcase⟩ := child_delivers hkey ihc ihr hbegin h hold (by omega)
    refine ⟨added, hold', hs, hcase.imp (fun hrun => ?_) id⟩
    exact ⟨bsonSteps_cons_ok.mpr ⟨c1, hbegin, hrun.1⟩, hrun.2⟩

end LibBson.Source
