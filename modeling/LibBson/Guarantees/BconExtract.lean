import LibBson.Source.BconExtractRuns

/-!
# Extraction with variable arguments

For every document and every well-formed list of extraction arguments. Source: bcon.c:28-76,
316-454, 588-702, 844-946.
-/

set_option autoImplicit false

namespace LibBson.Guarantees
open LibBson.Library LibBson.Source LibBson.Spec

/-- `bcon_extract` returns `r` and leaves `stores`: it is true just if every element asked for
is there with the type asked for, and then every variable has its value; otherwise the
variables in front of the first such element have theirs and no other variable is touched. -/
def ExtractsFrom (d : Doc) (needs : List BconNeed) (r : Bool) (stores : BconStores) : Prop :=
  ∃ parts, stores = List.flatten parts ∧
    ((r = true ∧ List.Forall₂ (BconNeed.Answered d) needs parts) ∨
      r = false ∧ ∃ front n back, needs = front ++ n :: back ∧
        List.Forall₂ (BconNeed.Answered d) front parts ∧ ¬ n.Met d)

/-- An answered need is met. -/
theorem met_of_answered {d : Doc} {needs : List BconNeed} {parts : List BconStores}
    (h : List.Forall₂ (BconNeed.Answered d) needs parts) : ∀ n ∈ needs, n.Met d := by
  induction h with
  | nil =>
    intro n hn
    cases hn
  | cons hfirst _ ih =>
    intro n hn
    rcases List.mem_cons.mp hn with rfl | hn
    · obtain ⟨way, v, hv, hstores⟩ := hfirst
      exact ⟨way, v, hv, fits_of_stores hstores⟩
    · exact ih n hn

theorem ExtractsFrom.iff_met {d : Doc} {needs : List BconNeed} {r : Bool} {stores : BconStores}
    (h : ExtractsFrom d needs r stores) : r = true ↔ ∀ n ∈ needs, n.Met d := by
  obtain ⟨parts, -, ⟨hr, hparts⟩ | ⟨hr, front, n, back, rfl, -, hmet⟩⟩ := h
  · exact iff_of_true hr (met_of_answered hparts)
  · refine iff_of_false (by rw [hr]; exact Bool.false_ne_true) fun hall => hmet (hall n ?_)
    exact List.mem_append_right front List.mem_cons_self

section Extract

variable {b : BsonRef} {d : Doc} (h : Encodes b d) (hsmall : b.len ≤ bsonMaxSize)
  (t : BconPattern false) (hshort : t.Short) (hlength : t.args.length < 2147483648)
  (hdepth : t.depth < bconStackMax) (ap : List VaArg)

include h hsmall hshort hlength hdepth

/-- The run of the loop over the arguments of a pattern, up to the NULL behind them. -/
theorem extractLoop_pattern :
    Extracted d (t.needs 0) []
      (fun stores => some (true, ctxAt false BsonIter.zeroed [] (t.stop 0), stores, ap))
      (bconExtractCtxVa b bconExtractCtxInit (t.args ++ .null :: ap)) := by
  obtain ⟨hinit, hbefore⟩ := encodes_before h hsmall
  have hturns := patternTurns_le t
  obtain ⟨fuel, hfuel⟩ : ∃ fuel, (t.args ++ .null :: ap).length + 1 =
      patternTurns t + (fuel + 1) := by
    refine ⟨(t.args ++ .null :: ap).length - patternTurns t, ?_⟩
    rw [List.length_append]
    omega
  rw [bconExtractCtxVa, hinit, hfuel]
  exact extracted_tree t hshort (by omega) (by simpa using hdepth) hbefore

/-- A whole pattern is answered, up to its first unmet need. -/
theorem bcon_extract_iff :
    ∃ r stores, bconExtract b (t.args ++ .null :: ap) = some (r, stores) ∧
      ExtractsFrom d (t.needs 0) r stores ∧ (r = true ↔ ∀ n ∈ t.needs 0, n.Met d) := by
  have hrun := extractLoop_pattern h hsmall t hshort hlength hdepth ap
  rw [bconExtract]
  rcases hrun with ⟨parts, hparts, heq⟩ | ⟨front, n, back, parts, hneeds, hparts, hmet, c, ap', heq⟩
  · rw [heq]
    have hall : ExtractsFrom d (t.needs 0) true parts.flatten :=
      ⟨parts, rfl, .inl ⟨rfl, hparts⟩⟩
    exact ⟨true, parts.flatten, rfl, hall, hall.iff_met⟩
  · rw [heq]
    have hall : ExtractsFrom d (t.needs 0) false parts.flatten :=
      ⟨parts, rfl, .inr ⟨rfl, front, n, back, hneeds, hparts, hmet⟩⟩
    exact ⟨false, parts.flatten, rfl, hall, hall.iff_met⟩

end Extract

/-! ## A document in a document -/

/-- `{"a": {"b": 7}}` -/
def sevenAtAB : Doc :=
  .cons (cStr [97]) (.document (.cons (cStr [98]) (.int32 7) .nil)) .nil

def sevenAtABRef : BsonRef where
  data := Mem.ofBytes [20, 0, 0, 0, 3, 97, 0, 12, 0, 0, 0, 16, 98, 0, 7, 0, 0, 0, 0, 0]
  len := 20

theorem encodes_sevenAtAB : Encodes sevenAtABRef sevenAtAB where
  len := rfl
  data := rfl

/-- `"a", "{", "b", BCONE_INT32 (x), "}"` -/
def sevenPattern : BconPattern false :=
  .document (.key [97] (by simp [Bare])) (.single (.key [98] (by simp [Bare])) (.int32 0) .nil) .nil

theorem sevenPattern_short : sevenPattern.Short :=
  have ha : (cText [97]).length < 2147483648 := by decide
  have hb : (cText [98]).length < 2147483648 := by decide
  ⟨ha, ⟨hb, trivial⟩, trivial⟩

theorem bcon_extract_seven :
    ∃ r stores, bconExtract sevenAtABRef (sevenPattern.args ++ [.null]) = some (r, stores) ∧
      ExtractsFrom sevenAtAB (sevenPattern.needs 0) r stores ∧
      (r = true ↔ ∀ n ∈ sevenPattern.needs 0, n.Met sevenAtAB) :=
  bcon_extract_iff encodes_sevenAtAB (by decide) sevenPattern
    sevenPattern_short (by decide) (by decide) []

end LibBson.Guarantees
