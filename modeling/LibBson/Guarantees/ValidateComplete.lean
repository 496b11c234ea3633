import LibBson.Guarantees.DecodeEncode
import LibBson.Guarantees.ValidateSound
import LibBson.Source.DecodeLevel

/-!
# Validation accepts what was built

For every document that a run of the append API leaves and whose keys and texts
are UTF-8. Source: bson.c:310-565, 752-1958, 3222-3444; bson-iter.c:1888-2151.
-/

set_option autoImplicit false

namespace LibBson.Guarantees
open LibBson.Library LibBson.Source LibBson.Spec

/-- A document that is read back as `d` is accepted when the text in `d` is UTF-8. -/
theorem validate_of_yields {b : BsonRef} {d : Doc} (h5 : 5 ≤ b.len) (hmax : b.len ≤ maxLen)
    (hy : Yields d (BsonIter.start (some b.data) b.len)) (hd : d.Utf8) :
    (bsonValidate b .none).1 = true := by
  have hl : SeesDoc b d.level := sees_of_yields d rfl (Nat.le_refl 4) hmax hy
  obtain ⟨hclean, hbelow⟩ := d.level_visible hd
  have hvisible : d.level.visible.Everywhere cleanHere true := ⟨⟨rfl, hclean⟩, hbelow⟩
  refine (validate_iff hl hmax .none).mpr ⟨h5, hvisible, fun hu => (nomatch hu), ?_⟩
  exact hvisible.mono fun _ _ _ _ =>
    ⟨fun he => (nomatch he), fun hd => (nomatch hd), fun hd => (nomatch hd)⟩

/-- When the described document fits a BSON length and its text is UTF-8, the
document that was built is accepted. -/
theorem validate_built (fresh : Nat → Mem) (c c' : Chain) (before d : Doc) (steps : List Step)
    (hstart : Start c before) (hb : Builds steps d) (hrun : bsonSteps fresh c steps = .ok c')
    (hutf8 : (before.append d).Utf8) (hsize : (before.append d).encode.length ≤ 2147483648) :
    (bsonValidate c'.ref .none).1 = true := by
  have hbound := hsize
  rw [Doc.encode_length, Doc.body_append, List.length_append] at hbound
  obtain ⟨hold, -⟩ := run_holding hb c c' _ hrun hstart.holding hbound
  rw [← Doc.body_append] at hold
  have henc := encodes_of_holding hold
  have hlen := henc.len_body
  rw [Doc.body_append, List.length_append] at hlen
  obtain ⟨it, hinit, hy⟩ := yields_of_encodes henc hsize
  rw [bsonIterInit, if_neg (by omega)] at hinit
  cases hinit
  exact validate_of_yields (by omega) (by unfold maxLen; omega) hy hutf8

theorem validate_built_nested :
    ∃ c', bsonSteps (fun _ _ => 0) (bsonInit fun _ => 0) nestedRun = .ok c' ∧
      (bsonValidate c'.ref .none).1 = true := by
  have hutf8 : (Doc.nil.append nestedRunDoc).Utf8 := by
    refine ⟨?_, ⟨?_, ?_, trivial⟩, ?_, ⟨?_, trivial, trivial⟩, ?_, trivial, trivial⟩ <;>
      exact (bsonUtf8Validate_iff _ _).mp (by decide)
  exact ⟨_, rfl, validate_built (fun _ _ => 0) (bsonInit fun _ => 0) _ .nil nestedRunDoc nestedRun
    (start_bsonInit _).toStart builds_nestedRun rfl hutf8 (by decide)⟩

/-- The octets behind the length word are those of the element. -/
theorem hugeBinary_octet {args : AppendArgs} {n i : Nat} (hsize : args.size = n) (hi : i < n) :
    (appendVa hugeBuffer args).ref.data (4 + i) = args.bytes.getD i 0 := by
  have hlen := args.bytes_length
  have hbuf : (appendVa hugeBuffer args).ref.data (4 + i) =
      ((((Mem.ofBytes [5, 0, 0, 0, 0]).write 4 args.bytes).write 0
        (leBytes 4 (appendedLen hugeBuffer.bson args))).write (4 + args.size) [0]) (4 + i) := by
    simp only [appendVa, Chain.update, hugeBuffer, Chain.ref, Mem.shift_zero, appendStores,
      runStores_append, runStores_appendPairs]
    rfl
  rw [hbuf, Mem.write_before _ _ _ _ (by omega), Mem.write_after _ _ _ _ (by simp),
    Mem.write_at _ _ _ _ (by omega)]
  simp [List.getD_eq_getElem?_getD, hlen, hsize, hi]

/-- 4294967290 octets of data make an element of `2 ^ 32 + 1` octets, whose declared
total is 1: what is left is a document of six octets whose binary element is cut off. -/
theorem hugeBinary_rest (fresh : Nat → Mem) :
    ∃ c', bsonSteps fresh hugeBuffer (hugeBinary 4294967290) = .ok c' ∧ c'.ref.len = 6 ∧
      c'.ref.data 4 = 5 ∧ c'.ref.data 5 = 0 := by
  have hsize : (bsonAppendBinary [] 0 0 [] 4294967290).size = 4294967297 :=
    append_size [] 0 (.binary 0 [] 4294967290)
  obtain ⟨rest, hbytes⟩ : ∃ rest, (bsonAppendBinary [] 0 0 [] 4294967290).bytes =
      header .binary emptyKey ++ rest := by
    simp only [bsonAppendBinary]
    rw [if_neg (by decide)]
    exact ⟨_, keyedAppend_bytes rfl (by decide) rfl⟩
  refine ⟨appendVa hugeBuffer (bsonAppendBinary [] 0 0 [] 4294967290), ?_, ?_, ?_, ?_⟩
  · rw [hugeBinary, bsonSteps_cons_ok]
    refine ⟨_, ?_, rfl⟩
    have hn : (bsonAppendBinary [] 0 0 [] 4294967290).nBytes = 1 := by decide
    have hgrow : bsonGrow fresh 1 hugeBuffer = some hugeBuffer := by
      simp only [bsonGrow, bsonImplAllocGrow, hugeBuffer]
      exact if_pos (by decide)
    simp only [bsonStep, bsonAppendCall, AppendCall.request, AppendCall.keyed, Field.append,
      bsonAppendInternal, hn, hgrow]
    rw [if_neg (by decide)]
  · simp only [Chain.ref, appendVa, hugeBuffer, Chain.update, appendedLen, hsize]
    decide
  · rw [hugeBinary_octet (i := 0) hsize (by decide), hbytes]
    rfl
  · rw [hugeBinary_octet (i := 1) hsize (by decide), hbytes]
    rfl

/-- Its binary element is a corruption, so it is refused. -/
theorem hugeBinary_refused :
    ∃ c', Start hugeBuffer .nil ∧ Builds (hugeBinary 4294967290) (hugeBinaryDoc 4294967290) ∧
      (hugeBinaryDoc 4294967290).Utf8 ∧
      bsonSteps (fun _ _ => 0) hugeBuffer (hugeBinary 4294967290) = .ok c' ∧
      (bsonValidate c'.ref .none).1 = false := by
  obtain ⟨c', hrun, hlen, htype, hkey⟩ := hugeBinary_rest fun _ _ => 0
  refine ⟨c', start_hugeBuffer, builds_hugeBinary _, ⟨.nil, trivial, trivial⟩, hrun, ?_⟩
  generalize c'.ref = b at *
  obtain ⟨data, len⟩ := b
  simp only at hlen htype hkey
  subst hlen
  have hscan : (Read.scanNul 1 5).val data = some 5 :=
    Read.scanNul_eq_some (Nat.le_refl 5) (by decide) hkey fun i h1 h2 => by omega
  have hnext : (bsonIterNextInternal (BsonIter.start (some data) 6)).ok = false ∧
      (bsonIterNextInternal (BsonIter.start (some data) 6)).iter.errOff = 6 := by
    simp [bsonIterNextInternal, BsonIter.start, nextElement, enterElement, hscan, fillDataFields,
      htype, show BsonType.ofByte 5 = some .binary from rfl, nextValue, nextBinary, u32sub, corrupt,
      markInvalid]
  have hl : SeesDoc { data := data, len := 6 } (.stop true) := by
    have hs := Sees.stop _ hnext.1
    rw [hnext.2] at hs
    exact hs
  rw [Bool.eq_false_iff]
  intro hv
  obtain ⟨-, hclean, -, -⟩ := (validate_iff hl (show 6 ≤ maxLen by decide) .none).mp hv
  exact absurd hclean.1.2 (by decide)

end LibBson.Guarantees
