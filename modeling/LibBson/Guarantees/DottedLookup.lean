import LibBson.Guarantees.DecodeEncode
import LibBson.Source.IterFind
import Mathlib.Data.List.TakeWhile

/-!
# A dotted key is looked up as a path

The descent looks for the segments of the key with their lengths cast to `int`. Below 2^31
octets these are the segments themselves; from there on it may find the element of a
shorter key. Source: bson-iter.c:255-397, bson.c:2426-2441.
-/

set_option autoImplicit false

namespace LibBson.Guarantees
open LibBson.Library LibBson.Source LibBson.Spec

/-- What `bson_has_field` looks for; a key without a dot takes another way. -/
def fieldPath (key : Bytes) : Option (List Bytes) :=
  if 46 ∈ key then soughtPath key
  else (soughtKey key (i32 key.length)).map fun k => [k]

/-- Both functions succeed where the path leads to an element, and the descendant is on
that element. -/
def Followed (b : BsonRef) (d : Doc) (dotkey : Bytes) : Prop :=
  (match d.lookup (segments dotkey) with
    | none => bsonIterFindDescendant (bsonIterInit b).2 dotkey = none
    | some (way, v) => ∃ e, bsonIterFindDescendant (bsonIterInit b).2 dotkey = some e ∧
        (bsonIterInit b).2.descend way = some e ∧ iterType e = some v.type ∧ Reads v e) ∧
    bsonHasField b dotkey = (d.lookup (segments dotkey)).isSome

section Segments

variable {dotkey : Bytes}

theorem firstSegment_no_dot : (46 : UInt8) ∉ firstSegment dotkey := by
  intro h
  have hp := List.mem_takeWhile_imp h
  simp at hp

/-- The octet behind the first segment is a dot. -/
theorem firstSegment_append (h : (firstSegment dotkey).length < dotkey.length) :
    dotkey = firstSegment dotkey ++ 46 :: dotkey.drop ((firstSegment dotkey).length + 1) := by
  have hcut := List.takeWhile_append_dropWhile (p := fun b : UInt8 => b ≠ 46) (l := dotkey)
  cases hrest : dotkey.dropWhile (fun b : UInt8 => b ≠ 46) with
  | nil =>
    rw [hrest, List.append_nil] at hcut
    rw [firstSegment, hcut] at h
    omega
  | cons x rest =>
    have hhead := List.head?_dropWhile_not (fun b : UInt8 => decide (b ≠ 46)) dotkey
    rw [hrest] at hhead hcut
    have hx : x = 46 := by simpa using hhead
    have hdrop : dotkey.drop ((firstSegment dotkey).length + 1) = rest := by
      have hpre : firstSegment dotkey ++ x :: rest = dotkey := hcut
      generalize firstSegment dotkey = first at hpre
      rw [← hpre, ← List.drop_drop, List.drop_left]
      rfl
    rw [hdrop, ← hx]
    exact hcut.symm

theorem segments_eq (dotkey : Bytes) :
    segments dotkey =
      if (firstSegment dotkey).length < dotkey.length then
        firstSegment dotkey :: segments (dotkey.drop ((firstSegment dotkey).length + 1))
      else [firstSegment dotkey] := by
  by_cases hdot : (firstSegment dotkey).length < dotkey.length
  · rw [if_pos hdot]
    conv_lhs => rw [firstSegment_append hdot]
    exact segments_dot firstSegment_no_dot
  · have hall : firstSegment dotkey = dotkey :=
      (List.takeWhile_prefix _).eq_of_length_le (Nat.not_lt.mp hdot)
    rw [if_neg hdot, hall]
    apply segments_last
    rw [← hall]
    exact firstSegment_no_dot

/-- Segments that an `int` counts are looked for as they are. -/
theorem soughtPath_short (dotkey : Bytes)
    (h : ∀ s ∈ segments dotkey, s ≠ [] ∧ s.length < 2147483648) :
    soughtPath dotkey = some (segments dotkey) := by
  have hfirst : firstSegment dotkey ∈ segments dotkey := by
    rw [segments_eq]
    split <;> exact List.mem_cons_self
  obtain ⟨hne, hshort⟩ := h _ hfirst
  have hint := i32_of_lt hshort
  have hpos := List.length_pos_of_ne_nil hne
  have htake : dotkey.take (firstSegment dotkey).length = firstSegment dotkey :=
    List.prefix_iff_eq_take.mp (List.takeWhile_prefix _) |>.symm
  rw [soughtPath, hint, if_neg (by omega), if_neg (by omega), soughtKey, if_neg (by omega),
    Int.toNat_natCast, htake, segments_eq]
  dsimp only
  by_cases hdot : (firstSegment dotkey).length < dotkey.length
  · have ih := soughtPath_short (dotkey.drop ((firstSegment dotkey).length + 1)) (by
      intro s hs
      apply h s
      rw [segments_eq, if_pos hdot]
      exact List.mem_cons_of_mem _ hs)
    rw [if_pos hdot, if_pos hdot, ih]
    rfl
  · rw [if_neg hdot, if_neg hdot]
termination_by dotkey.length
decreasing_by
  rw [List.length_drop]
  omega

end Segments

section Documents

variable {b : BsonRef} {d : Doc} {dotkey : Bytes} (henc : Encodes b d)
  (hsize : d.encode.length ≤ 2147483648)

include henc hsize

theorem opens_of_encodes : (bsonIterInit b).1 = true ∧ Opens d (bsonIterInit b).2 := by
  obtain ⟨it, hinit, hy⟩ := yields_of_encodes henc hsize
  have hlen := henc.len_body
  rw [Doc.encode_length] at hsize
  have hit : it = BsonIter.start (some b.data) b.len := by
    rw [bsonIterInit, if_neg (by omega)] at hinit
    exact (Prod.mk.inj hinit).2.symm
  rw [hinit]
  refine ⟨rfl, hy, ?_, by omega⟩
  rw [hit]
  exact (by omega : d.body.length ≤ b.len)

theorem hasField_eq (hnul : 0 ∉ dotkey) :
    bsonHasField b dotkey = ((fieldPath dotkey).bind fun path => d.lookup path).isSome := by
  obtain ⟨hinit, hopen⟩ := opens_of_encodes henc hsize
  rw [bsonHasField, fieldPath]
  by_cases hdot : (46 : UInt8) ∈ dotkey
  · rw [if_pos hdot, if_pos hdot, hinit, Bool.true_and, findDescendant_eq dotkey hopen hnul]
    cases hlookup : (soughtPath dotkey).bind fun path => d.lookup path with
    | none => rfl
    | some found =>
      obtain ⟨path, -, hfound⟩ := Option.bind_eq_some_iff.mp hlookup
      obtain ⟨e, he, -⟩ := descend_reads hopen hfound
      rw [Option.bind_some, he]
      rfl
  · obtain ⟨hlo, hhi⟩ := i32_bounds dotkey.length
    have hcount := fieldCount_le d
    have hroom := hopen.room
    have hfound := findLoop_yields hnul (i32_le dotkey.length) hlo hhi le_of_i32_neg d hopen.yields
      (by omega : fieldCount d < (bsonIterInit b).2.len + 1) hopen.small
    rw [if_neg hdot, if_neg hdot, bsonIterInitFind, hinit, Bool.true_and, bsonIterFind,
      bsonIterFindWithLen, if_neg (by decide), if_pos (by decide)]
    cases hsought : soughtKey dotkey (i32 dotkey.length) with
    | none =>
      rw [hsought, Option.bind_none] at hfound
      exact hfound
    | some k =>
      rw [hsought, Option.bind_some] at hfound
      rw [Option.map_some, Option.bind_some]
      cases hfind : d.find k with
      | none =>
        rw [hfind] at hfound
        rw [Doc.lookup_find_none hfind]
        exact hfound
      | some p =>
        obtain ⟨i, v⟩ := p
        rw [hfind] at hfound
        rw [Doc.lookup_single hfind]
        exact congrArg Prod.fst hfound

/-- What the descent does, told by the path it looks for. -/
theorem descendant_at (hnul : 0 ∉ dotkey) :
    match (soughtPath dotkey).bind fun path => d.lookup path with
    | none => bsonIterFindDescendant (bsonIterInit b).2 dotkey = none
    | some (way, v) => ∃ e, bsonIterFindDescendant (bsonIterInit b).2 dotkey = some e ∧
        (bsonIterInit b).2.descend way = some e ∧ iterType e = some v.type ∧ Reads v e := by
  obtain ⟨-, hopen⟩ := opens_of_encodes henc hsize
  rw [findDescendant_eq dotkey hopen hnul]
  cases hlookup : (soughtPath dotkey).bind fun path => d.lookup path with
  | none => rfl
  | some found =>
    obtain ⟨way, v⟩ := found
    obtain ⟨path, -, hfound⟩ := Option.bind_eq_some_iff.mp hlookup
    obtain ⟨e, he, hreads⟩ := descend_reads hopen hfound
    exact ⟨e, he, he, hreads⟩

end Documents

theorem fieldPath_short {dotkey : Bytes} (h : ∀ s ∈ segments dotkey, s ≠ [] ∧ s.length < 2147483648) :
    fieldPath dotkey = some (segments dotkey) := by
  by_cases hdot : (46 : UInt8) ∈ dotkey
  · rw [fieldPath, if_pos hdot, soughtPath_short dotkey h]
  · have hsegments := segments_last hdot
    rw [hsegments, List.forall_mem_singleton] at h
    rw [fieldPath, if_neg hdot, soughtKey, i32_of_lt h.2, if_neg (by omega), Int.toNat_natCast,
      List.take_length, hsegments]
    rfl

/-- No segment from 2^31 octets on is a key. -/
theorem lookup_long {d : Doc} {path : List Bytes} (hsize : d.encode.length ≤ 2147483648)
    (h : ¬ ∀ s ∈ path, s.length < 2147483648) : d.lookup path = none := by
  cases hlookup : d.lookup path with
  | none => rfl
  | some found =>
    rw [Doc.encode_length] at hsize
    exact absurd (fun s hs => by
      have hlen := Doc.lookup_length hlookup s hs
      omega) h

/-- Dotted lookup is path lookup if and only if every segment is shorter than 2^31 octets,
or nothing stands at the paths that are looked for instead. -/
theorem dotted_lookup_iff (b : BsonRef) (d : Doc) (dotkey : CStr) (henc : Encodes b d)
    (hsize : d.encode.length ≤ 2147483648) (hne : ∀ s ∈ segments dotkey.bytes, s ≠ []) :
    Followed b d dotkey.bytes ↔
      (∀ s ∈ segments dotkey.bytes, s.length < 2147483648) ∨
        ((soughtPath dotkey.bytes).bind fun path => d.lookup path) = none ∧
          ((fieldPath dotkey.bytes).bind fun path => d.lookup path) = none := by
  have hdescend := descendant_at henc hsize dotkey.noNul
  have hfield := hasField_eq henc hsize dotkey.noNul
  by_cases hshort : ∀ s ∈ segments dotkey.bytes, s.length < 2147483648
  · have hboth : ∀ s ∈ segments dotkey.bytes, s ≠ [] ∧ s.length < 2147483648 :=
      fun s hs => ⟨hne s hs, hshort s hs⟩
    rw [soughtPath_short _ hboth] at hdescend
    rw [fieldPath_short hboth] at hfield
    exact ⟨fun _ => Or.inl hshort, fun _ => ⟨hdescend, hfield⟩⟩
  · have hnone := lookup_long hsize hshort
    rw [Followed, hnone]
    dsimp only
    constructor
    · intro h
      obtain ⟨hdown, hhas⟩ := h
      refine Or.inr ⟨?_, ?_⟩
      · cases hfound : (soughtPath dotkey.bytes).bind fun path => d.lookup path with
        | none => rfl
        | some found =>
          rw [hfound] at hdescend
          obtain ⟨e, he, -⟩ := hdescend
          rw [hdown] at he
          cases he
      · rw [hfield] at hhas
        exact Option.isSome_eq_false_iff.mp hhas |> Option.isNone_iff_eq_none.mp
    · intro h
      obtain ⟨hdown, hhas⟩ := h.resolve_left hshort
      rw [hdown] at hdescend
      rw [hhas] at hfield
      exact ⟨hdescend, hfield⟩

/-- `{"a": null}` -/
def nullAtA : Doc := .cons ⟨[97], noNul_a⟩ .null .nil

def nullAtARef : BsonRef := { data := Mem.ofBytes [8, 0, 0, 0, 10, 97, 0, 0], len := 8 }

theorem encodes_nullAtA : Encodes nullAtARef nullAtA where
  len := rfl
  data := rfl

/-- `{"ab": null, "a": {"bc": true, "b": {"c": 7, "c": null}}, "a": null}` -/
def sevenAtABC : Doc :=
  .cons (cStr [97, 98]) .null <|
    .cons (cStr [97])
      (.document (.cons (cStr [98, 99]) (.bool true)
        (.cons (cStr [98])
          (.document (.cons (cStr [99]) (.int32 7) (.cons (cStr [99]) .null .nil))) .nil))) <|
      .cons (cStr [97]) .null .nil

def sevenAtABCRef : BsonRef where
  data := Mem.ofBytes [43, 0, 0, 0, 10, 97, 98, 0, 3, 97, 0, 28, 0, 0, 0, 8, 98, 99, 0, 1, 3, 98, 0,
    15, 0, 0, 0, 16, 99, 0, 7, 0, 0, 0, 10, 99, 0, 0, 0, 10, 97, 0, 0]
  len := 43

theorem encodes_sevenAtABC : Encodes sevenAtABCRef sevenAtABC where
  len := rfl
  data := rfl

theorem segments_abc : segments [97, 46, 98, 46, 99] = [[97], [98], [99]] := by
  have hlast : segments [99] = [[99]] := segments_last (by decide)
  have hb : segments ([98] ++ 46 :: [99]) = [98] :: segments [99] := segments_dot (by decide)
  have ha : segments ([97] ++ 46 :: ([98] ++ 46 :: [99])) = [97] :: segments ([98] ++ 46 :: [99]) :=
    segments_dot (by decide)
  rw [hb, hlast] at ha
  exact ha

/-- `a.b.c` goes by the keys it is a prefix of, and by those that stand behind. -/
theorem dotted_lookup_sevenAtABC :
    Followed sevenAtABCRef sevenAtABC [97, 46, 98, 46, 99] ∧
      sevenAtABC.lookup (segments [97, 46, 98, 46, 99]) = some ([1, 1, 0], .int32 7) := by
  have hsegment : ∀ s ∈ segments [97, 46, 98, 46, 99], s ≠ [] ∧ s.length < 2147483648 := by
    rw [segments_abc]
    decide
  constructor
  · apply (dotted_lookup_iff sevenAtABCRef sevenAtABC ⟨[97, 46, 98, 46, 99], by decide⟩
      encodes_sevenAtABC (by decide) fun s hs => (hsegment s hs).1).mpr
    exact Or.inl fun s hs => (hsegment s hs).2
  · rw [segments_abc]
    rfl

/-- The key of 2^32 + 1 octets finds the element of the key of one octet. -/
theorem dotted_lookup_not_followed :
    (∀ s ∈ segments (List.replicate 4294967297 97), s ≠ []) ∧
      ¬ Followed nullAtARef nullAtA (List.replicate 4294967297 97) := by
  have hmem : ∀ b ∈ List.replicate 4294967297 (97 : UInt8), b = 97 := fun b hb =>
    List.eq_of_mem_replicate hb
  have hdot : (46 : UInt8) ∉ List.replicate 4294967297 (97 : UInt8) := fun h =>
    absurd (hmem 46 h) (by decide)
  have hnul : (0 : UInt8) ∉ List.replicate 4294967297 (97 : UInt8) := fun h =>
    absurd (hmem 0 h) (by decide)
  have hlen : (List.replicate 4294967297 (97 : UInt8)).length = 4294967297 := List.length_replicate
  have htake : (List.replicate 4294967297 (97 : UInt8)).take 1 = [97] := by
    rw [List.take_replicate]
    rfl
  generalize List.replicate 4294967297 (97 : UInt8) = key at hmem hdot hnul hlen htake ⊢
  have hint : i32 key.length = 1 := by
    rw [hlen]
    decide
  have hpath : fieldPath key = some [[97]] := by
    rw [fieldPath, if_neg hdot, hint, soughtKey, if_neg (by decide), Int.toNat_one, htake]
    rfl
  have hsegments := segments_last hdot
  have hnot : nullAtA.lookup [key] = none := by
    apply Doc.lookup_find_none
    rw [nullAtA, Doc.find_cons_ne]
    · rfl
    · intro h
      have hone := congrArg List.length h
      rw [hlen] at hone
      exact absurd hone (by decide)
  have hone : nullAtA.lookup [[97]] = some ([0], .null) :=
    Doc.lookup_single (Doc.find_cons_eq rfl)
  refine ⟨?_, ?_⟩
  · rw [hsegments, List.forall_mem_singleton]
    intro h
    rw [h] at hlen
    cases hlen
  · intro h
    have hfield := hasField_eq encodes_nullAtA (by decide) hnul
    rw [h.2, hsegments, hpath, Option.bind_some, hnot, hone] at hfield
    cases hfield

end LibBson.Guarantees
