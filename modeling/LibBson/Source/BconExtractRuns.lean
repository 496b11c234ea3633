import LibBson.Source.CopyExcluding
import LibBson.Spec.BconPattern
import Mathlib.Data.List.Forall2

/-!
# Runs of the extraction loop

A key is looked for in what the innermost iterator has ahead, a value is stored as the
element it is found on holds it; from there a whole pattern, with the documents and arrays
it opens.
-/

set_option autoImplicit false

namespace LibBson.Source
open LibBson.Library LibBson.Spec

/-! ## Tokens -/

theorem extractTokenize_value (u : BconExtractU) (ap : List VaArg) :
    bconExtractTokenize (u.args ++ ap) = some (.value u, ap) := by
  cases u <;> rfl

theorem extractMark_bare {s : Bytes} (h : Bare s) : bconExtractMark s = .raw s := by
  unfold Bare at h
  simp only [List.mem_cons, List.not_mem_nil, or_false, not_or] at h
  obtain ⟨h1, h2, h3, h4⟩ := h
  unfold bconExtractMark
  split <;> simp_all

theorem digitsBefore_length_le (fuel n : Nat) (acc : Bytes) :
    (digitsBefore fuel n acc).length ≤ fuel + acc.length := by
  induction fuel generalizing n acc with
  | zero => exact Nat.le_add_left _ _
  | succ fuel ih =>
    rw [digitsBefore]
    split
    · rw [List.length_cons]
      omega
    · have hrest := ih (n / 10) (digit n :: acc)
      rw [List.length_cons] at hrest
      omega

theorem decimal_length_le (n : Nat) : (decimal n).length ≤ n + 1 :=
  digitsBefore_length_le (n + 1) n []

/-! ## Looking an element up -/

theorem Before.yields {d : Doc} {m : Mem} {it : BsonIter} (h : Before d m it) : Yields d it :=
  yields_of_holds d h.raw h.start h.octets h.len h.max h.clean

/-- The element a lookup finds. -/
theorem Before.find_at {d : Doc} {m : Mem} {it : BsonIter} {k : Bytes} {i : Nat} {v : Value}
    (h : Before d m it) (hfind : d.find k = some (i, v)) :
    ∃ key, At m (it.stepped (i + 1)) key v := by
  match d with
  | .nil => cases hfind
  | .cons key w rest =>
    obtain ⟨-, -, -, hat, hrest⟩ := h.next
    by_cases hk : key.bytes = k
    · rw [Doc.find_cons_eq hk, Option.some.injEq, Prod.mk.injEq] at hfind
      obtain ⟨rfl, rfl⟩ := hfind
      exact ⟨key, hat⟩
    · rw [Doc.find_cons_ne hk] at hfind
      obtain ⟨⟨j, u⟩, hj, heq⟩ := Option.map_eq_some_iff.mp hfind
      cases heq
      exact hrest.find_at hj

/-- `bson_iter_find` is the lookup of the key. -/
theorem find_before {d : Doc} {m : Mem} {it : BsonIter} (h : Before d m it) {key : Bytes}
    (hnul : (0 : UInt8) ∉ key) (hshort : key.length < 2147483648) :
    (d.find key = none → (bsonIterFind it key).1 = false) ∧
      ∀ i v, d.find key = some (i, v) → bsonIterFind it key = (true, it.stepped (i + 1)) := by
  have hcount := fieldCount_le d
  have hlen := h.len
  have hmax := h.max
  unfold maxLen at hmax
  have hint : i32 key.length = key.length := i32_of_lt hshort
  have hloop := findLoop_yields hnul (Int.le_refl (key.length : Int)) (by omega) (by omega)
    (by omega) d h.yields (show fieldCount d < it.len + 1 by omega) (by omega)
  rw [soughtKey, if_neg (by omega), Int.toNat_natCast, List.take_length, Option.bind_some] at hloop
  rw [bsonIterFind, bsonIterFindWithLen, if_neg (by decide), if_pos (by decide), hint]
  constructor
  · intro hnone
    rw [hnone] at hloop
    exact hloop
  · intro i v hsome
    rw [hsome] at hloop
    exact hloop

/-! ## The element found -/

/-- Recursing into a document or an array has its elements ahead. -/
theorem At.recurse {m : Mem} {e : BsonIter} {k : CStr} {v : Value} {child : Doc}
    (h : At m e k v) (hv : v = .document child ∨ v = .array child) :
    ∃ m' it, bsonIterRecurse e = some it ∧ Before child m' it := by
  have htype := h.iterType_eq
  have hval := h.value
  have hf := h.fields
  have hnext := h.next
  have hstop := h.stop
  have hmax := h.max
  unfold maxLen at hmax
  generalize ho : e.off + k.bytes.length + 2 = o at hval hf hnext
  rcases hv with rfl | rfl
  all_goals
    have hd : e.d1 = o := hf
    simp only [Value.encode, frame_length] at hval hnext
    obtain ⟨hword, hrest⟩ := frame_holds hval (by omega)
    refine ⟨m.shift o, BsonIter.start (some (m.shift o)) (child.body.length + 5), ?_,
      before_start ((holds_shift ..).mpr hrest) (by unfold maxLen; omega)⟩
  · simp [bsonIterRecurse, htype, Value.type, bsonIterDocument, h.mem_eq, hd, hword]
  · simp [bsonIterRecurse, htype, Value.type, bsonIterArray, h.mem_eq, hd, hword]

theorem pointsTo_shift {m : Mem} {o : Nat} {bs : Bytes} (h : Holds m o bs) :
    PointsTo (.pointer (some (m.shift o))) bs :=
  ⟨m.shift o, rfl, (holds_shift ..).mpr h⟩

/-- A counted text, behind its length word. -/
theorem pointsTo_text {m : Mem} {o : Nat} {s : Bytes} (h : Holds m o (lengthText s))
    (fits : s.length + 1 < 4294967296) :
    PointsTo (.pointer (some (m.shift (o + 4)))) (s ++ [0]) := by
  obtain ⟨-, htext, hnul⟩ := lengthText_holds h fits
  exact pointsTo_shift (by simp [htext, hnul])

/-- The data of a binary, behind a second length word in the deprecated subtype. -/
theorem binary_points {m : Mem} {e : BsonIter} {o : Nat} {subtype : UInt8} {data : Bytes}
    (hm : e.mem = m) (htype : iterType e = some .binary) (hd1 : e.d1 = o) (hd2 : e.d2 = o + 4)
    (hd3 : e.d3 = o + 5) (h : Holds m o (Value.binary subtype data).encode)
    (fits : (Value.binary subtype data).encode.length < 4294967296) :
    ∃ p, bsonIterBinary e = some (subtype, p) ∧ p.len = data.length ∧
      PointsTo (e.ptr p.off) data := by
  simp only [Value.encode] at h fits
  split at h
  · next hsub =>
    rw [if_pos hsub] at fits
    simp only [List.length_append, List.length_cons, leBytes_length] at fits
    obtain ⟨h1, h2⟩ := le_of_holds_append h (by omega)
    rw [holds_cons, holds_append, leBytes_length] at h2
    have hu : u32sub (data.length + 4) 4 = data.length := by
      rw [u32sub_of_le (by omega) (by omega)]
      omega
    subst hsub
    refine ⟨{ off := o + 5 + 4, len := data.length }, ?_, rfl, ?_⟩
    · simp [bsonIterBinary, htype, hm, hd1, hd2, hd3, h1, h2.1, hu]
    · rw [BsonIter.ptr, hm]
      exact pointsTo_shift h2.2.2
  · next hsub =>
    rw [if_neg hsub] at fits
    simp only [List.length_append, List.length_cons, leBytes_length] at fits
    obtain ⟨h1, h2⟩ := le_of_holds_append h (by omega)
    rw [holds_cons] at h2
    refine ⟨{ off := o + 5, len := data.length }, ?_, rfl, ?_⟩
    · simp [bsonIterBinary, htype, hm, hd1, hd2, hd3, h1, h2.1, hsub]
    · rw [BsonIter.ptr, hm]
      exact pointsTo_shift h2.2

theorem skip_wants {t t' : BsonType} (h : BconExtractU.skip t ≠ .skip t') :
    (BconExtractU.skip t).wants ≠ some t' :=
  fun heq => h (congrArg BconExtractU.skip (Option.some.inj heq))

/-- What is stored is the value of the element. -/
theorem extractStores_at {m : Mem} {e : BsonIter} {k : CStr} {v : Value} (h : At m e k v)
    {u : BconExtractU} (hwants : u.wants = some v.type) :
    u.Stores v (bconExtractStores e u) := by
  have htype := h.iterType_eq
  have hm := h.mem_eq
  have hval := h.value
  have hf := h.fields
  have hnext := h.next
  have hstop := h.stop
  have hmax := h.max
  unfold maxLen at hmax
  generalize ho : e.off + k.bytes.length + 2 = o at hval hf hnext
  by_cases hskip : u = .skip v.type
  · subst hskip
    exact ⟨rfl, rfl⟩
  cases v with
  | double bits =>
    have hd : e.d1 = o := hf
    have hw : m.le o 8 = bits.toNat := by
      rw [Value.encode] at hval
      exact hval.le_eq_of_lt bits.isLt
    cases u with
    | double x =>
      simp [BconExtractU.Stores, bconExtractStores, bsonIterDouble, htype, Value.type, hm, hd, hw]
    | skip t => exact absurd hwants (skip_wants hskip)
    | _ => cases hwants
  | utf8 s =>
    obtain ⟨hd1, hd2⟩ := hf
    simp only [Value.encode, lengthText_length] at hval hnext
    have hpoint := pointsTo_text hval (by omega)
    cases u with
    | utf8 x =>
      refine ⟨_, ?_, hpoint⟩
      simp [bconExtractStores, BsonIter.text, bsonIterUtf8, htype, Value.type, hm, hd2]
    | skip t => exact absurd hwants (skip_wants hskip)
    | _ => cases hwants
  | code s =>
    obtain ⟨hd1, hd2⟩ := hf
    simp only [Value.encode, lengthText_length] at hval hnext
    have hpoint := pointsTo_text hval (by omega)
    cases u with
    | code x =>
      refine ⟨_, ?_, hpoint⟩
      simp [bconExtractStores, BsonIter.text, bsonIterCode, htype, Value.type, hm, hd2]
    | skip t => exact absurd hwants (skip_wants hskip)
    | _ => cases hwants
  | symbol s =>
    obtain ⟨hd1, hd2⟩ := hf
    simp only [Value.encode, lengthText_length] at hval hnext
    have hpoint := pointsTo_text hval (by omega)
    cases u with
    | symbol x =>
      refine ⟨_, ?_, hpoint⟩
      simp [bconExtractStores, BsonIter.text, bsonIterSymbol, htype, Value.type, hm, hd2]
    | skip t => exact absurd hwants (skip_wants hskip)
    | _ => cases hwants
  | document d =>
    have hd : e.d1 = o := hf
    simp only [Value.encode, frame_length] at hval hnext
    obtain ⟨hword, b, hb, henc⟩ := nested_encodes hval (by omega)
    cases u with
    | document x =>
      refine ⟨b, ?_, henc⟩
      simp [bconExtractStores, BsonIter.static, bsonIterDocument, htype, Value.type, hm, hd, hword, hb]
    | skip t => exact absurd hwants (skip_wants hskip)
    | _ => cases hwants
  | array d =>
    have hd : e.d1 = o := hf
    simp only [Value.encode, frame_length] at hval hnext
    obtain ⟨hword, b, hb, henc⟩ := nested_encodes hval (by omega)
    cases u with
    | array x =>
      refine ⟨b, ?_, henc⟩
      simp [bconExtractStores, BsonIter.static, bsonIterArray, htype, Value.type, hm, hd, hword, hb]
    | skip t => exact absurd hwants (skip_wants hskip)
    | _ => cases hwants
  | binary subtype data =>
    obtain ⟨hd1, hd2, hd3⟩ := hf
    obtain ⟨p, hp, hpoint⟩ := binary_points hm htype hd1 hd2 hd3 hval (by omega)
    cases u with
    | bin x y z =>
      refine ⟨e.ptr p.off, ?_, hpoint.2⟩
      simp only [bconExtractStores, hp, hpoint.1]
    | skip t => exact absurd hwants (skip_wants hskip)
    | _ => cases hwants
  | oid x =>
    have hd : e.d1 = o := hf
    rw [Value.encode] at hval
    cases u with
    | oid y =>
      refine ⟨_, ?_, pointsTo_shift hval⟩
      simp [bconExtractStores, bsonIterOid, htype, Value.type, hm, hd]
    | skip t => exact absurd hwants (skip_wants hskip)
    | _ => cases hwants
  | bool b =>
    have hd : e.d1 = o := hf
    rw [Value.encode, holds_cons] at hval
    cases u with
    | bool x =>
      cases b <;>
        simp [BconExtractU.Stores, bconExtractStores, bsonIterBool, htype, Value.type, hm, hd, hval.1]
    | skip t => exact absurd hwants (skip_wants hskip)
    | _ => cases hwants
  | dateTime ms =>
    have hd : e.d1 = o := hf
    have hw : m.le o 8 = ms.toNat := by
      rw [Value.encode] at hval
      exact hval.le_eq_of_lt ms.isLt
    cases u with
    | dateTime x =>
      simp [BconExtractU.Stores, bconExtractStores, bsonIterDateTime, htype, Value.type, hm, hd, hw,
        i64_toNat]
    | skip t => exact absurd hwants (skip_wants hskip)
    | _ => cases hwants
  | int64 n =>
    have hd : e.d1 = o := hf
    have hw : m.le o 8 = n.toNat := by
      rw [Value.encode] at hval
      exact hval.le_eq_of_lt n.isLt
    cases u with
    | int64 x =>
      simp [BconExtractU.Stores, bconExtractStores, bsonIterInt64, htype, Value.type, hm, hd, hw,
        i64_toNat]
    | skip t => exact absurd hwants (skip_wants hskip)
    | _ => cases hwants
  | int32 n =>
    have hd : e.d1 = o := hf
    have hw : m.le o 4 = n.toNat := by
      rw [Value.encode] at hval
      exact hval.le_eq_of_lt n.isLt
    cases u with
    | int32 x =>
      simp [BconExtractU.Stores, bconExtractStores, bsonIterInt32, htype, Value.type, hm, hd, hw,
        i32_toNat]
    | skip t => exact absurd hwants (skip_wants hskip)
    | _ => cases hwants
  | timestamp t i =>
    have hd : e.d1 = o := hf
    have ht := t.isLt
    have hi := i.isLt
    have hw : m.le o 8 = t.toNat * 4294967296 + i.toNat := by
      rw [Value.encode] at hval
      exact hval.le_eq_of_lt (by omega)
    have hdiv : (t.toNat * 4294967296 + i.toNat) / 4294967296 = t.toNat := by omega
    have hmod : (t.toNat * 4294967296 + i.toNat) % 4294967296 = i.toNat := by omega
    cases u with
    | timestamp x y =>
      simp only [BconExtractU.Stores, bconExtractStores, bsonIterTimestamp, htype, Value.type, hm, hd,
        hw, if_true, hdiv, hmod]
    | skip t => exact absurd hwants (skip_wants hskip)
    | _ => cases hwants
  | decimal128 low high =>
    have hd : e.d1 = o := hf
    rw [Value.encode] at hval
    obtain ⟨hw1, hw2⟩ := le_of_holds_append hval low.isLt
    have hw3 : m.le (o + 8) 8 = high.toNat := hw2.le_eq_of_lt high.isLt
    cases u with
    | decimal128 x =>
      simp [BconExtractU.Stores, bconExtractStores, bsonIterDecimal128, htype, Value.type, hm, hd, hw1,
        hw3]
    | skip t => exact absurd hwants (skip_wants hskip)
    | _ => cases hwants
  | dbpointer c x =>
    obtain ⟨f1, f2, f3⟩ := hf
    simp only [Value.encode, List.length_append, lengthText_length, x.width, holds_append]
      at hval hnext
    obtain ⟨h1, -, -⟩ := lengthText_holds hval.1 (by omega)
    have hpoint := pointsTo_text hval.1 (by omega)
    have hd3 : e.d3 = o + (c.length + 5) := by
      rw [f3, h1]
      omega
    cases u with
    | dbpointer y z =>
      refine ⟨_, _, ?_, hpoint, pointsTo_shift hval.2⟩
      simp [bconExtractStores, bsonIterDbpointer, htype, Value.type, hm, f2, hd3]
    | skip t => exact absurd hwants (skip_wants hskip)
    | _ => cases hwants
  | regex p q =>
    obtain ⟨f1, f2, -, f4, f5⟩ := hf
    simp only [Value.encode, holds_append, holds_cons] at hval
    obtain ⟨h1, h2, h3, h4, -⟩ := hval
    have hd2 : e.d2 = o + p.bytes.length + 1 := pattern_ends f2 f4 f5 h1 h2
    have hpattern : Holds m o (p.bytes ++ [0]) := by simp [h1, h2]
    have hoptions : Holds m (o + p.bytes.length + 1) (q.bytes ++ [0]) := by simp [h3, h4]
    cases u with
    | regex x y =>
      refine ⟨_, _, ?_, pointsTo_shift hpattern, pointsTo_shift hoptions⟩
      simp [bconExtractStores, bsonIterRegex, htype, Value.type, hm, f1, hd2]
    | skip t => exact absurd hwants (skip_wants hskip)
    | _ => cases hwants
  | codewscope s d =>
    obtain ⟨f1, f2, f3, f4⟩ := hf
    simp only [Value.encode, List.length_append, leBytes_length, lengthText_length, frame_length]
      at hval hnext
    obtain ⟨h1, h2⟩ := le_of_holds_append hval (by omega)
    rw [holds_append, lengthText_length] at h2
    obtain ⟨h3, -, -⟩ := lengthText_holds h2.1 (by omega)
    have hpoint := pointsTo_text h2.1 (by omega)
    obtain ⟨hword, b, hb, henc⟩ := nested_encodes h2.2 (by omega)
    have hd4 : e.d4 = o + 4 + (s.length + 5) := by
      rw [f4, h3]
      omega
    cases u with
    | codewscope x y =>
      refine ⟨_, b, ?_, hpoint, henc⟩
      simp [bconExtractStores, BsonIter.text, BsonIter.static, bsonIterCodewscope, htype, Value.type,
        hm, f3, hd4, hword, hb]
    | skip t => exact absurd hwants (skip_wants hskip)
    | _ => cases hwants
  | undefined =>
    cases u with
    | undefined =>
      rfl
    | skip t => exact absurd hwants (skip_wants hskip)
    | _ => cases hwants
  | null =>
    cases u with
    | null =>
      rfl
    | skip t => exact absurd hwants (skip_wants hskip)
    | _ => cases hwants
  | maxkey =>
    cases u with
    | maxkey =>
      rfl
    | skip t => exact absurd hwants (skip_wants hskip)
    | _ => cases hwants
  | minkey =>
    cases u with
    | minkey =>
      rfl
    | skip t => exact absurd hwants (skip_wants hskip)
    | _ => cases hwants

/-- What can be stored has the requested type. -/
theorem fits_of_stores {u : BconExtractU} {v : Value} {w : BconStores} (h : u.Stores v w) :
    u.Fits v := by
  cases u with
  | iter x => exact .inl rfl
  | skip t => exact .inr (congrArg some h.1.symm)
  | _ => cases v <;> first | exact .inr rfl | exact h.elim

/-- `_bcon_extract_single` on an element. -/
theorem extractSingle_at {m : Mem} {e : BsonIter} {k : CStr} {v : Value} (h : At m e k v)
    (u : BconExtractU) :
    (u.Fits v → ∃ w, bconExtractSingle e u = some w ∧ u.Stores v w) ∧
      (¬ u.Fits v → bconExtractSingle e u = none) := by
  have htype := h.iterType_eq
  constructor
  · rintro (hany | hwants)
    · refine ⟨_, if_pos (.inl hany), ?_⟩
      cases u with
      | iter x => exact ⟨m, e, k, rfl, h⟩
      | _ => cases hany
    · exact ⟨_, if_pos (.inr (htype.trans hwants.symm)), extractStores_at h hwants⟩
  · intro hno
    refine if_neg fun hcheck => hno ?_
    rcases hcheck with hany | hsame
    · exact .inl hany
    · exact .inr (hsame.symm.trans htype)

/-! ## Paths -/

theorem need_single {d : Doc} {k : Bytes} {i : Nat} {v : Value} (hfind : d.find k = some (i, v))
    (u : BconExtractU) :
    (({ path := [k], u := u } : BconNeed).Met d ↔ u.Fits v) ∧
      ∀ w, u.Stores v w → ({ path := [k], u := u } : BconNeed).Answered d w := by
  have hlookup := Doc.lookup_single hfind
  refine ⟨⟨?_, fun h => ⟨_, v, hlookup, h⟩⟩, fun w h => ⟨_, v, hlookup, h⟩⟩
  rintro ⟨way, v', hv', hfit⟩
  rw [hlookup, Option.some.injEq, Prod.mk.injEq] at hv'
  rwa [hv'.2]

theorem need_missing {d : Doc} {k : Bytes} (hfind : d.find k = none) (u : BconExtractU) :
    ¬ ({ path := [k], u := u } : BconNeed).Met d := by
  rintro ⟨way, v, hv, -⟩
  rw [Doc.lookup_find_none hfind] at hv
  cases hv

theorem needs_path {a : Bool} (t : BconPattern a) (i : Nat) : ∀ n ∈ t.needs i, n.path ≠ [] := by
  induction t generalizing i with
  | nil =>
    intro n hn
    cases hn
  | single name u rest ih =>
    intro n hn
    rcases List.mem_cons.mp hn with rfl | hn
    · exact List.cons_ne_nil _ _
    · exact ih _ n hn
  | document name child rest ihc ihr | array name child rest ihc ihr =>
    intro n hn
    rcases List.mem_cons.mp hn with rfl | hn
    · exact List.cons_ne_nil _ _
    · rcases List.mem_append.mp hn with hn | hn
      · obtain ⟨n', -, rfl⟩ := List.mem_map.mp hn
        exact List.cons_ne_nil _ _
      · exact ihr _ n hn

/-- A path below the key of a nested document. -/
theorem need_below {d child : Doc} {k : Bytes} {i : Nat} {v : Value}
    (hfind : d.find k = some (i, v)) (hchild : Doc.nested v = some child) {n : BconNeed}
    (hpath : n.path ≠ []) :
    ((n.below k).Met d ↔ n.Met child) ∧ ∀ w, n.Answered child w → (n.below k).Answered d w := by
  have hlookup : d.lookup (k :: n.path) =
      (child.lookup n.path).map fun found => (i :: found.1, found.2) := by
    rw [Doc.lookup_cons hfind hpath, hchild, Option.bind_some]
  refine ⟨⟨?_, ?_⟩, ?_⟩
  · rintro ⟨way, v', hv', hfit⟩
    rw [BconNeed.below, hlookup] at hv'
    obtain ⟨⟨way', u⟩, hfound, heq⟩ := Option.map_eq_some_iff.mp hv'
    obtain rfl : u = v' := congrArg Prod.snd heq
    exact ⟨way', u, hfound, hfit⟩
  · rintro ⟨way, v', hv', hfit⟩
    exact ⟨i :: way, v', by rw [BconNeed.below, hlookup, hv']; rfl, hfit⟩
  · rintro w ⟨way, v', hv', hw⟩
    exact ⟨i :: way, v', by rw [BconNeed.below, hlookup, hv']; rfl, hw⟩

/-! ## The loop -/

/-- The strings around the members of a document and the elements of an array. -/
def opener : Bool → Bytes
  | false => [123]
  | true => [91]

def closer : Bool → Bytes
  | false => [125]
  | true => [93]

def nestedType : Bool → BsonType
  | false => .document
  | true => .array

def nestedValue : Bool → Doc → Value
  | false => .document
  | true => .array

/-- How many turns of the loop read the arguments of a pattern. -/
def patternTurns {a : Bool} : BconPattern a → Nat
  | .nil => 0
  | .single _ _ rest => patternTurns rest + 1
  | .document _ child rest => patternTurns child + patternTurns rest + 2
  | .array _ child rest => patternTurns child + patternTurns rest + 2

theorem bracket_length {a : Bool} (name : BconSeek a) (o c : VaArg) (xs ys : List VaArg) :
    xs.length + ys.length + 2 ≤ (name.args ++ (o :: (xs ++ (c :: ys)))).length := by
  simp only [List.length_append, List.length_cons]
  omega

theorem extractU_args_pos (u : BconExtractU) : 0 < u.args.length := by
  cases u <;> simp [BconExtractU.args]

theorem patternTurns_le {a : Bool} (t : BconPattern a) : patternTurns t ≤ t.args.length := by
  induction t with
  | nil => exact Nat.le_refl 0
  | single name u rest ih =>
    have hpos := extractU_args_pos u
    simp only [patternTurns, BconPattern.args, List.length_append]
    omega
  | document name child rest ihc ihr =>
    have hlength := bracket_length name (.str [123]) (.str [125]) child.args rest.args
    rw [patternTurns, BconPattern.args]
    omega
  | array name child rest ihc ihr =>
    have hlength := bracket_length name (.str [91]) (.str [93]) child.args rest.args
    rw [patternTurns, BconPattern.args]
    omega

section Loop

variable (root : BsonIter)

/-- The loop behind a turn. -/
def extractBehind (fuel : Nat) : BconExtractTurn →
    Option (Bool × BconExtractCtx × BconStores × List VaArg)
  | .again ctx stores ap => bconExtractLoop root fuel ctx stores ap
  | .returned r ctx stores ap => some (r, ctx, stores, ap)
  | .aborted => none

theorem extractLoop_succ (fuel : Nat) (ctx : BconExtractCtx) (stores : BconStores)
    (ap : List VaArg) :
    bconExtractLoop root (fuel + 1) ctx stores ap =
      extractBehind root fuel (bconExtractTurn root ctx stores ap) := by
  rw [bconExtractLoop]
  cases bconExtractTurn root ctx stores ap <;> rfl

/-- The turn that reads a name goes on with the value behind it. -/
theorem extractTurn_name {a : Bool} (name : BconSeek a) (i : Nat) (iter : BsonIter)
    (below : List BconExtractFrame) (stores : BconStores) (ap : List VaArg)
    (hi : i < 4294967296) :
    bconExtractTurn root { top := { i := i, isArray := a, iter := iter }, below := below } stores
        (name.args ++ ap) =
      bconExtractValue root (name.text i)
        { top := { i := name.next i, isArray := a, iter := iter }, below := below } stores ap := by
  cases name with
  | key s h =>
    have htoken : bconExtractTokenize (.str s :: ap) = some (.raw s, ap) :=
      congrArg (fun token => some (token, ap)) (extractMark_bare h)
    simp only [bconExtractTurn, BconSeek.args, List.cons_append, List.nil_append, htoken,
      Bool.false_eq_true, if_false, BconSeek.text, BconSeek.next]
  | position =>
    have hindex : u32 i = i := u32_of_lt hi
    simp only [bconExtractTurn, BconSeek.args, List.nil_append, if_true, hindex, BconSeek.text,
      BconSeek.next]

/-- The text of a name can be looked for. -/
theorem name_text {a : Bool} (name : BconSeek a) (hshort : name.Short) (i : Nat)
    (hi : i + 1 < 2147483648) :
    (0 : UInt8) ∉ name.text i ∧ (name.text i).length < 2147483648 := by
  cases name with
  | key s h => exact ⟨not_mem_cText s, hshort⟩
  | position =>
    refine ⟨digitsBefore_noNul _ _ _ List.not_mem_nil, ?_⟩
    have hlength := decimal_length_le i
    simp only [BconSeek.text]
    omega

section Value

variable {root} {d : Doc} {m : Mem} {ctx : BconExtractCtx} (h : Before d m (ctx.child root))
  {key : Bytes} (hnul : (0 : UInt8) ∉ key) (hshort : key.length < 2147483648)
  (stores : BconStores) (ap : List VaArg)

include h hnul hshort

/-- The turn that asks for a value. -/
theorem extractValue_value (u : BconExtractU) :
    (d.find key = none → bconExtractValue root key ctx stores (u.args ++ ap) =
      .returned false ctx stores ap) ∧
    ∀ i v, d.find key = some (i, v) →
      (u.Fits v → ∃ w, u.Stores v w ∧ bconExtractValue root key ctx stores (u.args ++ ap) =
        .again ctx (stores ++ w) ap) ∧
      (¬ u.Fits v → bconExtractValue root key ctx stores (u.args ++ ap) =
        .returned false ctx stores ap) := by
  obtain ⟨hmissing, hfound⟩ := find_before h hnul hshort
  refine ⟨fun hnone => ?_, fun i v hsome => ?_⟩
  · have hfind := hmissing hnone
    simp only [bconExtractValue, extractTokenize_value, hfind, Bool.false_eq_true, if_false]
  · obtain ⟨k, hat⟩ := h.find_at hsome
    obtain ⟨hfits, hmisfit⟩ := extractSingle_at hat u
    have hfind := hfound i v hsome
    refine ⟨fun hfit => ?_, fun hfit => ?_⟩
    · obtain ⟨w, hsingle, hw⟩ := hfits hfit
      refine ⟨w, hw, ?_⟩
      simp only [bconExtractValue, extractTokenize_value, hfind, if_true, hsingle]
    · have hsingle := hmisfit hfit
      simp only [bconExtractValue, extractTokenize_value, hfind, if_true, hsingle]

/-- The turn that opens a document or an array. -/
theorem extractValue_open (b : Bool) (hdepth : ctx.below.length < bconStackMax - 1) :
    (d.find key = none → bconExtractValue root key ctx stores (.str (opener b) :: ap) =
      .returned false ctx stores ap) ∧
    ∀ i v, d.find key = some (i, v) →
      (∀ child, v = nestedValue b child → ∃ m' it, Before child m' it ∧
        bconExtractValue root key ctx stores (.str (opener b) :: ap) =
          .again { top := { i := 0, isArray := b, iter := it }, below := ctx.top :: ctx.below }
            stores ap) ∧
      (v.type ≠ nestedType b → bconExtractValue root key ctx stores (.str (opener b) :: ap) =
        .returned false ctx stores ap) := by
  obtain ⟨hmissing, hfound⟩ := find_before h hnul hshort
  have hdoc : bconExtractTokenize (.str [123] :: ap) = some (.docStart, ap) := rfl
  have harray : bconExtractTokenize (.str [91] :: ap) = some (.arrayStart, ap) := rfl
  refine ⟨fun hnone => ?_, fun i v hsome => ?_⟩
  · have hfind := hmissing hnone
    cases b <;>
      simp only [bconExtractValue, opener, hdoc, harray, hfind, Bool.false_eq_true, if_false]
  · obtain ⟨k, hat⟩ := h.find_at hsome
    have hfind := hfound i v hsome
    have htype := hat.iterType_eq
    refine ⟨fun child hv => ?_, fun hno => ?_⟩
    · obtain ⟨m', it, hrec, hbefore⟩ := hat.recurse (show v = .document child ∨ v = .array child by
        cases b <;> simp [hv, nestedValue])
      refine ⟨m', it, hbefore, ?_⟩
      have hsame : v.type = nestedType b := by
        rw [hv]
        cases b <;> rfl
      cases b <;>
        simp only [bconExtractValue, opener, hdoc, harray, hfind, htype, hsame, nestedType,
          bconExtractPush, hdepth, hrec, if_true]
    · have hne : ¬ some v.type = some (nestedType b) := fun heq => hno (Option.some.inj heq)
      cases b with
      | false =>
        simp only [nestedType] at hne
        simp only [bconExtractValue, opener, hdoc, hfind, htype, hne, if_true, if_false]
      | true =>
        simp only [nestedType] at hne
        simp only [bconExtractValue, opener, harray, hfind, htype, hne, if_true, if_false]

end Value

/-- The turn that closes a document or an array. -/
theorem extractTurn_close (b : Bool) (i : Nat) (iter : BsonIter) (frame : BconExtractFrame)
    (below : List BconExtractFrame) (stores : BconStores) (ap : List VaArg) :
    bconExtractTurn root { top := { i := i, isArray := b, iter := iter }, below := frame :: below }
        stores (.str (closer b) :: ap) =
      .again { top := frame, below := below } stores ap := by
  cases b <;> rfl

/-! ## What a run of the loop gives -/

variable {root}

/-- The run that looks for `needs` and leaves `result`: either every need is answered and it
goes on with the answers as `next` does, or it returns false at the first that is not met,
with the answers before it. -/
def Extracted (d : Doc) (needs : List BconNeed) (stores : BconStores)
    (next : BconStores → Option (Bool × BconExtractCtx × BconStores × List VaArg))
    (result : Option (Bool × BconExtractCtx × BconStores × List VaArg)) : Prop :=
  (∃ parts, List.Forall₂ (BconNeed.Answered d) needs parts ∧
    result = next (stores ++ parts.flatten)) ∨
  ∃ front n back parts, needs = front ++ n :: back ∧
    List.Forall₂ (BconNeed.Answered d) front parts ∧ ¬ n.Met d ∧
    ∃ ctx ap, result = some (false, ctx, stores ++ parts.flatten, ap)

section Runs

variable {d child : Doc} {needs more : List BconNeed} {stores : BconStores}
  {next later : BconStores → Option (Bool × BconExtractCtx × BconStores × List VaArg)}
  {result : Option (Bool × BconExtractCtx × BconStores × List VaArg)}

theorem Extracted.nil : Extracted d [] stores next (next stores) :=
  .inl ⟨[], .nil, by rw [List.flatten_nil, List.append_nil]⟩

theorem Extracted.append (h : Extracted d needs stores next result)
    (hmore : ∀ stores, Extracted d more stores later (next stores)) :
    Extracted d (needs ++ more) stores later result := by
  rcases h with ⟨parts, hparts, rfl⟩ | ⟨front, n, back, parts, rfl, hparts, hmet, hleft⟩
  · rcases hmore (stores ++ parts.flatten) with
      ⟨parts', hparts', heq⟩ | ⟨front, n, back, parts', rfl, hparts', hmet, ctx, ap, heq⟩
    · refine .inl ⟨parts ++ parts', List.rel_append hparts hparts', ?_⟩
      rw [heq, List.flatten_append, List.append_assoc]
    · refine .inr ⟨needs ++ front, n, back, parts ++ parts', (List.append_assoc ..).symm,
        List.rel_append hparts hparts', hmet, ctx, ap, ?_⟩
      rw [heq, List.flatten_append, List.append_assoc]
  · refine .inr ⟨front, n, back ++ more, parts, ?_, hparts, hmet, hleft⟩
    rw [List.append_assoc, List.cons_append]

theorem answered_below {k : Bytes} {i : Nat} {v : Value} (hfind : d.find k = some (i, v))
    (hchild : Doc.nested v = some child) (hpath : ∀ n ∈ needs, n.path ≠ []) {parts : List BconStores}
    (h : List.Forall₂ (BconNeed.Answered child) needs parts) :
    List.Forall₂ (BconNeed.Answered d) (needs.map (BconNeed.below k)) parts := by
  induction h with
  | nil => exact .nil
  | cons hn _ ih =>
    rw [List.map_cons]
    refine .cons ((need_below hfind hchild (hpath _ List.mem_cons_self)).2 _ hn) ?_
    exact ih fun n hn => hpath n (List.mem_cons_of_mem _ hn)

theorem Extracted.below {k : Bytes} {i : Nat} {v : Value} (hfind : d.find k = some (i, v))
    (hchild : Doc.nested v = some child) (hpath : ∀ n ∈ needs, n.path ≠ [])
    (h : Extracted child needs stores next result) :
    Extracted d (needs.map (BconNeed.below k)) stores next result := by
  rcases h with ⟨parts, hparts, heq⟩ | ⟨front, n, back, parts, rfl, hparts, hmet, hleft⟩
  · exact .inl ⟨parts, answered_below hfind hchild hpath hparts, heq⟩
  · have hfront : ∀ n ∈ front, n.path ≠ [] :=
      fun n hn => hpath n (List.mem_append_left _ hn)
    refine .inr ⟨front.map (BconNeed.below k), n.below k, back.map (BconNeed.below k), parts, ?_,
      answered_below hfind hchild hfront hparts, ?_, hleft⟩
    · rw [List.map_append, List.map_cons]
    · rw [(need_below hfind hchild (hpath n (List.mem_append_right _ List.mem_cons_self))).1]
      exact hmet

/-- One need, answered or not met. -/
theorem Extracted.one {n : BconNeed} {w : BconStores} (h : n.Answered d w) :
    Extracted d [n] stores next (next (stores ++ w)) :=
  .inl ⟨[w], .cons h .nil, by rw [List.flatten_singleton]⟩

/-- A need that stores nothing, before the others. -/
theorem Extracted.cons {n : BconNeed} (h : Extracted d needs stores next result)
    (hn : n.Answered d []) : Extracted d (n :: needs) stores next result := by
  rcases h with ⟨parts, hparts, heq⟩ | ⟨front, n', back, parts, rfl, hparts, hmet, hleft⟩
  · refine .inl ⟨[] :: parts, .cons hn hparts, ?_⟩
    rw [heq, List.flatten_cons, List.nil_append]
  · refine .inr ⟨n :: front, n', back, [] :: parts, rfl, .cons hn hparts, hmet, ?_⟩
    rw [List.flatten_cons, List.nil_append]
    exact hleft

theorem Extracted.unmet {n : BconNeed} (h : ¬ n.Met d) (ctx : BconExtractCtx) (ap : List VaArg) :
    Extracted d (n :: needs) stores next (some (false, ctx, stores, ap)) :=
  .inr ⟨[], n, needs, [], rfl, .nil, h, ctx, ap, by rw [List.flatten_nil, List.append_nil]⟩

end Runs

/-- A context whose innermost frame is at position `i`. -/
def ctxAt (a : Bool) (iter : BsonIter) (below : List BconExtractFrame) (i : Nat) : BconExtractCtx :=
  { top := { i := i, isArray := a, iter := iter }, below := below }

theorem extracted_single {a : Bool} {name : BconSeek a} {u : BconExtractU} {rest : BconPattern a}
    {d : Doc} {m : Mem} {i : Nat} {iter : BsonIter} {below : List BconExtractFrame}
    {stores : BconStores} {ap : List VaArg} {fuel : Nat} {later}
    (hname : name.Short) (hi : i + 1 < 2147483648)
    (h : Before d m ((ctxAt a iter below i).child root))
    (hrest : ∀ stores, Extracted d (rest.needs (name.next i)) stores later
      (bconExtractLoop root fuel (ctxAt a iter below (name.next i)) stores (rest.args ++ ap))) :
    Extracted d ((BconPattern.single name u rest).needs i) stores later
      (bconExtractLoop root (fuel + 1) (ctxAt a iter below i) stores
        ((BconPattern.single name u rest).args ++ ap)) := by
  obtain ⟨hnul, hshort⟩ := name_text name hname i hi
  have h' : Before d m ((ctxAt a iter below (name.next i)).child root) := h
  obtain ⟨hmissing, hfound⟩ := extractValue_value h' hnul hshort stores (rest.args ++ ap) u
  rw [extractLoop_succ, BconPattern.args, List.append_assoc, List.append_assoc, ctxAt,
    extractTurn_name root name i iter below stores _ (by omega)]
  rw [BconPattern.needs]
  cases hfind : d.find (name.text i) with
  | none =>
    rw [← ctxAt, hmissing hfind]
    exact .unmet (need_missing hfind u) _ _
  | some found =>
    obtain ⟨j, v⟩ := found
    obtain ⟨hfits, hmisfit⟩ := hfound j v hfind
    obtain ⟨hmet, hanswer⟩ := need_single hfind u
    by_cases hfit : u.Fits v
    · obtain ⟨w, hw, hturn⟩ := hfits hfit
      rw [← ctxAt, hturn]
      exact (Extracted.one (hanswer w hw)).append hrest
    · rw [← ctxAt, hmisfit hfit]
      exact .unmet (fun hno => hfit (hmet.mp hno)) _ _

theorem nestedValue_nested (b : Bool) (child : Doc) :
    Doc.nested (nestedValue b child) = some child ∧
      (nestedValue b child).type = nestedType b := by
  cases b <;> exact ⟨rfl, rfl⟩

/-- A value of the type is a document or an array. -/
theorem nestedValue_of_type {b : Bool} {v : Value} (h : v.type = nestedType b) :
    ∃ child, v = nestedValue b child := by
  cases b with
  | false =>
    cases v with
    | document child => exact ⟨child, rfl⟩
    | _ => cases h
  | true =>
    cases v with
    | array child => exact ⟨child, rfl⟩
    | _ => cases h

theorem extracted_nested {a b : Bool} {name : BconSeek a} {inner : BconPattern b}
    {rest : BconPattern a} {d : Doc} {m : Mem} {i : Nat} {iter : BsonIter}
    {below : List BconExtractFrame} {stores : BconStores} {ap : List VaArg} {fuel : Nat} {later}
    (hname : name.Short) (hi : i + 1 < 2147483648)
    (hdepth : below.length < bconStackMax - 1)
    (h : Before d m ((ctxAt a iter below i).child root))
    (hinner : ∀ child m' it stores, Before child m' it →
      Extracted child (inner.needs 0) stores
        (fun stores => bconExtractLoop root (fuel + 1)
          (ctxAt b it ((ctxAt a iter below (name.next i)).top :: below) (inner.stop 0)) stores
          (.str (closer b) :: (rest.args ++ ap)))
        (bconExtractLoop root (patternTurns inner + (fuel + 1))
          (ctxAt b it ((ctxAt a iter below (name.next i)).top :: below) 0) stores
          (inner.args ++ (.str (closer b) :: (rest.args ++ ap)))))
    (hrest : ∀ stores, Extracted d (rest.needs (name.next i)) stores later
      (bconExtractLoop root fuel (ctxAt a iter below (name.next i)) stores (rest.args ++ ap))) :
    Extracted d ({ path := [name.text i], u := .skip (nestedType b) } ::
        ((inner.needs 0).map (BconNeed.below (name.text i)) ++ rest.needs (name.next i))) stores later
      (bconExtractLoop root (patternTurns inner + (fuel + 1) + 1) (ctxAt a iter below i) stores
        (name.args ++ (.str (opener b) :: (inner.args ++ (.str (closer b) ::
          (rest.args ++ ap)))))) := by
  obtain ⟨hnul, hshort⟩ := name_text name hname i hi
  have h' : Before d m ((ctxAt a iter below (name.next i)).child root) := h
  obtain ⟨hmissing, hfound⟩ := extractValue_open h' hnul hshort stores
    (inner.args ++ (.str (closer b) :: (rest.args ++ ap))) b hdepth
  rw [extractLoop_succ, ctxAt, extractTurn_name root name i iter below stores _ (by omega), ← ctxAt]
  cases hfind : d.find (name.text i) with
  | none =>
    rw [hmissing hfind]
    exact .unmet (need_missing hfind _) _ _
  | some found =>
    obtain ⟨j, v⟩ := found
    obtain ⟨hopen, hmisfit⟩ := hfound j v hfind
    obtain ⟨hmet, hanswer⟩ := need_single hfind (.skip (nestedType b))
    by_cases htype : v.type = nestedType b
    · obtain ⟨child, rfl⟩ := nestedValue_of_type htype
      obtain ⟨m', it, hbefore, hturn⟩ := hopen child rfl
      rw [hturn]
      have hsome := hinner child m' it stores hbefore
      have hclose : ∀ stores, bconExtractLoop root (fuel + 1)
          (ctxAt b it ((ctxAt a iter below (name.next i)).top :: below) (inner.stop 0)) stores
          (.str (closer b) :: (rest.args ++ ap)) =
          bconExtractLoop root fuel (ctxAt a iter below (name.next i)) stores (rest.args ++ ap) := by
        intro stores
        rw [extractLoop_succ, ctxAt, extractTurn_close]
        rfl
      simp only [hclose] at hsome
      have hskip : (BconExtractU.skip (nestedType b)).Stores (nestedValue b child) [] :=
        ⟨htype, rfl⟩
      have hbelow := hsome.below hfind (nestedValue_nested b child).1 (needs_path inner 0)
      exact (hbelow.append hrest).cons (hanswer [] hskip)
    · rw [hmisfit htype]
      refine .unmet (fun hno => htype ?_) _ _
      rcases hmet.mp hno with hany | hsame
      · cases hany
      · exact (Option.some.inj hsame).symm

/-- The positions stay below the number of the arguments. -/
theorem seek_next_le {a : Bool} (name : BconSeek a) (i : Nat) : name.next i ≤ i + 1 := by
  cases name with
  | key s h => exact Nat.le_succ i
  | position => exact Nat.le_refl _

theorem ctxAt_child (b : Bool) (it : BsonIter) (frame : BconExtractFrame)
    (below : List BconExtractFrame) (i : Nat) :
    (ctxAt b it (frame :: below) i).child root = it :=
  if_neg (List.cons_ne_nil _ _)

/-- The run over the arguments of a pattern. -/
theorem extracted_tree {a : Bool} (t : BconPattern a) {d : Doc} {m : Mem} {i : Nat}
    {iter : BsonIter} {below : List BconExtractFrame} {stores : BconStores} {ap : List VaArg}
    {fuel : Nat} (hshort : t.Short) (hi : i + t.args.length < 2147483648)
    (hdepth : below.length + t.depth < bconStackMax)
    (h : Before d m ((ctxAt a iter below i).child root)) :
    Extracted d (t.needs i) stores
      (fun stores => bconExtractLoop root fuel (ctxAt a iter below (t.stop i)) stores ap)
      (bconExtractLoop root (patternTurns t + fuel) (ctxAt a iter below i) stores
        (t.args ++ ap)) := by
  induction t generalizing d m i iter below stores ap fuel with
  | nil =>
    rw [patternTurns, Nat.zero_add]
    exact .nil
  | single name u rest ih =>
    obtain ⟨hname, hrest⟩ := hshort
    have hpos := extractU_args_pos u
    have hnext := seek_next_le name i
    simp only [BconPattern.args, List.length_append] at hi
    have hturns : patternTurns (.single name u rest) + fuel = patternTurns rest + fuel + 1 := by
      rw [patternTurns]
      omega
    rw [hturns]
    exact extracted_single hname (by omega) h fun stores => ih hrest (by omega) hdepth h
  | document name child rest ihc ihr =>
    obtain ⟨hname, hchild, hrest⟩ := hshort
    have hnext := seek_next_le name i
    have hlength := bracket_length name (.str [123]) (.str [125]) child.args rest.args
    rw [BconPattern.args] at hi
    rw [BconPattern.depth] at hdepth
    have hturns : patternTurns (.document name child rest) + fuel =
        patternTurns child + (patternTurns rest + fuel + 1) + 1 := by
      rw [patternTurns]
      omega
    rw [hturns, BconPattern.args]
    simp only [List.append_assoc, List.cons_append]
    refine extracted_nested (b := false) hname (by omega) (by omega) h
      (fun inner m' it stores hbefore => ?_) fun stores => ihr hrest (by omega) (by omega) h
    refine ihc (m := m') hchild (by omega) ?_ ?_
    · rw [List.length_cons]
      omega
    · rw [ctxAt_child]
      exact hbefore
  | array name child rest ihc ihr =>
    obtain ⟨hname, hchild, hrest⟩ := hshort
    have hnext := seek_next_le name i
    have hlength := bracket_length name (.str [91]) (.str [93]) child.args rest.args
    rw [BconPattern.args] at hi
    rw [BconPattern.depth] at hdepth
    have hturns : patternTurns (.array name child rest) + fuel =
        patternTurns child + (patternTurns rest + fuel + 1) + 1 := by
      rw [patternTurns]
      omega
    rw [hturns, BconPattern.args]
    simp only [List.append_assoc, List.cons_append]
    refine extracted_nested (b := true) hname (by omega) (by omega) h
      (fun inner m' it stores hbefore => ?_) fun stores => ihr hrest (by omega) (by omega) h
    refine ihc (m := m') hchild (by omega) ?_ ?_
    · rw [List.length_cons]
      omega
    · rw [ctxAt_child]
      exact hbefore

end Loop

end LibBson.Source
