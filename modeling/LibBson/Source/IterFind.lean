import LibBson.Source.IterTimes
import LibBson.Source.Visit
import LibBson.Spec.Lookup

/-!
# Finding an element by its key

Source: bson-iter.c:255-397, bson-iter.c:81-111, bson.c:2426-2441. A key is the text in
front of its NUL. `strncmp` takes its length as a `size_t`, and the length of a segment is
cast to `int` before it gets there.
-/

set_option autoImplicit false

namespace LibBson.Source
open LibBson.Library LibBson.Spec

/-- `0 == strncmp (s, t, n)` -/
def strncmpEq (s t : Mem) : Nat → Bool
  | 0 => true
  | n + 1 => s 0 == t 0 && (s 0 == 0 || strncmpEq (s.shift 1) (t.shift 1) n)

/-- The comparison of `_bson_iter_find_with_len`. -/
def keyMatches (it : BsonIter) (key : Bytes) (keylen : Int) : Bool :=
  strncmpEq (Mem.ofBytes key) (it.mem.shift it.key) (ofInt64 keylen) &&
    it.mem (it.key + keylen).toNat == 0

/-- The loop of `_bson_iter_find_with_len`. -/
def findLoop (key : Bytes) (keylen : Int) : Nat → BsonIter → Bool × BsonIter
  | 0, it => (false, it)
  | fuel + 1, it =>
    let (more, it) := bsonIterNext it
    if more then
      if keyMatches it key keylen then (true, it) else findLoop key keylen fuel it
    else (false, it)

/-- `_bson_iter_find_with_len` -/
def bsonIterFindWithLen (it : BsonIter) (key : Bytes) (keylen : Int) : Bool × BsonIter :=
  if keylen = 0 then (false, it)
  else findLoop key (if keylen < 0 then i32 key.length else keylen) (it.len + 1) it

def bsonIterFind (it : BsonIter) (key : Bytes) : Bool × BsonIter := bsonIterFindWithLen it key (-1)

def bsonIterInitFind (bson : BsonRef) (key : Bytes) : Bool :=
  (bsonIterInit bson).1 && (bsonIterFind (bsonIterInit bson).2 key).1

/-- The part of a dotted key in front of the first dot. -/
def firstSegment (dotkey : Bytes) : Bytes := dotkey.takeWhile (· ≠ 46)

/-- `*descendant` where the function returns true. -/
def bsonIterFindDescendant (it : BsonIter) (dotkey : Bytes) : Option BsonIter :=
  let sublen := (firstSegment dotkey).length
  let (found, it) := bsonIterFindWithLen it dotkey (i32 sublen)
  if found then
    if sublen < dotkey.length then
      match bsonIterRecurse it with
      | some tmp => bsonIterFindDescendant tmp (dotkey.drop (sublen + 1))
      | none => none
    else some it
  else none
termination_by dotkey.length
decreasing_by
  rw [List.length_drop]
  omega

def bsonHasField (bson : BsonRef) (key : Bytes) : Bool :=
  if 46 ∈ key then
    (bsonIterInit bson).1 && (bsonIterFindDescendant (bsonIterInit bson).2 key).isSome
  else bsonIterInitFind bson key

/-! ## The comparison -/

/-- Two strings are the same as far as `n` octets go. -/
theorem strncmpEq_iff {s t : Bytes} {m m' : Mem} (n : Nat) (hs : 0 ∉ s) (ht : 0 ∉ t)
    (hm : Holds m 0 (s ++ [0])) (hm' : Holds m' 0 (t ++ [0])) :
    strncmpEq m m' n = true ↔ s.take n = t.take n := by
  induction n generalizing s t m m' with
  | zero => simp [strncmpEq]
  | succ n ih =>
    cases s with
    | nil =>
      rw [List.nil_append, holds_cons] at hm
      cases t with
      | nil =>
        rw [List.nil_append, holds_cons] at hm'
        simp [strncmpEq, hm.1, hm'.1]
      | cons b t =>
        rw [List.cons_append, holds_cons] at hm'
        have hne : b ≠ 0 := fun h => ht (h ▸ List.mem_cons_self)
        simp [strncmpEq, hm.1, hm'.1, hne.symm]
    | cons a s =>
      rw [List.cons_append, holds_cons] at hm
      have hne : a ≠ 0 := fun h => hs (h ▸ List.mem_cons_self)
      cases t with
      | nil =>
        rw [List.nil_append, holds_cons] at hm'
        simp [strncmpEq, hm.1, hm'.1, hne]
      | cons b t =>
        rw [List.cons_append, holds_cons] at hm'
        have hih : strncmpEq (m.shift 1) (m'.shift 1) n = true ↔ s.take n = t.take n :=
          ih (fun h => hs (List.mem_cons_of_mem a h)) (fun h => ht (List.mem_cons_of_mem b h))
            ((holds_shift m 1 0 _).mpr hm.2) ((holds_shift m' 1 0 _).mpr hm'.2)
        rw [strncmpEq, hm.1, hm'.1, List.take_succ_cons, List.take_succ_cons, List.cons.injEq, ← hih]
        simp [hne]

/-- The key that the loop is after, with the length it is given: `none` when there is no
such key. -/
def soughtKey (key : Bytes) (keylen : Int) : Option Bytes :=
  if keylen < 0 then none else some (key.take keylen.toNat)

/-- The comparison holds on the elements with the sought key. -/
theorem keyMatches_iff {it : BsonIter} {k : CStr} {key : Bytes} {keylen : Int}
    (hk : Holds it.mem it.key (k.bytes ++ [0])) (hshort : k.bytes.length < 2147483648)
    (hkey : 0 ∉ key) (hlen : keylen ≤ key.length)
    (hlo : -2147483648 ≤ keylen) (hhi : keylen < 2147483648)
    (hlong : keylen < 0 → 2147483648 ≤ key.length) :
    keyMatches it key keylen = true ↔ soughtKey key keylen = some k.bytes := by
  have hcmp : strncmpEq (Mem.ofBytes key) (it.mem.shift it.key) (ofInt64 keylen) = true ↔
      key.take (ofInt64 keylen) = k.bytes.take (ofInt64 keylen) := by
    apply strncmpEq_iff _ hkey k.noNul
    · rw [holds_append, holds_cons, Nat.zero_add]
      exact ⟨holds_ofBytes key, by simp [Mem.ofBytes], holds_nil _ _⟩
    · rwa [holds_shift]
  rw [holds_append, holds_cons] at hk
  obtain ⟨hchars, hnul, -⟩ := hk
  rw [keyMatches, Bool.and_eq_true, hcmp, soughtKey, beq_iff_eq]
  by_cases hneg : keylen < 0
  · -- A text of 2^31 octets or more is compared as a whole.
    have hword : 2147483648 ≤ ofInt64 keylen := by
      unfold ofInt64
      omega
    have hkeylen := hlong hneg
    rw [if_pos hneg]
    constructor
    · intro h
      have hlens := congrArg List.length h.1
      rw [List.length_take, List.length_take] at hlens
      omega
    · exact fun h => (nomatch h)
  · obtain ⟨n, rfl⟩ := Int.eq_ofNat_of_zero_le (Int.not_lt.mp hneg)
    have hword : ofInt64 (n : Int) = n := by
      unfold ofInt64
      omega
    have hoff : ((it.key : Int) + (n : Int)).toNat = it.key + n := by omega
    have htake : (key.take n).length = n := by
      rw [List.length_take]
      omega
    rw [if_neg hneg, hword, hoff, Int.toNat_natCast, Option.some.injEq]
    constructor
    · intro h
      obtain ⟨heq, hend⟩ := h
      have hle : n ≤ k.bytes.length := by
        have hlens := congrArg List.length heq
        rw [htake, List.length_take] at hlens
        omega
      have hall : k.bytes.length ≤ n := by
        by_contra hlt
        have hbyte := hchars.get n (Nat.not_le.mp hlt)
        rw [hend] at hbyte
        exact k.noNul (hbyte ▸ List.getElem_mem _)
      rw [heq, List.take_of_length_le hall]
    · intro h
      have hlenk : k.bytes.length = n := by rw [← h, htake]
      rw [hlenk] at hnul
      exact ⟨by rw [h, List.take_of_length_le (by omega)], hnul⟩

/-! ## The loop -/

theorem fieldCount_le (d : Doc) : fieldCount d ≤ d.body.length := by
  match d with
  | .nil => exact Nat.zero_le _
  | .cons key v rest =>
    have hrest := fieldCount_le rest
    rw [fieldCount, Doc.body_cons, List.length_append, List.length_append, header_length]
    omega

section Loop

variable {key : Bytes} {keylen : Int} (hkey : 0 ∉ key) (hlen : keylen ≤ key.length)
  (hlo : -2147483648 ≤ keylen) (hhi : keylen < 2147483648)
  (hlong : keylen < 0 → 2147483648 ≤ key.length)

include hkey hlen hlo hhi hlong

/-- The loop stops on the first element with the sought key. -/
theorem findLoop_yields (d : Doc) {it : BsonIter} {fuel : Nat} (h : Yields d it)
    (hfuel : fieldCount d < fuel) (hsmall : d.body.length < 2147483648) :
    match (soughtKey key keylen).bind d.find with
    | none => (findLoop key keylen fuel it).1 = false
    | some (i, _) => findLoop key keylen fuel it = (true, it.stepped (i + 1)) := by
  obtain ⟨fuel, rfl⟩ := Nat.exists_eq_succ_of_ne_zero (Nat.ne_zero_of_lt hfuel)
  match d with
  | .nil =>
    rw [Yields] at h
    have hfind : (soughtKey key keylen).bind Doc.nil.find = none := by
      cases soughtKey key keylen <;> rfl
    rw [hfind, findLoop, bsonIterNext, h.1]
    rfl
  | .cons k v rest =>
    rw [Yields] at h
    obtain ⟨hok, hk, -, -, hrest⟩ := h
    rw [fieldCount] at hfuel
    rw [Doc.body_cons, List.length_append, List.length_append, header_length] at hsmall
    have hmatch := keyMatches_iff hk (by omega) hkey hlen hlo hhi hlong
    have hnext : bsonIterNext it = (true, (bsonIterNext it).2) := by rw [bsonIterNext, hok]
    rw [findLoop, hnext]
    dsimp only
    rw [if_pos rfl]
    by_cases hsought : soughtKey key keylen = some k.bytes
    · rw [if_pos (hmatch.mpr hsought), hsought, Option.bind_some, Doc.find_cons_eq rfl]
      rfl
    · have hgo : ¬ keyMatches (bsonIterNext it).2 key keylen = true := fun h => hsought (hmatch.mp h)
      have ih := findLoop_yields rest hrest (by omega : fieldCount rest < fuel) (by omega)
      have hfind : (soughtKey key keylen).bind (Doc.cons k v rest).find =
          ((soughtKey key keylen).bind rest.find).map fun found => (found.1 + 1, found.2) := by
        cases hs : soughtKey key keylen with
        | none => rfl
        | some s =>
          rw [hs] at hsought
          exact Doc.find_cons_ne fun heq => hsought (congrArg some heq.symm)
      rw [if_neg hgo, hfind]
      cases hrestFind : (soughtKey key keylen).bind rest.find with
      | none =>
        rw [hrestFind] at ih
        exact ih
      | some found =>
        rw [hrestFind] at ih
        exact ih

end Loop

/-! ## The descent -/

/-- The iterator on the element that the indices lead to. -/
def BsonIter.descend : List Nat → BsonIter → Option BsonIter
  | [], _ => none
  | i :: path, it =>
    if path = [] then some (it.stepped (i + 1))
    else (bsonIterRecurse (it.stepped (i + 1))).bind (BsonIter.descend path)

/-- An iterator in front of the elements of `d`, of which no key fills an `int`. -/
structure Opens (d : Doc) (it : BsonIter) : Prop where
  yields : Yields d it
  room : d.body.length ≤ it.len
  small : d.body.length < 2147483648

/-- What stands where the loop stops. -/
theorem find_reads {d : Doc} {it : BsonIter} {k : Bytes} {i : Nat} {v : Value} (h : Yields d it)
    (hfind : d.find k = some (i, v)) :
    iterType (it.stepped (i + 1)) = some v.type ∧ Reads v (it.stepped (i + 1)) := by
  match d with
  | .nil => cases hfind
  | .cons key w rest =>
    rw [Yields] at h
    obtain ⟨-, -, htype, hreads, hrest⟩ := h
    by_cases hk : key.bytes = k
    · rw [Doc.find_cons_eq hk, Option.some.injEq, Prod.mk.injEq] at hfind
      obtain ⟨rfl, rfl⟩ := hfind
      exact ⟨htype, hreads⟩
    · rw [Doc.find_cons_ne hk] at hfind
      obtain ⟨⟨j, u⟩, hj, heq⟩ := Option.map_eq_some_iff.mp hfind
      cases heq
      have ih := find_reads hrest hj
      exact ih

/-- Recursing opens a document or an array, and nothing else. -/
theorem recurse_opens {d : Doc} {it : BsonIter} {k : Bytes} {i : Nat} {v : Value} (h : Opens d it)
    (hfind : d.find k = some (i, v)) :
    match Doc.nested v with
    | none => bsonIterRecurse (it.stepped (i + 1)) = none
    | some child => ∃ it', bsonIterRecurse (it.stepped (i + 1)) = some it' ∧ Opens child it' := by
  obtain ⟨htype, hreads⟩ := find_reads h.yields hfind
  have hsize := Doc.find_length hfind
  have hsmall := h.small
  -- The child is as long as its length word says.
  have hchild : ∀ {child : Doc} {it' : BsonIter} {p : Slice}, Doc.nested v = some child →
      (it.stepped (i + 1)).mem.slice p.off p.len = frame child.body → it'.len = p.len →
      Yields child it' → Opens child it' := by
    intro child it' p hv hslice hlen hy
    have hbody := Doc.nested_length hv
    have hp := congrArg List.length hslice
    rw [Mem.slice_length, frame_length] at hp
    exact ⟨hy, by omega, by omega⟩
  cases v with
  | document child =>
    obtain ⟨⟨p, hp, hslice⟩, it', hrec, hy⟩ := hreads
    have hit' := hrec
    rw [bsonIterRecurse, htype] at hit'
    simp only [Value.type, hp, Option.map_some, Option.some.injEq] at hit'
    exact ⟨it', hrec, hchild rfl hslice (by rw [← hit']; rfl) hy⟩
  | array child =>
    obtain ⟨⟨p, hp, hslice⟩, it', hrec, hy⟩ := hreads
    have hit' := hrec
    rw [bsonIterRecurse, htype] at hit'
    simp only [Value.type, hp, Option.map_some, Option.some.injEq] at hit'
    exact ⟨it', hrec, hchild rfl hslice (by rw [← hit']; rfl) hy⟩
  | double | utf8 | binary | undefined | oid | bool | dateTime | null | regex | dbpointer | code
  | symbol | codewscope | int32 | timestamp | int64 | decimal128 | maxkey | minkey =>
    simp only [Doc.nested]
    rw [bsonIterRecurse, htype]
    rfl

/-- The keys that the descent looks for, segment by segment. -/
def soughtPath (dotkey : Bytes) : Option (List Bytes) :=
  let sublen := (firstSegment dotkey).length
  let keylen := i32 sublen
  if keylen = 0 then none
  else
    match soughtKey dotkey (if keylen < 0 then i32 dotkey.length else keylen) with
    | none => none
    | some k =>
      if sublen < dotkey.length then (soughtPath (dotkey.drop (sublen + 1))).map (k :: ·)
      else some [k]
termination_by dotkey.length
decreasing_by
  rw [List.length_drop]
  omega

theorem le_of_i32_neg {n : Nat} (h : i32 n < 0) : 2147483648 ≤ n := by
  unfold i32 at h
  split at h <;> omega

/-- A call of `_bson_iter_find_with_len`, with the key it looks for. -/
theorem findWithLen_opens {d : Doc} {it : BsonIter} {key : Bytes} {n : Nat} (hopen : Opens d it)
    (hnul : 0 ∉ key) (hn : n ≤ key.length) (hne : i32 n ≠ 0) :
    match (soughtKey key (if i32 n < 0 then i32 key.length else i32 n)).bind d.find with
    | none => (bsonIterFindWithLen it key (i32 n)).1 = false
    | some (i, _) => bsonIterFindWithLen it key (i32 n) = (true, it.stepped (i + 1)) := by
  have hcount := fieldCount_le d
  have hroom := hopen.room
  have hle := i32_le n
  have hle' := i32_le key.length
  obtain ⟨hlo, hhi⟩ := i32_bounds n
  obtain ⟨hlo', hhi'⟩ := i32_bounds key.length
  rw [bsonIterFindWithLen, if_neg hne]
  refine findLoop_yields hnul ?_ ?_ ?_ ?_ d hopen.yields (by omega) hopen.small
  · split <;> omega
  · split <;> omega
  · split <;> omega
  · intro hneg
    split at hneg
    · exact le_of_i32_neg hneg
    · omega

theorem soughtPath_ne_nil {dotkey : Bytes} {path : List Bytes} (h : soughtPath dotkey = some path) :
    path ≠ [] := by
  rw [soughtPath] at h
  split at h
  · cases h
  · split at h
    · cases h
    next k _ =>
      split at h
      · obtain ⟨path', -, rfl⟩ := Option.map_eq_some_iff.mp h
        exact List.cons_ne_nil k path'
      · cases h
        exact List.cons_ne_nil k []

/-- The descent finds what the document has at the path it looks for. -/
theorem findDescendant_eq (dotkey : Bytes) {d : Doc} {it : BsonIter} (hopen : Opens d it)
    (hnul : 0 ∉ dotkey) :
    bsonIterFindDescendant it dotkey =
      ((soughtPath dotkey).bind fun path => d.lookup path).bind fun found => it.descend found.1 := by
  have hsub : (firstSegment dotkey).length ≤ dotkey.length := (List.takeWhile_prefix _).length_le
  rw [bsonIterFindDescendant, soughtPath]
  dsimp only
  by_cases hzero : i32 (firstSegment dotkey).length = 0
  · rw [if_pos hzero, hzero]
    rfl
  · have hfound := findWithLen_opens hopen hnul hsub hzero
    rw [if_neg hzero]
    generalize soughtKey dotkey (if i32 (firstSegment dotkey).length < 0 then i32 dotkey.length
      else i32 (firstSegment dotkey).length) = sought at hfound ⊢
    cases sought with
    | none =>
      rw [Option.bind_none] at hfound
      dsimp only at hfound ⊢
      rw [hfound]
      rfl
    | some k =>
      rw [Option.bind_some] at hfound
      dsimp only
      cases hfind : d.find k with
      | none =>
        rw [hfind] at hfound
        dsimp only at hfound
        have hnowhere : ∀ path : Option (List Bytes), (∀ p ∈ path, ∃ rest, p = k :: rest) →
            path.bind (fun path => d.lookup path) = none := by
          intro path hhead
          cases path with
          | none => rfl
          | some p =>
            obtain ⟨rest, rfl⟩ := hhead p rfl
            exact Doc.lookup_find_none hfind
        rw [hfound, hnowhere]
        · rfl
        · intro p hp
          split at hp
          · obtain ⟨rest, -, rfl⟩ := Option.map_eq_some_iff.mp hp
            exact ⟨rest, rfl⟩
          · cases hp
            exact ⟨[], rfl⟩
      | some found =>
        obtain ⟨i, v⟩ := found
        rw [hfind] at hfound
        dsimp only at hfound
        rw [hfound]
        dsimp only
        rw [if_pos rfl]
        by_cases hdot : (firstSegment dotkey).length < dotkey.length
        · have hrec := recurse_opens hopen hfind
          rw [if_pos hdot, if_pos hdot]
          cases hnested : Doc.nested v with
          | none =>
            rw [hnested] at hrec
            dsimp only at hrec
            rw [hrec]
            cases hpath : soughtPath (dotkey.drop ((firstSegment dotkey).length + 1)) with
            | none => rfl
            | some path =>
              rw [Option.map_some, Option.bind_some, Doc.lookup_cons hfind (soughtPath_ne_nil hpath),
                hnested]
              rfl
          | some child =>
            rw [hnested] at hrec
            obtain ⟨it', hrec, hopen'⟩ := hrec
            have ih := findDescendant_eq (dotkey.drop ((firstSegment dotkey).length + 1)) hopen'
              fun h => hnul (List.mem_of_mem_drop h)
            rw [hrec]
            dsimp only
            rw [ih]
            cases hpath : soughtPath (dotkey.drop ((firstSegment dotkey).length + 1)) with
            | none => rfl
            | some path =>
              rw [Option.map_some, Option.bind_some, Option.bind_some,
                Doc.lookup_cons hfind (soughtPath_ne_nil hpath), hnested, Option.bind_some]
              cases hlookup : child.lookup path with
              | none => rfl
              | some found =>
                rw [Option.map_some, Option.bind_some, Option.bind_some, BsonIter.descend,
                  if_neg (Doc.lookup_way hlookup), hrec, Option.bind_some]
        · rw [if_neg hdot, if_neg hdot, Option.bind_some, Doc.lookup_single hfind, Option.bind_some]
          rfl
termination_by dotkey.length
decreasing_by
  rw [List.length_drop]
  omega

/-- The way to an element ends on it. -/
theorem descend_reads {path : List Bytes} {d : Doc} {it : BsonIter} {way : List Nat} {v : Value}
    (hopen : Opens d it) (h : d.lookup path = some (way, v)) :
    ∃ e, it.descend way = some e ∧ iterType e = some v.type ∧ Reads v e := by
  induction path generalizing d it way with
  | nil => cases h
  | cons k path ih =>
    cases hfind : d.find k with
    | none =>
      rw [Doc.lookup_find_none hfind] at h
      cases h
    | some p =>
      obtain ⟨i, w⟩ := p
      by_cases hpath : path = []
      · rw [hpath, Doc.lookup_single hfind, Option.some.injEq, Prod.mk.injEq] at h
        obtain ⟨rfl, rfl⟩ := h
        exact ⟨_, rfl, find_reads hopen.yields hfind⟩
      · rw [Doc.lookup_cons hfind hpath] at h
        obtain ⟨child, hnested, h⟩ := Option.bind_eq_some_iff.mp h
        obtain ⟨found, hfound, heq⟩ := Option.map_eq_some_iff.mp h
        cases heq
        have hrec := recurse_opens hopen hfind
        rw [hnested] at hrec
        obtain ⟨it', hrec, hopen'⟩ := hrec
        obtain ⟨e, he, hreads⟩ := ih hopen' hfound
        refine ⟨e, ?_, hreads⟩
        rw [BsonIter.descend, if_neg (Doc.lookup_way hfound), hrec, Option.bind_some, he]

end LibBson.Source
