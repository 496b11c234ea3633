import LibBson.Source.JsonDocs
import LibBson.Source.OpenChain

/-!
# The documents behind the stack

`Placed` says which documents are open: one for the caller and one for each
`$scope` or `$dbPointer` frame, with a child for every other frame above it. A call
of a callback on documents that are placed returns, with the documents that belong
to the stack behind it. Source: bson-json.c:264-378, 1386-1490; bson.c:84-186, 433-565.
-/

set_option autoImplicit false

namespace LibBson.Source
open LibBson.Library

section Chains

variable {fresh : Nat → Mem}

/-- A child can be begun: an inline document is not longer than its 120 octets, and the
empty child under its key fits below 1 GiB. -/
def Chain.roomForChild (c : Chain) (key : Bytes) (keyLength : Int) : Prop :=
  (c.isInline = true → c.bson.len ≤ 120) ∧
    c.bson.offset + c.bson.len + (2 + keySize key keyLength + 5) + c.bson.depth ≤ 1073741824

theorem appendChild_returns {t : BsonType} {key : Bytes} {keyLength : Int} {c : Chain}
    (hgrow : c.growable = true) (hheap : c.isInline = false)
    (hsize : c.bson.offset + c.bson.len + (2 + keySize key keyLength + 5) + c.bson.depth ≤
      1073741824) :
    ∃ c', appendChild fresh t key keyLength c = .ok c' ∧ c'.growable = true ∧
      c'.parents.length = c.parents.length + 1 := by
  have hn := begin_nBytes t key keyLength
  rw [begin_size, u32_of_lt (by omega)] at hn
  obtain ⟨c1, h1, hg1, hi1⟩ := bsonGrow_some fresh (2 + keySize key keyLength + 5) hgrow
    (by omega) hsize
  obtain ⟨hbson, hparents, -⟩ := bsonGrow_keeps h1
  rw [hheap, Bool.false_and] at hi1
  have hmax : ¬ 2 + keySize key keyLength + 5 > u64sub bsonMaxSize c.bson.len := by
    unfold bsonMaxSize
    rw [u64sub_of_le (by omega) (by omega)]
    omega
  rw [appendChild, bsonAppendInternal, hn, if_neg hmax, h1]
  cases c1 with
  | inline data len => cases hi1
  | alloc buf buflen realloc bson parents =>
    refine ⟨_, rfl, hg1, ?_⟩
    rw [← hparents]
    rfl

variable (fresh) in
/-- With room the begin of a child returns true. -/
theorem bsonAppendBegin_returns (t : BsonType) {key : Bytes} {keyLength : Int} {c : Chain}
    (hgrow : c.growable = true) (hroom : c.roomForChild key keyLength) :
    ∃ c', bsonAppendBegin fresh t key keyLength c = .ok c' ∧ c'.growable = true ∧
      c'.parents.length = c.parents.length + 1 := by
  obtain ⟨hinline, hsize⟩ := hroom
  rw [bsonAppendBegin_eq]
  cases hi : c.isInline with
  | false => exact appendChild_returns hgrow hi hsize
  | true =>
    have hlen := hinline hi
    have hsub : u32sub 128 c.bson.len = 128 - c.bson.len := u32sub_of_le (by omega) (by omega)
    have hzero : c.bson.offset = 0 ∧ c.bson.depth = 0 := by
      cases c with
      | inline data len => exact ⟨rfl, rfl⟩
      | alloc buf buflen realloc bson parents => cases hi
    obtain ⟨c1, h1, hg1, hi1⟩ := bsonGrow_some fresh (u32sub 128 c.bson.len) hgrow (by omega)
      (by omega)
    obtain ⟨hbson, hparents, -⟩ := bsonGrow_keeps h1
    have hheap : c1.isInline = false := by
      rw [hi1, hsub, hi, Bool.true_and, decide_eq_false_iff_not]
      omega
    rw [← hbson] at hsize
    obtain ⟨c2, h2, hg2, hlen2⟩ := appendChild_returns (t := t) hg1 hheap hsize
    rw [hparents] at hlen2
    simp only [if_true, if_neg (Nat.not_lt.mpr hlen), h1, hheap, Bool.false_eq_true, if_false]
    exact ⟨c2, h2, hg2, hlen2⟩

/-- An open child can be ended. -/
theorem bsonAppendBsonEnd_returns {c : Chain} {n : Nat} (hgrow : c.growable = true)
    (hparents : c.parents.length = n + 1) :
    ∃ c', bsonAppendBsonEnd c = .ok c' ∧ c'.growable = true ∧ c'.parents.length = n := by
  cases c with
  | inline data len => cases hparents
  | alloc buf buflen realloc child parents =>
    cases parents with
    | nil => cases hparents
    | cons bson parents => exact ⟨_, rfl, hgrow, Nat.succ.inj hparents⟩

end Chains

namespace JsonDocs

/-- A document with `n` open children that may grow. -/
def OpenAt (o : Option Chain) (n : Nat) : Prop :=
  ∃ c, o = some c ∧ c.growable = true ∧ c.parents.length = n

/-- The open documents from the innermost on have this many open children. -/
def Placed (d : JsonDocs) (children : List Nat) : Prop := List.Forall₂ OpenAt d.opened children

theorem Placed.innermost {d : JsonDocs} {n : Nat} {ns : List Nat} (h : d.Placed (n :: ns)) :
    ∃ c, d.innermost = some c ∧ c.growable = true ∧ c.parents.length = n ∧
      List.Forall₂ OpenAt d.opened.tail ns := by
  unfold Placed at h
  unfold JsonDocs.innermost
  cases hopened : d.opened with
  | nil => rw [hopened] at h; cases h
  | cons o os =>
    rw [hopened] at h
    cases h with
    | cons hhead htail =>
      obtain ⟨c, rfl, hgrow, hlen⟩ := hhead
      exact ⟨c, rfl, hgrow, hlen, htail⟩

/-- Leaving a slot does not touch the open documents. -/
theorem Placed.setLeft {d : JsonDocs} {ns : List Nat} (h : d.Placed ns) (slot : Nat)
    (b : JsonSlot) : (d.setLeft slot b).Placed ns := h

theorem Placed.counted {d : JsonDocs} {ns : List Nat} (h : d.Placed ns) : d.counted.Placed ns := h

section Exec

variable {fresh : Nat → Nat → Mem} {d : JsonDocs} {n : Nat} {ns : List Nat}

theorem append_returns (h : d.Placed (n :: ns)) (fresh : Nat → Mem) (key : Bytes) (keyLength : Int)
    (f : Field) (failure : Option (List Bytes)) :
    ∃ d' m, d.append fresh (some key) keyLength f failure = .ok (d', m) ∧ d'.Placed (n :: ns) := by
  obtain ⟨c, hc, hgrow, hlen, htail⟩ := h.innermost
  obtain ⟨c', hchain, hparents, hgrowable⟩ :=
    bsonAppendCall_returns fresh c (.field key keyLength f)
  have hplaced : (d.replace c').Placed (n :: ns) :=
    .cons ⟨c', rfl, hgrowable.trans hgrow, hparents ▸ hlen⟩ htail
  simp only [JsonDocs.append, call, hc]
  cases hout : bsonAppendCall fresh c (.field key keyLength f) with
  | ok c1 =>
    rw [hout] at hchain
    cases hchain
    exact ⟨_, _, rfl, hplaced⟩
  | failed c1 =>
    rw [hout] at hchain
    cases hchain
    exact ⟨_, _, rfl, hplaced⟩
  | aborted =>
    rw [hout] at hchain
    cases hchain

theorem begin_returns (h : d.Placed (n :: ns)) (t : BsonType) (slot : Nat) {key : Bytes}
    {keyLength : Int} (hroom : ∀ c, d.innermost = some c → c.roomForChild key keyLength) :
    ∃ d', d.exec fresh (.appendBegin t slot (some key) keyLength) = .ok (d', none) ∧
      d'.Placed ((n + 1) :: ns) := by
  obtain ⟨c, hc, hgrow, hlen, htail⟩ := h.innermost
  obtain ⟨c', hok, hgrow', hlen'⟩ :=
    bsonAppendBegin_returns (fresh d.calls) t hgrow (hroom c hc)
  have hleft : (d.counted.setLeft slot .unusable).innermost = some c := hc
  refine ⟨(d.counted.setLeft slot .unusable).replace c', ?_, .cons ⟨c', rfl, hgrow', ?_⟩ htail⟩
  · simp only [exec, execCall, call, hleft, hok]
  · rw [hlen', hlen]

theorem end_returns (h : d.Placed ((n + 1) :: ns)) :
    ∃ d', d.exec fresh .appendEnd = .ok (d', none) ∧ d'.Placed (n :: ns) := by
  obtain ⟨c, hc, hgrow, hlen, htail⟩ := h.innermost
  obtain ⟨c', hok, hgrow', hlen'⟩ := bsonAppendBsonEnd_returns hgrow hlen
  have hc' : d.counted.innermost = some c := hc
  refine ⟨d.counted.replace c', ?_, .cons ⟨c', rfl, hgrow', hlen'⟩ htail⟩
  simp only [exec, execCall, call, hc', hok]

theorem init_returns (h : d.Placed ns) (slot : Nat) :
    ∃ d', d.exec fresh (.init slot) = .ok (d', none) ∧ d'.Placed (0 :: ns) :=
  ⟨_, rfl, .cons ⟨_, rfl, rfl, rfl⟩ h⟩

theorem leave_returns (h : d.Placed (n :: ns)) (slot : Nat) :
    ∃ d', d.exec fresh (.leave slot) = .ok (d', none) ∧ d'.Placed ns := by
  obtain ⟨-, -, -, -, htail⟩ := h.innermost
  exact ⟨_, rfl, htail⟩

theorem appendCode_returns (h : d.Placed (n :: ns)) (key : Bytes) (keyLength : Int) (code : Bytes)
    {scope : Option Nat} (hscope : ∀ slot ∈ scope, ∃ c, d.left slot = .document c) :
    ∃ d' m, d.exec fresh (.appendCode (some key) keyLength (some code) scope) = .ok (d', m) ∧
      d'.Placed (n :: ns) := by
  cases scope with
  | none => exact append_returns h.counted _ key keyLength _ _
  | some slot =>
    obtain ⟨c, hleft⟩ := hscope slot rfl
    have hleft' : d.counted.left slot = .document c := hleft
    simp only [exec, execCall, hleft']
    exact append_returns (h.counted.setLeft slot .unusable) _ key keyLength _ _

theorem appendDbpointer_returns (h : d.Placed (n :: ns)) {slot : Nat} (key : Bytes)
    (keyLength : Int) (hslot : d.left slot ≠ .unusable) :
    ∃ d' m, d.exec fresh (.appendDbpointer slot (some key) keyLength) = .ok (d', m) ∧
      d'.Placed (n :: ns) := by
  simp only [exec, execCall]
  cases hleft : d.counted.left slot with
  | unusable => exact absurd hleft hslot
  | zeroed => exact ⟨d.counted, _, rfl, h⟩
  | document pointer =>
    simp only
    cases dbpointerOf pointer.ref with
    | error message => exact ⟨d.counted, _, rfl, h⟩
    | ok args => exact append_returns h.counted _ key keyLength _ _

end Exec

end JsonDocs

end LibBson.Source
