import LibBson.Source.BsonStringT
import Mathlib.Data.List.Induction

/-!
# Every mix of appends and truncations of a string

A run is the calls in turn, each with what the octets hold that an allocation adds.
Source: bson-string.c:60-319.
-/

set_option autoImplicit false

namespace LibBson.Guarantees
open LibBson.Library LibBson.Source

inductive BsonStringCall where
  | append (str : Bytes)
  | appendC (c : UInt8)
  | appendUnichar (unichar : Nat)
  | truncate (len : Nat)

namespace BsonStringCall

def run (fresh : Mem) (string : BsonStringT) : BsonStringCall → Option BsonStringT
  | append str => some (string.append fresh str)
  | appendC c => some (string.appendC fresh c)
  | appendUnichar unichar => string.appendUnichar fresh unichar
  | truncate len => string.truncate fresh len

/-- The contents behind the call. -/
def text (before : Bytes) : BsonStringCall → Bytes
  | append str => before ++ cText str
  | appendC c => before ++ [c]
  | appendUnichar unichar => before ++ (bsonUtf8FromUnichar unichar).1
  | truncate len => before.take len

/-- The calls that are spoken of. -/
def Allowed (before : Bytes) (call : BsonStringCall) : Prop :=
  (call.text before).length < 2147483648 ∧
    match call with
    | append _ => True
    | appendC _ => True
    | appendUnichar unichar => unichar ≠ 0 ∧ unichar ≤ 0x10FFFF
    | truncate len => len ≤ before.length

/-- The calls that do what they should. -/
def Safe (string : BsonStringT) : BsonStringCall → Prop
  | append str =>
    string.len + strlen str < string.alloc ∨ string.alloc + strlen str ≤ 2147483648
  | appendC c => c ≠ 0
  | appendUnichar _ => True
  | truncate len => len < 2147483647

def AgreesWithAppend (fresh : Mem) (string : BsonStringT) : BsonStringCall → Prop
  | appendC c => string.appendC fresh c = string.append fresh [c]
  | _ => True

end BsonStringCall

/-- What is promised of a string whose contents are `contents`. -/
structure StringHolds (string : BsonStringT) (contents : Bytes) : Prop where
  alloc : string.alloc.isPowerOfTwo
  room : string.len < string.alloc
  nul : string.str string.len = 0
  below : ∀ w ∈ string.stores, w.Below
  contents : string.str.slice 0 string.len = contents

abbrev StringCalls := List (Mem × BsonStringCall)

def stringAfter (string : Option BsonStringT) (calls : StringCalls) : Option BsonStringT :=
  calls.foldl (fun string call => string.bind fun string => call.2.run call.1 string) string

def textAfter (text : Bytes) (calls : StringCalls) : Bytes :=
  calls.foldl (fun text call => call.2.text text) text

/-- What `bson_string_new` copies. -/
def startText (str : Option Bytes) : Bytes := (str.map cText).getD []

def AllowedRun (str : Option Bytes) (calls : StringCalls) : Prop :=
  ∀ done call, done ++ [call] <+: calls → call.2.Allowed (textAfter (startText str) done)

/-- In every state of the run the promise holds, and the way in place of
`bson_string_append_c` agrees with `bson_string_append`. -/
structure StringKept (fresh : Mem) (str : Option Bytes) (calls : StringCalls) : Prop where
  holds : ∀ done, done <+: calls → ∃ string,
    stringAfter (BsonStringT.new fresh str) done = some string ∧
      StringHolds string (textAfter (startText str) done)
  agrees : ∀ done call string, done ++ [call] <+: calls →
    stringAfter (BsonStringT.new fresh str) done = some string →
      call.2.AgreesWithAppend call.1 string

/-- Every call of the run meets `Safe` in the state before it. -/
def SafeRun (fresh : Mem) (str : Option Bytes) (calls : StringCalls) : Prop :=
  ∀ done call string, done ++ [call] <+: calls →
    stringAfter (BsonStringT.new fresh str) done = some string → call.2.Safe string

/-! ## One call -/

/-- The state behind the calls so far. -/
structure StringState (string : BsonStringT) (contents : Bytes) : Prop where
  stands : ∃ text, string.Represents text ∧ text.Doubled ∧ text.str = contents

section Call

variable {fresh : Mem} {string string' : BsonStringT} {contents : Bytes} {call : BsonStringCall}

theorem StringState.holds (h : StringState string contents) : StringHolds string contents := by
  obtain ⟨text, hrep, ⟨k, hk, halloc⟩, rfl⟩ := h.stands
  have hfits := text.fits
  have hoctets := (holds_append _ _ _ _).mp hrep.octets
  refine ⟨⟨k, hrep.alloc.trans halloc⟩, ?_, ?_, hrep.below, ?_⟩
  · rw [hrep.len, hrep.alloc]
    exact hfits
  · have hnul := ((holds_cons _ _ _ _).mp hoctets.2).1
    rw [hrep.len]
    rwa [Nat.zero_add] at hnul
  · rw [hrep.len]
    exact hoctets.1.slice_eq

theorem StringState.len (h : StringState string contents) : string.len = contents.length := by
  obtain ⟨text, hrep, -, rfl⟩ := h.stands
  exact hrep.len

theorem StringHolds.length (h : StringHolds string contents) : string.len = contents.length := by
  have hlen := congrArg List.length h.contents
  rwa [Mem.slice_length] at hlen

/-- An append of `str` for which there is room. -/
theorem StringState.append (h : StringState string contents) {str : Bytes} (hnul : 0 ∉ str)
    (hshort : str.length < 2147483648)
    (hroom : string.len + str.length < string.alloc ∨ string.alloc + str.length ≤ 2147483648) :
    StringState (string.append fresh str) (contents ++ str) := by
  obtain ⟨text, hrep, hd, rfl⟩ := h.stands
  have hmax := hd.alloc_le
  rw [hrep.len, hrep.alloc] at hroom
  obtain ⟨text', happend, hd', hstr⟩ := bsonStringAppend_of_room hd hnul (by omega) hroom
  exact ⟨text', hrep.append (by omega) happend, hd', hstr⟩

/-- A few octets find room as long as the sum is below `2 ^ 31`. -/
theorem StringState.append_few (h : StringState string contents) {str : Bytes} (hnul : 0 ∉ str)
    (hshort : str.length < 1073741824) (hsum : (contents ++ str).length < 2147483648) :
    StringState (string.append fresh str) (contents ++ str) := by
  obtain ⟨text, hrep, hd, rfl⟩ := h.stands
  have hmax := hd.alloc_le
  rw [List.length_append] at hsum
  rcases bsonStringAppend_takes hd hnul hshort with ⟨-, text', happend, hd', hstr⟩ | ⟨hge, -⟩
  · exact ⟨text', hrep.append (by omega) happend, hd', hstr⟩
  · omega

/-- A safe call leads to the state with the contents it should have. -/
theorem StringState.run (fresh : Mem) (h : StringState string contents)
    (hallowed : call.Allowed contents) (hsafe : call.Safe string) :
    ∃ string', call.run fresh string = some string' ∧ StringState string' (call.text contents) := by
  obtain ⟨hsum, hargs⟩ := hallowed
  cases call with
  | append str =>
    have hnul := not_mem_cText str
    refine ⟨_, rfl, ?_⟩
    rw [BsonStringT.append_congr (cText_of_no_nul hnul).symm]
    apply h.append hnul _ hsafe
    simp only [BsonStringCall.text, List.length_append] at hsum
    omega
  | appendC c =>
    have hc : c ≠ 0 := hsafe
    obtain ⟨text, hrep, hd, -⟩ := h.stands
    have hmax := hd.alloc_le
    refine ⟨_, rfl, ?_⟩
    rw [BsonStringT.appendC_eq_append hrep (by omega) hc]
    exact h.append_few (by simpa using hc.symm) (by simp) hsum
  | appendUnichar unichar =>
    obtain ⟨hne, hmax⟩ := hargs
    have hlen := utf8Encode_length unichar
    refine ⟨_, BsonStringT.appendUnichar_eq_append hne (by omega), ?_⟩
    rw [BsonStringCall.text, bsonUtf8FromUnichar_encode (by omega)] at hsum ⊢
    exact h.append_few (utf8Encode_nonzero hne (by omega)) (by omega) hsum
  | truncate len =>
    obtain ⟨text, hrep, hd, rfl⟩ := h.stands
    obtain ⟨string', text', hrun, hrep', hd', hstr⟩ := hrep.truncate hargs hsafe
    exact ⟨string', hrun, ⟨text', hrep', hd', hstr⟩⟩

theorem StringState.agrees (h : StringState string contents) (hsafe : call.Safe string) :
    call.AgreesWithAppend fresh string := by
  cases call with
  | appendC c =>
    obtain ⟨text, hrep, hd, -⟩ := h.stands
    have hmax := hd.alloc_le
    exact BsonStringT.appendC_eq_append hrep (by omega) hsafe
  | append str => trivial
  | appendUnichar unichar => trivial
  | truncate len => trivial

/-- The block an append without room leaves has no octets. -/
theorem StringState.append_lost (fresh : Mem) (h : StringState string contents) {str : Bytes}
    (hshort : strlen str < 2147483648)
    (hroom : ¬ (string.len + strlen str < string.alloc ∨ string.alloc + strlen str ≤ 2147483648)) :
    (string.append fresh str).alloc = 0 := by
  obtain ⟨text, hrep, hd, rfl⟩ := h.stands
  have hmax := hd.alloc_le
  have hfits := text.fits
  have halloc := hrep.alloc
  have hlen := hrep.len
  rw [not_or, Nat.not_lt, Nat.not_le] at hroom
  have hgrow : u32sub (u32sub string.alloc string.len) 1 < u32 (strlen str) := by
    rw [hrep.room (by omega), u32_of_lt (by omega)]
    omega
  rw [BsonStringT.append_alloc, if_pos hgrow, u32_of_lt (by omega)]
  exact bsonStringGrow_lost hroom.2 (by omega)

/-- A call that keeps the promise is safe. -/
theorem StringState.safe (h : StringState string contents) (hallowed : call.Allowed contents)
    (hrun : call.run fresh string = some string') (hholds : StringHolds string' (call.text contents))
    (hagrees : call.AgreesWithAppend fresh string) : call.Safe string := by
  obtain ⟨hsum, hargs⟩ := hallowed
  cases call with
  | append str =>
    by_contra hroom
    cases hrun
    have hshort : strlen str < 2147483648 := by
      simp only [BsonStringCall.text, List.length_append] at hsum
      exact Nat.lt_of_le_of_lt (Nat.le_add_left _ _) hsum
    have hlost := h.append_lost fresh hshort hroom
    have hfits := hholds.room
    omega
  | appendC c =>
    rintro rfl
    cases hrun
    -- nothing is appended by the one, a NUL by the other
    have hsame : string.appendC fresh 0 = string.append fresh [0] := hagrees
    have hone : (contents ++ [0]).length = contents.length + 1 := List.length_append
    have hlen : (string.appendC fresh 0).len = (contents ++ [0]).length := hholds.length
    have hbefore := h.len
    have hempty : u32 (strlen [0]) = 0 := rfl
    rw [BsonStringCall.text] at hsum
    rw [hsame, BsonStringT.append_len, hempty, u32_of_lt (by omega)] at hlen
    omega
  | appendUnichar unichar => trivial
  | truncate len =>
    by_contra hbig
    simp only [BsonStringCall.run, BsonStringT.truncate] at hrun
    rw [if_neg (show ¬ len < 2147483647 from hbig)] at hrun
    cases hrun

end Call

/-! ## Runs -/

section Run

variable {fresh : Mem} {str : Option Bytes} {calls done : StringCalls}

theorem stringAfter_concat (string : Option BsonStringT) (calls : StringCalls)
    (call : Mem × BsonStringCall) :
    stringAfter string (calls ++ [call]) =
      (stringAfter string calls).bind fun string => call.2.run call.1 string :=
  List.foldl_concat _ _ _ _

theorem textAfter_concat (text : Bytes) (calls : StringCalls) (call : Mem × BsonStringCall) :
    textAfter text (calls ++ [call]) = call.2.text (textAfter text calls) :=
  List.foldl_concat _ _ _ _

theorem AllowedRun.of_prefix (h : AllowedRun str calls) (hdone : done <+: calls) :
    AllowedRun str done :=
  fun earlier call hearlier => h earlier call (hearlier.trans hdone)

theorem SafeRun.of_prefix (h : SafeRun fresh str calls) (hdone : done <+: calls) :
    SafeRun fresh str done :=
  fun earlier call string hearlier => h earlier call string (hearlier.trans hdone)

theorem StringKept.of_prefix (h : StringKept fresh str calls) (hdone : done <+: calls) :
    StringKept fresh str done where
  holds := fun earlier hearlier => h.holds earlier (hearlier.trans hdone)
  agrees := fun earlier call string hearlier => h.agrees earlier call string (hearlier.trans hdone)

/-- The state a run of safe calls leads to. -/
theorem state_after (hstr : (startText str).length < 2147483648) (hallowed : AllowedRun str calls)
    (hsafe : SafeRun fresh str calls) :
    ∃ string, stringAfter (BsonStringT.new fresh str) calls = some string ∧
      StringState string (textAfter (startText str) calls) := by
  induction calls using List.reverseRecOn with
  | nil =>
    have hshort : ∀ s, str = some s → strlen s < 2147483648 := by
      rintro s rfl
      exact hstr
    obtain ⟨string, text, hnew, hrep, hd, htext⟩ :=
      BsonStringT.new_represents fresh str hshort
    exact ⟨string, hnew, ⟨text, hrep, hd, htext⟩⟩
  | append_singleton calls call ih =>
    have hdone : calls <+: calls ++ [call] := List.prefix_append _ _
    obtain ⟨string, hafter, hstate⟩ := ih (hallowed.of_prefix hdone) (hsafe.of_prefix hdone)
    obtain ⟨string', hrun, hstate'⟩ := hstate.run call.1
      (hallowed calls call List.prefix_rfl) (hsafe calls call string List.prefix_rfl hafter)
    refine ⟨string', ?_, ?_⟩
    · rw [stringAfter_concat, hafter]
      exact hrun
    · rw [textAfter_concat]
      exact hstate'

/-- A run that keeps the promise is safe: the last call is looked at in the state the
safe calls before it lead to. -/
theorem StringKept.safe (hstr : (startText str).length < 2147483648)
    (hallowed : AllowedRun str calls) (h : StringKept fresh str calls) :
    SafeRun fresh str calls := by
  induction calls using List.reverseRecOn with
  | nil =>
    intro done call string hdone
    rw [List.prefix_nil] at hdone
    exact absurd hdone (List.concat_ne_nil _ _)
  | append_singleton calls last ih =>
    have hbefore : calls <+: calls ++ [last] := List.prefix_append _ _
    have hsafe := ih (hallowed.of_prefix hbefore) (h.of_prefix hbefore)
    intro done call string hdone hafter
    rcases List.prefix_concat_iff.mp hdone with heq | hearlier
    · obtain ⟨rfl, hlast⟩ := List.append_inj' heq rfl
      cases hlast
      obtain ⟨string₀, hafter₀, hstate⟩ := state_after hstr (hallowed.of_prefix hbefore) hsafe
      rw [hafter₀] at hafter
      cases hafter
      obtain ⟨string', hafter', hholds⟩ := h.holds _ hdone
      rw [stringAfter_concat, hafter₀] at hafter'
      rw [textAfter_concat] at hholds
      exact hstate.safe (hallowed _ _ hdone) hafter' hholds (h.agrees _ _ _ hdone hafter₀)
    · exact hsafe done call string hearlier hafter

end Run

/-- The promise is kept in every state of a run exactly if each append that makes the
block larger leaves the sum that is rounded up at most `2 ^ 31`, no NUL is appended by
`bson_string_append_c`, and no truncation is to `2 ^ 31 - 1`. -/
theorem string_buffer_iff (fresh : Mem) (str : Option Bytes) (calls : StringCalls)
    (hstr : (startText str).length < 2147483648) (hallowed : AllowedRun str calls) :
    StringKept fresh str calls ↔ SafeRun fresh str calls := by
  constructor
  · exact fun h => h.safe hstr hallowed
  · intro hsafe
    constructor
    · intro done hdone
      obtain ⟨string, hafter, hstate⟩ := state_after hstr (hallowed.of_prefix hdone)
        (hsafe.of_prefix hdone)
      exact ⟨string, hafter, hstate.holds⟩
    · intro done call string hdone hafter
      have hbefore := (List.prefix_append done [call]).trans hdone
      obtain ⟨string₀, hafter₀, hstate⟩ := state_after hstr (hallowed.of_prefix hbefore)
        (hsafe.of_prefix hbefore)
      rw [hafter₀] at hafter
      cases hafter
      exact hstate.agrees (hsafe done call _ hdone hafter₀)

/-- Two octets behind the text `x`, then one more where there is room, and the cut back. -/
def shortCalls : StringCalls :=
  [(fun _ => 7, .append [97, 98]), (fun _ => 7, .appendC 99), (fun _ => 7, .truncate 1)]

theorem shortCalls_cases {done : StringCalls} {call : Mem × BsonStringCall}
    (h : done ++ [call] <+: shortCalls) :
    done = shortCalls.take 0 ∧ call.2 = .append [97, 98] ∨
      done = shortCalls.take 1 ∧ call.2 = .appendC 99 ∨
      done = shortCalls.take 2 ∧ call.2 = .truncate 1 := by
  rcases done with _ | ⟨first, _ | ⟨second, _ | ⟨third, done⟩⟩⟩
  · simp [shortCalls] at h
    simp [h]
  · simp [shortCalls] at h
    simp [h, shortCalls]
  · simp [shortCalls] at h
    simp [h, shortCalls]
  · simp [shortCalls] at h

theorem shortCalls_allowed : AllowedRun (some [120]) shortCalls := by
  intro done call hdone
  rcases shortCalls_cases hdone with ⟨rfl, hcall⟩ | ⟨rfl, hcall⟩ | ⟨rfl, hcall⟩
  · rw [hcall]
    exact ⟨by decide, trivial⟩
  · rw [hcall]
    exact ⟨by decide, trivial⟩
  · rw [hcall]
    exact ⟨by decide, by decide⟩

theorem shortCalls_safe : SafeRun (fun _ => 7) (some [120]) shortCalls := by
  intro done call string hdone hafter
  rcases shortCalls_cases hdone with ⟨rfl, hcall⟩ | ⟨rfl, hcall⟩ | ⟨rfl, hcall⟩
  · rw [hcall]
    have hsize : (BsonStringT.new (fun _ => 7) (some [120])).map (·.alloc) = some 2 := rfl
    have hnew : BsonStringT.new (fun _ => 7) (some [120]) = some string := hafter
    rw [hnew, Option.map_some] at hsize
    have halloc : string.alloc = 2 := Option.some.inj hsize
    exact Or.inr (by rw [halloc]; decide)
  · rw [hcall]
    exact (by decide : (99 : UInt8) ≠ 0)
  · rw [hcall]
    exact (by decide : 1 < 2147483647)

theorem string_buffer_iff_short : StringKept (fun _ => 7) (some [120]) shortCalls :=
  (string_buffer_iff _ _ _ (by decide) shortCalls_allowed).mpr shortCalls_safe

/-- A string is cut to nothing, which has 16 octets then, and `str` is appended. -/
def cutThenAppend (str : Bytes) : StringCalls :=
  [(fun _ => 0, .truncate 0), (fun _ => 0, .append str)]

section CutThenAppend

variable {str : Bytes}

theorem cutThenAppend_allowed (h : strlen str < 2147483648) :
    AllowedRun none (cutThenAppend str) := by
  intro done call hdone
  rcases done with _ | ⟨first, _ | ⟨second, done⟩⟩
  · simp [cutThenAppend] at hdone
    rw [hdone]
    exact ⟨by decide, by decide⟩
  · simp [cutThenAppend] at hdone
    obtain ⟨rfl, rfl⟩ := hdone
    exact ⟨h, trivial⟩
  · simp [cutThenAppend] at hdone

/-- The size of the block becomes zero, and `str` is stored all the same. -/
theorem cutThenAppend_lost (hlong : 2147483632 < strlen str) (h : strlen str < 2147483648) :
    ¬ StringKept (fun _ => 0) none (cutThenAppend str) := by
  intro hkept
  obtain ⟨string, hcut, -⟩ := hkept.holds [(fun _ => 0, .truncate 0)] (List.prefix_append _ _)
  obtain ⟨string', hafter, hholds⟩ := hkept.holds (cutThenAppend str) List.prefix_rfl
  have hsize : (stringAfter (BsonStringT.new (fun _ => 0) none) [(fun _ => 0, .truncate 0)]).map
      (fun string => (string.len, string.alloc)) = some (0, 16) := rfl
  rw [hcut, Option.map_some, Option.some.injEq, Prod.mk.injEq] at hsize
  have hlast : stringAfter (BsonStringT.new (fun _ => 0) none) (cutThenAppend str) =
      some (string.append (fun _ => 0) str) := by
    have hconcat := stringAfter_concat (BsonStringT.new (fun _ => 0) none)
      [(fun _ => 0, .truncate 0)] (fun _ => 0, .append str)
    rw [hcut] at hconcat
    exact hconcat
  rw [hlast] at hafter
  cases hafter
  have hroom := hholds.room
  have hgrow : u32sub (u32sub 16 0) 1 < strlen str := Nat.lt_trans (by decide) hlong
  rw [BsonStringT.append_alloc, hsize.1, hsize.2, u32_of_lt (by omega), if_pos hgrow,
    bsonStringGrow_lost (by omega) (by omega)] at hroom
  exact Nat.not_lt_zero _ hroom

end CutThenAppend

theorem strlen_replicate (n : Nat) : strlen (List.replicate n 97) = n := by
  have hnul : (0 : UInt8) ∉ List.replicate n 97 := by
    intro h
    exact absurd (List.eq_of_mem_replicate h) (by decide)
  rw [strlen, cText_of_no_nul hnul, List.length_replicate]

/-- An append of `2 ^ 31 - 1` letters to a string cut to nothing. -/
theorem twoGiB_after_cut :
    AllowedRun none (cutThenAppend (List.replicate 2147483647 97)) ∧
      ¬ StringKept (fun _ => 0) none (cutThenAppend (List.replicate 2147483647 97)) := by
  have hlen := strlen_replicate 2147483647
  exact ⟨cutThenAppend_allowed (by omega), cutThenAppend_lost (by omega) (by omega)⟩

end LibBson.Guarantees
