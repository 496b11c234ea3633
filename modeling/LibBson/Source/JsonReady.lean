import LibBson.Source.JsonHarmless
import LibBson.Source.JsonRuns
import LibBson.Source.JsonWhole

/-!
# Runs of the callbacks

`Harmless` is where a callback relies on more than its state; `Ready` is what holds
between two events, and a harmless event keeps it. Over the tokens of a text, which
nest and are whole, the reader returns. Source: bson-json.c:1786-2097.
-/

set_option autoImplicit false

namespace LibBson.Source
open LibBson.Library

variable {fresh : JsonHeap} {dec : JsonDecoders}

/-! ## One event -/

open JsonReaderBson

/-- The event begins a child of the innermost document. -/
def JsonReaderBson.opensChild (dec : JsonDecoders) (s : JsonReaderBson) : JsonEvent → Prop
  | .startArray => s.readState = .regular
  | .startMap => s.readState = .inBsonType ∧ s.bsonState = .type
  | .endMap => s.readState = .inStartMap
  | .key val => s.readState = .inStartMap ∧ isKnownKey val = false ∨
      (s.readState = .inBsonType ∨ s.readState = .inStartMap) ∧ s.opensCode val
  | .string val => takesString s.readState = true ∧ s.queriesType dec val
  | .endArray | .special .. => False

/-- Where a callback relies on more than its state: a code that ends is complete and in
no scope, a DBPointer has a document, and a child that is begun has room. -/
structure Harmless (fresh : JsonHeap) (dec : JsonDecoders) (p : JsonParse) (e : JsonEvent) :
    Prop where
  code : e = .endMap → p.bson.readState = .inBsonType →
    p.bson.bsonType = .code ∨ p.bson.bsonType = .codewscope → CodeComplete p.docs p.bson
  pointer : e = .endMap → p.bson.readState = .inBsonTypeDbpointerStartmap →
    p.docs.left p.bson.depth ≠ .unusable
  room : p.bson.opensChild dec e → 0 < p.bson.depth → p.bson.depth < stackMax →
    RoomForChild p.docs (readFixupKey fresh.buffer p.bson)

section Decide

instance (dec : JsonDecoders) (s : JsonReaderBson) (e : JsonEvent) :
    Decidable (s.opensChild dec e) :=
  match e with
  | .startArray => inferInstanceAs (Decidable (_ = _))
  | .startMap => inferInstanceAs (Decidable (_ ∧ _))
  | .endMap => inferInstanceAs (Decidable (_ = _))
  | .key _ => inferInstanceAs (Decidable (_ ∧ _ ∨ (_ ∨ _) ∧ _ ∧ _))
  | .string _ => inferInstanceAs (Decidable (_ = _ ∧ _ ∧ _))
  | .endArray | .special .. => inferInstanceAs (Decidable False)

instance (c : Chain) (key : Bytes) (keyLength : Int) : Decidable (c.roomForChild key keyLength) :=
  inferInstanceAs (Decidable (_ ∧ _))

instance (d : JsonDocs) (s : JsonReaderBson) : Decidable (RoomForChild d s) :=
  match hopen : d.innermost, hkey : s.keyPointer with
  | some c, some key => decidable_of_iff (c.roomForChild key s.keyLength) <| by
      simp only [RoomForChild, hopen, hkey, Option.some.injEq]
      exact ⟨fun h _ _ hc hk => hc ▸ hk ▸ h, fun h => h c key rfl rfl⟩
  | none, _ => isTrue fun _ _ hc => by rw [hopen] at hc; cases hc
  | some _, none => isTrue fun _ _ _ hk => by rw [hkey] at hk; cases hk

instance (b : JsonSlot) : Decidable (∃ c, b = .document c) :=
  match b with
  | .document c => isTrue ⟨c, rfl⟩
  | .zeroed | .unusable => isFalse fun ⟨_, h⟩ => by cases h

instance (b : JsonSlot) : Decidable (b = .unusable) :=
  match b with
  | .unusable => isTrue rfl
  | .zeroed | .document _ => isFalse fun h => by cases h

instance (d : JsonDocs) (s : JsonReaderBson) : Decidable (CodeComplete d s) :=
  inferInstanceAs (Decidable (_ ∧ (_ → _ ∧ (_ → _))))

/-- A concrete run decides where its callbacks are harmless. -/
instance (fresh : JsonHeap) (dec : JsonDecoders) (p : JsonParse) (e : JsonEvent) :
    Decidable (Harmless fresh dec p e) :=
  decidable_of_iff
    ((e = .endMap → p.bson.readState = .inBsonType →
        p.bson.bsonType = .code ∨ p.bson.bsonType = .codewscope → CodeComplete p.docs p.bson) ∧
      (e = .endMap → p.bson.readState = .inBsonTypeDbpointerStartmap →
        p.docs.left p.bson.depth ≠ .unusable) ∧
      (p.bson.opensChild dec e → 0 < p.bson.depth → p.bson.depth < stackMax →
        RoomForChild p.docs (readFixupKey fresh.buffer p.bson)))
    ⟨fun h => ⟨h.1, h.2.1, h.2.2⟩, fun h => ⟨h.code, h.pointer, h.room⟩⟩

end Decide

theorem react_returns {p : JsonParse} {e : JsonEvent} (h : p.bson.Steady)
    (hp : p.docs.Placed p.bson.children) (hlen : e.text.length < 9223372036854775808)
    (hstarted : p.bson.Unstarted → (∀ val, e ≠ .key val) ∧ e ≠ .endMap)
    (harm : Harmless fresh dec p e) :
    Returns fresh.document (p.bson.Unstarted ∧ e ≠ .startMap ∧ e ≠ .startArray) p.docs
      (p.bson.react fresh.buffer dec e) := by
  obtain ⟨hcode, hpointer, hroom⟩ := harm
  have unfixed : p.bson.readState ≠ .regular → readFixupKey fresh.buffer p.bson = p.bson :=
    readFixupKey_eq fresh.buffer
  cases e with
  | startMap =>
    apply readStartMap_returns h hp
    intro hstate hbson hmax
    have hwrapper : inWrapper p.bson.readState = true := by rw [hstate]; rfl
    rw [unfixed (regular_of_wrapper hwrapper)] at hroom
    exact hroom ⟨hstate, hbson⟩ (h.wrapper hwrapper).1 hmax
  | endMap =>
    apply readEndMap_returns h hp (fun hu => (hstarted hu).2 rfl) (hcode rfl) (hpointer rfl)
    intro hstate hdepth hmax
    rw [unfixed (by rw [hstate]; exact fun h => (nomatch h))] at hroom
    exact hroom hstate hdepth hmax
  | startArray =>
    apply readStartArray_returns h hp
    exact fun hstate hdepth hmax => hroom hstate hdepth hmax
  | endArray =>
    exact readEndArray_returns h hp fun hu => ⟨hu, fun h => (nomatch h), fun h => (nomatch h)⟩
  | key val =>
    apply readMapKey_returns h hp hlen fun hu => (hstarted hu).1 val rfl
    intro hopens hdepth hmax
    have hregular : p.bson.readState ≠ .regular := by
      rcases hopens with ⟨hstate, -⟩ | ⟨hstate | hstate, -⟩ <;> rw [hstate] <;>
        exact fun h => (nomatch h)
    rw [unfixed hregular] at hroom
    exact hroom hopens hdepth hmax
  | string val =>
    apply readString_returns h hp
    intro htakes hquery hmax
    have hwrapper : inWrapper p.bson.readState = true := by
      cases hstate : p.bson.readState <;> rw [hstate] at htakes <;> first | rfl | cases htakes
    rw [unfixed (regular_of_wrapper hwrapper)] at hroom
    exact hroom ⟨htakes, hquery⟩ (h.wrapper hwrapper).1 hmax
  | special numNoInt numeric signed boolean null nelem text =>
    exact readSpecial_returns h hp
      (fun hu => ⟨hu, fun h => (nomatch h), fun h => (nomatch h)⟩) numNoInt numeric signed boolean
      null nelem text

/-- What holds between two events, where `st` are the containers around the next one. -/
structure Ready (st : List JsonContainer) (p : JsonParse) : Prop where
  steady : p.bson.Steady
  placed : p.docs.Placed p.bson.children
  started : p.bson.Unstarted → st = []

/-- A harmless event is read, and without an error the reader is ready for the next. -/
theorem Ready.step {st st' : List JsonContainer} {p : JsonParse} (h : Ready st p) {e : JsonEvent}
    (hst : JsonNest.step st e = some st') (hlen : e.text.length < 9223372036854775808)
    (harm : Harmless fresh dec p e) :
    ∃ q, p.step fresh dec e = .ok q ∧ (q.bson.error = none → Ready st' q) := by
  have hstarted : p.bson.Unstarted → (∀ val, e ≠ .key val) ∧ e ≠ .endMap := by
    intro hu
    rw [h.started hu] at hst
    constructor
    · rintro val rfl
      cases hst
    · rintro rfl
      cases hst
  obtain ⟨s, ops, d, m, hreact, hexec, hpost⟩ := react_returns h.steady h.placed hlen hstarted harm
  have hst' : p.bson.Unstarted → e ≠ .startMap → e ≠ .startArray → st' = [] := by
    intro hu hmap harray
    rw [h.started hu] at hst
    cases e with
    | startMap => exact absurd rfl hmap
    | startArray => exact absurd rfl harray
    | special => exact (Option.some.inj hst).symm
    | _ => cases hst
  cases m with
  | none =>
    refine ⟨{ docs := d, bson := s }, ?_, fun herror => ?_⟩
    · simp only [JsonParse.step, hreact, hexec]
    · obtain ⟨hsteady, hplaced, hu⟩ := hpost rfl herror
      refine ⟨hsteady, hplaced, fun hstart => ?_⟩
      obtain ⟨hold, hmap, harray⟩ := hu hstart
      exact hst' hold hmap harray
  | some message =>
    refine ⟨{ docs := d, bson := s.setError message }, ?_, fun herror => ?_⟩
    · simp only [JsonParse.step, hreact, hexec]
    · cases herror

/-! ## A document -/

/-- The reader between two documents. -/
structure Between (p : JsonParse) : Prop where
  parked : p.bson.codeData.hasCode = true ∨ p.bson.codeData.hasScope = true ∨
    p.bson.codeData.keyBuf.len ≠ 0 → p.bson.codeData.keyBuf.nBytes ≠ 0
  short : p.bson.keyBuf.len < 9223372036854775808

theorem Between.placed {p : JsonParse} : (p.start fresh).docs.Placed (p.start fresh).bson.children :=
  .cons ⟨_, rfl, rfl, rfl⟩ .nil

theorem Between.framed {p : JsonParse} (h : Between p) : (p.start fresh).bson.Framed where
  bottom := fun hdepth => absurd hdepth (Nat.lt_irrefl 0)
  pointer := fun hstate => by
    rcases hstate with hstart | hin | ⟨i, hi, -⟩
    · cases hstart
    · cases hin
    · exact absurd hi (Nat.not_lt_zero i)
  scopeSeen := fun hscope => hscope.elim (fun h => (nomatch h)) fun h => (nomatch h)
  parked := h.parked
  short := h.short

theorem Ready.between {st : List JsonContainer} {p : JsonParse} (h : Ready st p) : Between p :=
  ⟨h.steady.parked, h.steady.short⟩

section Document

variable {J : Type}

/-- How a run over whole tokens ends: it returns, and the reader is between documents
where the next one begins. -/
def Finishes (lex : Jsonsl J) (n : Nat) : Except JsonHalt (JsonEnding J) → Prop
  | .error _ => False
  | .ok (.restarted q json rest) =>
    Between q ∧ lex.Reachable json ∧ rest.head? = some 123 ∧ rest.length ≤ n
  | .ok (.exhausted _) | .ok (.failed _) => True

theorem Ready.finishes {lex : Jsonsl J} {n : Nat} (hn : n < 9223372036854775808)
    {st : List JsonContainer} {p : JsonParse} (h : Ready st p) (ts : List (JsonToken J))
    (hnest : Nested st ts) (hwhole : Whole lex n ts)
    (hmeets : JsonParse.RunMeets fresh dec (Harmless fresh dec) p ts) :
    Finishes lex n (p.runTokens fresh dec ts) := by
  induction ts generalizing st p with
  | nil => exact trivial
  | cons t ts ih =>
    cases t with
    | event e =>
      obtain ⟨st', hst, hnest⟩ := hnest
      obtain ⟨hlen, hwhole⟩ := hwhole
      obtain ⟨harm, hnext⟩ := hmeets
      obtain ⟨q, hstep, hready⟩ := h.step hst (Nat.lt_of_le_of_lt hlen hn) harm
      rw [JsonParse.runTokens]
      simp only [hstep]
      split
      · exact trivial
      · next herror =>
        have hclean : q.bson.error = none := by
          cases he : q.bson.error with
          | none => rfl
          | some e => rw [he] at herror; exact absurd rfl herror
        exact ih (hready hclean) hnest hwhole (hnext q hstep hclean)
    | error message => exact trivial
    | restart json rest => exact ⟨h.between, hwhole⟩
    | halt halt => exact hwhole.elim

/-- A document is read from its beginning: with no key from an earlier one, or from its
first brace on. -/
theorem Between.finishes {lex : Jsonsl J} {n : Nat} (hn : n < 9223372036854775808) {p : JsonParse}
    (h : Between p) (ts : List (JsonToken J))
    (hfirst : p.bson.key = none ∨ ∃ ts', ts = .event .startMap :: ts') (hnest : Nested [] ts)
    (hwhole : Whole lex n ts)
    (hmeets : JsonParse.RunMeets fresh dec (Harmless fresh dec) (p.start fresh) ts) :
    Finishes lex n ((p.start fresh).runTokens fresh dec ts) := by
  rcases hfirst with hkey | ⟨ts', rfl⟩
  · refine Ready.finishes hn ⟨⟨h.framed, fun _ => ?_, fun hdepth => ?_⟩, Between.placed, fun _ => rfl⟩
      ts hnest hwhole hmeets
    · exact Or.inr (Or.inr ⟨rfl, hkey⟩)
    · exact absurd hdepth (Nat.lt_irrefl 0)
  · obtain ⟨st', hst, hnest⟩ := hnest
    obtain ⟨-, hnext⟩ := hmeets
    -- the brace leaves the key of the document before behind
    have hstep : (p.start fresh).step fresh dec .startMap = .ok
        { p.start fresh with bson := { (p.start fresh).bson with readState := .inStartMap } } := rfl
    have hstart : (p.start fresh).bson.Framed := h.framed
    have hframed := hstart.free .inStartMap rfl
    have hready : Ready st'
        { p.start fresh with bson := { (p.start fresh).bson with readState := .inStartMap } } :=
      ⟨⟨hframed, fun _ => Or.inl rfl, fun hdepth => absurd hdepth (Nat.lt_irrefl 0)⟩,
        Between.placed (p := p), fun hu => (nomatch hu.2)⟩
    rw [JsonParse.runTokens]
    simp only [hstep]
    exact Ready.finishes hn hready ts' hnest hwhole.2 (hnext _ hstep rfl)

end Document

end LibBson.Source
