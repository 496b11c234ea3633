import LibBson.Source.JsonslLaws

/-!
# Events nest

The events of a text open and close containers in order, with keys and values in
turn in an object. `JsonNest.step` is the pushdown automaton that takes them; the
stack of jsonsl is its stack, and a token that is open is still to be taken.
Source: jsonsl.c:148-727.
-/

set_option autoImplicit false

namespace LibBson.Source
open LibBson.Library

/-- An open container: an object in front of a key or its end, or in front of a value, or
a list. -/
inductive JsonContainer where
  | object (value : Bool)
  | list
  deriving DecidableEq

namespace JsonNest

/-- A value, where one may stand. -/
def value : List JsonContainer → Option (List JsonContainer)
  | [] => some []
  | .object true :: st => some (.object false :: st)
  | .object false :: _ => none
  | .list :: st => some (.list :: st)

def key : List JsonContainer → Option (List JsonContainer)
  | .object false :: st => some (.object true :: st)
  | _ => none

/-- A string stands in a container. -/
def string (st : List JsonContainer) : Option (List JsonContainer) :=
  if st = [] then none else value st

def step (st : List JsonContainer) : JsonEvent → Option (List JsonContainer)
  | .startMap => (value st).map (.object false :: ·)
  | .startArray => (value st).map (.list :: ·)
  | .endMap =>
    match st with
    | .object false :: st => some st
    | _ => none
  | .endArray =>
    match st with
    | .list :: st => some st
    | _ => none
  | .key _ => key st
  | .string _ => string st
  | .special .. => value st

end JsonNest

/-- The events of the tokens nest, up to an error or the next document. -/
def Nested {J : Type} : List JsonContainer → List (JsonToken J) → Prop
  | st, .event e :: ts => ∃ st', JsonNest.step st e = some st' ∧ Nested st' ts
  | _, _ => True

/-! ## The stack of jsonsl -/

/-- The container of an entry. -/
def JsonslEntry.container (e : JsonslEntry) : Option JsonContainer :=
  match e.type with
  | .container true => some (.object (e.nelem % 2 == 1))
  | .container false => some .list
  | _ => none

theorem JsonslEntry.container_congr {e e' : JsonslEntry} (htype : e'.type = e.type)
    (hnelem : e.type ≠ .special → e'.nelem = e.nelem) : e'.container = e.container := by
  unfold container
  rw [htype]
  cases htop : e.type with
  | container object => rw [hnelem (by rw [htop]; exact fun h => (nomatch h))]
  | _ => rfl

/-- What the end of an entry that is a token makes of the containers. -/
def JsonslEntryType.ends (st : List JsonContainer) : JsonslEntryType → Option (List JsonContainer)
  | .root | .container _ => some st
  | .text true => JsonNest.key st
  | .text false => JsonNest.string st
  | .special => JsonNest.value st

namespace JsonslSt

/-- The containers of the entries up to the n-th. -/
def containers (stack : Nat → JsonslEntry) : Nat → List JsonContainer
  | 0 => (stack 0).container.toList
  | n + 1 => (stack (n + 1)).container.toList ++ containers stack n

theorem containers_congr {stack stack' : Nat → JsonslEntry} (n : Nat)
    (h : ∀ i, i ≤ n → (stack' i).container = (stack i).container) :
    containers stack' n = containers stack n := by
  induction n with
  | zero => rw [containers, containers, h 0 (Nat.le_refl _)]
  | succ n ih =>
    rw [containers, containers, h (n + 1) (Nat.le_refl _), ih fun i hi => h i (Nat.le_succ_of_le hi)]

/-- `st` is where the automaton is: an open token is not taken yet. -/
def Nests (j : JsonslSt) (st : List JsonContainer) : Prop :=
  j.top.type.ends st = some (containers j.stack j.level)

/-- Below the top. -/
def outer (j : JsonslSt) : List JsonContainer :=
  if j.level = 0 then [] else containers j.stack (j.level - 1)

theorem containers_eq (j : JsonslSt) :
    containers j.stack j.level = j.top.container.toList ++ j.outer := by
  unfold outer top
  cases hlevel : j.level with
  | zero => rw [containers, if_pos rfl, List.append_nil]
  | succ n => rw [containers, if_neg (Nat.succ_ne_zero n), Nat.succ_sub_one]

theorem Same.containers {j j' : JsonslSt} (h : Same j j') :
    containers j'.stack j'.level = containers j.stack j.level := by
  rw [h.level]
  exact containers_congr _ fun i _ => JsonslEntry.container_congr (h.types i) (h.nelem i)

theorem Same.nests {j j' : JsonslSt} (h : Same j j') {st : List JsonContainer} (hst : j.Nests st) :
    j'.Nests st := by
  rw [Nests, h.top_type, h.containers]
  exact hst

/-- What is around the top stays when an entry is pushed on it. -/
theorem Push.outer {pos : Nat} {c : UInt8} {type : JsonslType} {j j' : JsonslSt}
    (h : Push pos c type j j') :
    containers j'.stack j.level = (j'.stack j.level).container.toList ++ j.outer := by
  unfold JsonslSt.outer
  cases hlevel : j.level with
  | zero => rw [containers, if_pos rfl, List.append_nil]
  | succ n =>
    rw [containers, if_neg (Nat.succ_ne_zero n), Nat.succ_sub_one]
    congr 1
    apply containers_congr
    intro i hi
    exact JsonslEntry.container_congr (h.types i (by omega)) fun _ => h.nelem i (by omega)

/-- The entry below one that is pushed counts it as a value. -/
theorem Push.counts {pos : Nat} {c : UInt8} {type : JsonslType} {j j' : JsonslSt}
    (h : Push pos c type j j') (hj : j.Standing) (hkey : type ≠ .hkey) :
    JsonNest.value (containers j.stack j.level) = some (containers j'.stack j.level) := by
  have htype : (j'.stack j.level).type = j.top.type := h.types j.level (Nat.le_refl _)
  rw [h.outer, containers_eq, JsonslEntry.container, JsonslEntry.container, htype, h.counted]
  cases htop : j.top.type with
  | root =>
    have hzero : j.level = 0 := by
      by_contra hne
      exact hj.contained j.level (by omega) (Nat.le_refl _) htop
    rw [JsonslSt.outer, if_pos hzero]
    rfl
  | container object =>
    cases object with
    | false => rfl
    | true =>
      have hodd := h.value hkey htop
      have heven : (j.top.nelem + 1) % 2 = 0 := by omega
      simp only [hodd, heven]
      rfl
  | text hkey => exact absurd htop (h.plain.2 hkey)
  | special => exact absurd htop h.plain.1

/-- What is to come of a token when it is pushed. -/
theorem Push.ends {pos : Nat} {c : UInt8} {type : JsonslType} {j j' : JsonslSt}
    (h : Push pos c type j j') (hj : j.Standing) (htype : type ≠ .object ∧ type ≠ .list) :
    type.entry.ends (containers j.stack j.level) = some (containers j'.stack j.level) := by
  cases type with
  | object => exact absurd rfl htype.1
  | list => exact absurd rfl htype.2
  | special => exact h.counts hj fun h => (nomatch h)
  | string =>
    have hne : containers j.stack j.level ≠ [] := by
      rw [containers_eq, JsonslEntry.container]
      cases htop : j.top.type with
      | root => exact absurd htop (h.contained rfl)
      | container object => cases object <;> exact fun h => (nomatch h)
      | text hkey => exact absurd htop (h.plain.2 hkey)
      | special => exact absurd htop h.plain.1
    rw [← h.counts hj fun h => (nomatch h)]
    exact if_neg hne
  | hkey =>
    obtain ⟨htop, heven⟩ := h.key rfl
    have htype : (j'.stack j.level).type = j.top.type := h.types j.level (Nat.le_refl _)
    have hodd : (j.top.nelem + 1) % 2 = 1 := by omega
    rw [h.outer, containers_eq, JsonslEntry.container, JsonslEntry.container, htype, h.counted, htop]
    simp only [heven, hodd]
    rfl

theorem Push.containers {pos : Nat} {c : UInt8} {type : JsonslType} {j j' : JsonslSt}
    (h : Push pos c type j j') :
    containers j'.stack j'.level = j'.top.container.toList ++ containers j'.stack j.level := by
  rw [top, h.level]
  rfl

theorem Pop.containers {type : JsonslType} {j j' : JsonslSt} (h : Pop type j j')
    (hj : j.Standing) : containers j'.stack j'.level = j.outer := by
  have hpos : 0 < j.level := by
    apply Nat.pos_of_ne_zero
    intro hzero
    have hentry := h.entry
    rw [top, hzero, hj.rooted] at hentry
    cases type <;> cases hentry
  rw [JsonslSt.outer, if_neg (by omega), h.level]
  exact containers_congr _ fun i hi =>
    JsonslEntry.container_congr (h.types i) fun _ => h.nelem i (by omega)

theorem Nests.plain {j : JsonslSt} {st : List JsonContainer} (h : j.Nests st) (hj : j.Plain) :
    st = JsonslSt.containers j.stack j.level := by
  unfold Nests at h
  cases htop : j.top.type with
  | root =>
    rw [htop] at h
    exact Option.some.inj h
  | container object =>
    rw [htop] at h
    exact Option.some.inj h
  | text hkey => exact absurd htop (hj.2 hkey)
  | special => exact absurd htop hj.1

end JsonslSt

open JsonslSt

variable {J : Type}

theorem nested_cons {st st' : List JsonContainer} {e : JsonEvent} {ts : List (JsonToken J)}
    (h : JsonNest.step st e = some st') (hts : Nested st' ts) : Nested st (.event e :: ts) :=
  ⟨st', h, hts⟩

theorem nested_quoted (lex : Jsonsl J) (pre : Bytes) (posBegin : Nat) (event : Bytes → JsonEvent)
    {st st' : List JsonContainer} (h : ∀ val, JsonNest.step st (event val) = some st')
    {ts : List (JsonToken J)} (hts : Nested st' ts) :
    Nested st (quotedToken lex pre posBegin event :: ts) := by
  unfold quotedToken tokenText
  split
  · exact trivial
  · simp only
    split
    · exact trivial
    · split
      · exact trivial
      · exact nested_cons (h _) hts

/-- The tokens of the actions for a character are taken by the automaton. -/
theorem JsonslSt.Moves.nested {j j' : JsonslSt} {pos : Nat} {c : UInt8} {as : List JsonslAction}
    (h : Moves pos c j as j') (hj : j.Standing) (lex : Jsonsl J) (json : J) (pre rest : Bytes)
    (st : List JsonContainer) (hst : j.Nests st) :
    ∃ st', (as.any JsonslAction.isError = false → j'.Nests st') ∧
      ∀ ts : List (JsonToken J), (as.any JsonslAction.isError = false → Nested st' ts) →
        Nested st (actionTokens lex json pre c rest as ++ ts) := by
  induction h generalizing st with
  | quiet h => exact ⟨st, fun _ => h.nests hst, fun ts hts => hts rfl⟩
  | error err hlevel htype hcant =>
    refine ⟨[], fun h => (nomatch h), fun ts _ => ?_⟩
    unfold actionTokens
    split <;> exact trivial
  | @push j j' type h =>
    have hplain := hst.plain h.plain
    have hafter := h.containers
    have hentry := h.entry
    subst hplain
    have htoken : type ≠ .object ∧ type ≠ .list → j'.Nests (containers j.stack j.level) := by
      intro htype
      have hnone : j'.top.container = none := by
        rw [JsonslEntry.container, hentry]
        cases type with
        | object => exact absurd rfl htype.1
        | list => exact absurd rfl htype.2
        | _ => rfl
      rw [Nests, hafter, hnone, hentry]
      exact h.ends hj htype
    cases type with
    | object =>
      have hempty := h.empty (Or.inl rfl)
      refine ⟨containers j'.stack j'.level, fun _ => by rw [Nests, hentry]; rfl, fun ts hts => ?_⟩
      apply nested_cons _ (hts rfl)
      rw [hafter, JsonslEntry.container, hentry, hempty, JsonNest.step,
        h.counts hj fun h => (nomatch h)]
      rfl
    | list =>
      refine ⟨containers j'.stack j'.level, fun _ => by rw [Nests, hentry]; rfl, fun ts hts => ?_⟩
      apply nested_cons _ (hts rfl)
      rw [hafter, JsonslEntry.container, hentry, JsonNest.step, h.counts hj fun h => (nomatch h)]
      rfl
    | string =>
      exact ⟨_, fun _ => htoken ⟨fun h => (nomatch h), fun h => (nomatch h)⟩, fun ts hts => hts rfl⟩
    | hkey =>
      exact ⟨_, fun _ => htoken ⟨fun h => (nomatch h), fun h => (nomatch h)⟩, fun ts hts => hts rfl⟩
    | special =>
      exact ⟨_, fun _ => htoken ⟨fun h => (nomatch h), fun h => (nomatch h)⟩, fun ts hts => hts rfl⟩
  | after h _ ih => exact ih (hj.of_types (Nat.le_of_eq h.level) h.types) st (h.nests hst)
  | @pop j k j' as type h h' ih =>
    have hk : k.Standing := hj.of_types (by rw [h.level]; exact Nat.sub_le _ _) h.types
    have hplain := hj.plainBelow k h.level h.types
    have hentry := h.entry
    have hnests : k.Nests (containers k.stack k.level) := by
      unfold Nests
      cases htop : k.top.type with
      | root => rfl
      | container object => rfl
      | text hkey => exact absurd htop (hplain.2 hkey)
      | special => exact absurd htop hplain.1
    obtain ⟨st', hnext, hmore⟩ := ih hk (containers k.stack k.level) hnests
    refine ⟨st', hnext, fun ts hts => ?_⟩
    have hrest := hmore ts hts
    rw [h.containers hj] at hrest
    unfold Nests at hst
    rw [containers_eq, hentry] at hst
    cases type with
    | object =>
      have hcontainer : j.top.container = some (.object false) := by
        simp only [JsonslEntry.container, hentry, JsonslType.entry, h.even rfl]
        rfl
      rw [hcontainer] at hst
      cases hst
      exact nested_cons rfl hrest
    | list =>
      have hcontainer : j.top.container = some .list := by
        simp only [JsonslEntry.container, hentry, JsonslType.entry]
      rw [hcontainer] at hst
      cases hst
      exact nested_cons rfl hrest
    | string =>
      have hcontainer : j.top.container = none := by
        simp only [JsonslEntry.container, hentry, JsonslType.entry]
      rw [hcontainer] at hst
      exact nested_quoted lex pre _ .string (fun _ => hst) hrest
    | hkey =>
      have hcontainer : j.top.container = none := by
        simp only [JsonslEntry.container, hentry, JsonslType.entry]
      rw [hcontainer] at hst
      exact nested_quoted lex pre _ .key (fun _ => hst) hrest
    | special =>
      have hcontainer : j.top.container = none := by
        simp only [JsonslEntry.container, hentry, JsonslType.entry]
      rw [hcontainer] at hst
      rw [actionTokens, popToken]
      simp only [popped]
      unfold tokenText
      split
      · exact trivial
      · exact nested_cons hst hrest

theorem JsonslSt.nested_text {j : JsonslSt} (hj : j.Standing) (st : List JsonContainer)
    (hst : j.Nests st) (pre text : Bytes) : Nested st (textTokens jsonsl j pre text) := by
  induction text generalizing j st pre with
  | nil => cases st <;> exact trivial
  | cons c rest ih =>
    have hmoves : Moves pre.length c j (j.feed pre.length c).1 (j.feed pre.length c).2 :=
      does_feed hj.plainBelow
    obtain ⟨st', hnext, hmore⟩ := hmoves.nested hj jsonsl (jsonsl.feed j pre.length c).2 pre rest st
      hst
    exact hmore _ fun hclean => ih (hmoves.standing hj) st' (hnext hclean) (pre ++ [c])

/-- The events of every text nest. -/
theorem jsonsl_nested {j : JsonslSt} (hj : jsonsl.Reachable j) (text : Bytes) :
    Nested [] (textTokens jsonsl (jsonsl.reset j) [] text) := by
  have hstanding := standing_reachable (.reset j hj)
  apply nested_text hstanding
  have hroot : (jsonsl.reset j).top.type = .root := hstanding.rooted
  have hbottom : ((jsonsl.reset j).stack 0).container = none := by
    rw [JsonslEntry.container, hstanding.rooted]
  have hlevel : (jsonsl.reset j).level = 0 := rfl
  rw [Nests, hroot, hlevel, containers, hbottom]
  rfl

end LibBson.Source
