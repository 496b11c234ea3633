import LibBson.Source.JsonTokens

/-!
# What jsonsl does with a character

`Moves` says what a part of `jsonsl_feed` can do: change counters and flags,
report an error, push an entry, pop one, or one after the other. That tokens do
not overlap follows from it here.
Source: jsonsl.c:148-727.
-/

set_option autoImplicit false

namespace LibBson.Source
open LibBson.Library

/-- The type of the entry pushed with a callback. -/
def JsonslType.entry : JsonslType → JsonslEntryType
  | .object => .container true
  | .list => .container false
  | .string => .text false
  | .hkey => .text true
  | .special => .special

/-- The token that an entry pushed at `pos` opens, and whether it is quoted. -/
def JsonslEntryType.token (pos : Nat) : JsonslEntryType → Option (Nat × Bool)
  | .root | .container _ => none
  | .text _ => some (pos, true)
  | .special => some (pos, false)

def JsonslEntry.token (e : JsonslEntry) : Option (Nat × Bool) := e.type.token e.posBegin

theorem JsonslEntryType.token_pos {type : JsonslEntryType} {pos : Nat} {t : Nat × Bool}
    (h : t ∈ type.token pos) : t.1 = pos := by
  cases type <;> cases h <;> rfl

namespace JsonslSt

@[simp] theorem setTop_level (j : JsonslSt) (e : JsonslEntry) : (j.setTop e).level = j.level := rfl

@[simp] theorem setTop_top (j : JsonslSt) (e : JsonslEntry) : (j.setTop e).top = e := by
  simp [top, setTop]

theorem setTop_below (j : JsonslSt) (e : JsonslEntry) {i : Nat} (hi : i < j.level) :
    (j.setTop e).stack i = j.stack i := by
  rw [setTop]
  exact if_neg (by omega)

/-- An update of the top that keeps a field keeps it everywhere. -/
theorem setTop_field {α : Type} (j : JsonslSt) (e : JsonslEntry) (f : JsonslEntry → α)
    (h : f e = f j.top) (i : Nat) : f ((j.setTop e).stack i) = f (j.stack i) := by
  unfold setTop
  simp only
  split
  · next heq =>
    rw [heq]
    exact h
  · rfl

/-- Counters and flags change, but not the number of elements of a container. -/
structure Same (j j' : JsonslSt) : Prop where
  level : j'.level = j.level
  types : ∀ i, (j'.stack i).type = (j.stack i).type
  posBegins : ∀ i, (j'.stack i).posBegin = (j.stack i).posBegin
  nelem : ∀ i, (j.stack i).type ≠ .special → (j'.stack i).nelem = (j.stack i).nelem

/-- An entry is pushed at `pos`. -/
structure Push (pos : Nat) (c : UInt8) (type : JsonslType) (j j' : JsonslSt) : Prop where
  level : j'.level = j.level + 1
  types : ∀ i, i ≤ j.level → (j'.stack i).type = (j.stack i).type
  posBegins : ∀ i, i ≤ j.level → (j'.stack i).posBegin = (j.stack i).posBegin
  nelem : ∀ i, i < j.level → (j'.stack i).nelem = (j.stack i).nelem
  counted : (j'.stack j.level).nelem = j.top.nelem + 1
  entry : j'.top.type = type.entry
  begin : j'.top.posBegin = pos
  empty : type = .object ∨ type = .list → j'.top.nelem = 0
  plain : j.top.type ≠ .special ∧ ∀ hkey, j.top.type ≠ .text hkey
  key : type = .hkey → j.top.type = .container true ∧ j.top.nelem % 2 = 0
  value : type ≠ .hkey → j.top.type = .container true → j.top.nelem % 2 = 1
  contained : type = .string → j.top.type ≠ .root
  quoted : type = .string ∨ type = .hkey → c = 34

/-- The top entry is popped. -/
structure Pop (type : JsonslType) (j j' : JsonslSt) : Prop where
  level : j'.level = j.level - 1
  types : ∀ i, (j'.stack i).type = (j.stack i).type
  posBegins : ∀ i, (j'.stack i).posBegin = (j.stack i).posBegin
  nelem : ∀ i, i < j.level → (j'.stack i).nelem = (j.stack i).nelem
  entry : j.top.type = type.entry
  even : type = .object → j.top.nelem % 2 = 0

/-- What a part of `jsonsl_feed` does with the character `c` at `pos`. -/
inductive Moves (pos : Nat) (c : UInt8) : JsonslSt → List JsonslAction → JsonslSt → Prop
  | quiet {j j' : JsonslSt} (h : Same j j') : Moves pos c j [] j'
  | error {j j' : JsonslSt} (err : JsonslError) (hlevel : j'.level ≤ j.level)
      (htype : ∀ i, (j'.stack i).type = (j.stack i).type)
      (hcant : err = .cantInsert → j.top.token = none) : Moves pos c j [.error err] j'
  | push {j j' : JsonslSt} (type : JsonslType) (h : Push pos c type j j') :
      Moves pos c j [.push type pos] j'
  | after {j k j' : JsonslSt} {as : List JsonslAction} (h : Same j k) (h' : Moves pos c k as j') :
      Moves pos c j as j'
  | pop {j k j' : JsonslSt} {as : List JsonslAction} (type : JsonslType) (h : Pop type j k)
      (h' : Moves pos c k as j') : Moves pos c j (.pop (popped j.top type) :: as) j'

theorem Same.refl (j : JsonslSt) : Same j j := ⟨rfl, fun _ => rfl, fun _ => rfl, fun _ _ => rfl⟩

theorem Same.top_type {j j' : JsonslSt} (h : Same j j') : j'.top.type = j.top.type := by
  rw [top, top, h.level, h.types]

theorem Same.setTop (j : JsonslSt) {e : JsonslEntry} (htype : e.type = j.top.type)
    (hpos : e.posBegin = j.top.posBegin)
    (hnelem : j.top.type ≠ .special → e.nelem = j.top.nelem) : Same j (j.setTop e) where
  level := rfl
  types := setTop_field j e (·.type) htype
  posBegins := setTop_field j e (·.posBegin) hpos
  nelem := by
    intro i hi
    unfold JsonslSt.setTop
    simp only
    split
    · next heq =>
      rw [heq] at hi ⊢
      exact hnelem hi
    · rfl

section Parts

variable (j : JsonslSt) (pos : Nat) (c : UInt8)

/-- What a part does, from its result. -/
abbrev Does (r : List JsonslAction × JsonslSt) : Prop := Moves pos c j r.1 r.2

variable {j pos c}

theorem does_error {k : JsonslSt} {name : String} (hlevel : k.level ≤ j.level)
    (htype : ∀ i, (k.stack i).type = (j.stack i).type)
    (hcant : ({ name := ascii name } : JsonslError) = .cantInsert → j.top.token = none) :
    Does j pos c (k.invokeError name) := .error _ hlevel htype hcant

theorem does_quiet {k : JsonslSt} (h : Same j k) : Does j pos c ([], k) := .quiet h

/-- The count of the top's elements goes up, and an entry is pushed. -/
theorem does_push {k : JsonslSt} (type : JsonslType)
    {next : JsonslSt → List JsonslAction × JsonslSt}
    (hlevel : k.level = j.level)
    (hstack : k.stack = (j.setTop { j.top with nelem := j.top.nelem + 1 }).stack)
    (hplain : j.top.type ≠ .special ∧ ∀ hkey, j.top.type ≠ .text hkey)
    (hkey : type = .hkey → j.top.type = .container true ∧ j.top.nelem % 2 = 0)
    (hvalue : type ≠ .hkey → j.top.type = .container true → j.top.nelem % 2 = 1)
    (hcontained : type = .string → j.top.type ≠ .root)
    (hquoted : type = .string ∨ type = .hkey → c = 34)
    (hnext : ∀ k' : JsonslSt, k'.top.posBegin = pos →
      (next k').1 = [.push type pos] ∧ (next k').2.level = k'.level ∧
      (∀ i, i < k'.level → (next k').2.stack i = k'.stack i) ∧
      (next k').2.top.type = type.entry ∧ (next k').2.top.posBegin = pos ∧
      (type = .object ∨ type = .list → (next k').2.top.nelem = 0)) :
    Does j pos c (k.stackPush pos next) := by
  have htype := setTop_field j { j.top with nelem := j.top.nelem + 1 } (·.type) rfl
  have hpos := setTop_field j { j.top with nelem := j.top.nelem + 1 } (·.posBegin) rfl
  have hbelow := fun i hi => setTop_below j { j.top with nelem := j.top.nelem + 1 } (i := i) hi
  have htop : (j.setTop { j.top with nelem := j.top.nelem + 1 }).stack j.level =
      { j.top with nelem := j.top.nelem + 1 } := setTop_top j _
  rw [← hstack] at htype hpos hbelow htop
  unfold stackPush
  split
  · exact does_error (Nat.le_of_eq hlevel) htype fun h => absurd h (by decide)
  · obtain ⟨hactions, hlevel', hsame, hentry, hbegin, hempty⟩ := hnext
      (({ k with level := k.level + 1 } : JsonslSt).setTop
        { ({ k with level := k.level + 1 } : JsonslSt).top with posBegin := pos })
      (by rw [setTop_top])
    have hkept : ∀ i, i ≤ j.level → (next (({ k with level := k.level + 1 } : JsonslSt).setTop
        { ({ k with level := k.level + 1 } : JsonslSt).top with posBegin := pos })).2.stack i =
        k.stack i := by
      intro i hi
      have hin : i < k.level + 1 := by omega
      rw [hsame i hin]
      exact setTop_below ({ k with level := k.level + 1 } : JsonslSt) _ hin
    unfold Does
    rw [hactions]
    apply Moves.push type
    refine ⟨by rw [hlevel', setTop_level, hlevel], ?_, ?_, ?_, ?_, hentry, hbegin, hempty, hplain,
      hkey, hvalue, hcontained, hquoted⟩
    · exact fun i hi => (congrArg (·.type) (hkept i hi)).trans (htype i)
    · exact fun i hi => (congrArg (·.posBegin) (hkept i hi)).trans (hpos i)
    · intro i hi
      rw [hkept i (by omega), hbelow i hi]
    · rw [hkept _ (Nat.le_refl _), htop]

theorem Does.after {k : JsonslSt} {r : List JsonslAction × JsonslSt} (h : Same j k)
    (h' : Does k pos c r) : Does j pos c r := Moves.after h h'

theorem does_pop {k : JsonslSt} (type : JsonslType) (h : Pop type j k) :
    Does j pos c ([.pop (popped j.top type)], k) := .pop type h (.quiet (Same.refl k))

theorem does_callbackAndPop (type : JsonslType) (h : j.top.type = type.entry)
    (htext : type ≠ .object) : Does j pos c (j.callbackAndPop type) := by
  exact does_pop type ⟨rfl, setTop_field j _ (·.type) rfl, setTop_field j _ (·.posBegin) rfl,
    fun i hi => congrArg (·.nelem) (setTop_below j _ hi), h, fun h => absurd h htext⟩

/-- The text pushed by a quote. -/
theorem does_pushText {k : JsonslSt} (type : JsonslType) (hkey : Bool)
    {next : JsonslSt → List JsonslAction × JsonslSt} (hlevel : k.level = j.level)
    (hstack : k.stack = (j.setTop { j.top with nelem := j.top.nelem + 1 }).stack)
    (htype : type.entry = .text hkey) {object : Bool} (htop : j.top.type = .container object)
    (hcount : if hkey then object = true ∧ j.top.nelem % 2 = 0
      else object = true → j.top.nelem % 2 = 1)
    (hc : c = 34)
    (hnext : ∀ k' : JsonslSt, (next k').1 = [.push type pos] ∧
      (next k').2.level = k'.level ∧
      (next k').2.stack = (k'.setTop { k'.top with type := .text hkey }).stack) :
    Does j pos c (k.stackPush pos next) := by
  have hhkey : type = .hkey → hkey = true := by
    rintro rfl
    cases htype
    rfl
  have hstring : type ≠ .hkey → hkey = false := by
    intro h
    cases type <;> cases htype
    · rfl
    · exact absurd rfl h
  apply does_push type hlevel hstack
  · rw [htop]
    exact ⟨fun h => (nomatch h), fun _ h => (nomatch h)⟩
  · intro h
    rw [if_pos (hhkey h)] at hcount
    rw [htop, hcount.1]
    exact ⟨rfl, hcount.2⟩
  · intro h hobject
    rw [hstring h, if_neg (by decide)] at hcount
    rw [htop] at hobject
    cases hobject
    exact hcount rfl
  · rw [htop]
    exact fun _ h => (nomatch h)
  · exact fun _ => hc
  · intro k' hbegin
    obtain ⟨hactions, hlevel', hstack'⟩ := hnext k'
    have htop' : (next k').2.top = { k'.top with type := .text hkey } := by
      rw [top, hlevel', hstack']
      exact setTop_top k' _
    refine ⟨hactions, hlevel', ?_, by rw [htop', htype], by rw [htop']; exact hbegin, ?_⟩
    · intro i hi
      rw [hstack']
      exact setTop_below k' _ hi
    · rintro (rfl | rfl) <;> cases htype

theorem does_quote (hc : c = 34) : Does j pos c (j.quote pos) := by
  have hset := setTop_field j { j.top with nelem := j.top.nelem + 1 } (·.type) rfl
  have hstart : Same j { j with canInsert := false } :=
    ⟨rfl, fun _ => rfl, fun _ => rfl, fun _ _ => rfl⟩
  unfold quote
  simp only
  split
  · next hkey htop =>
    apply Does.after hstart
    apply does_callbackAndPop
    · have htop' : ({ j with canInsert := false } : JsonslSt).top.type = .text hkey := htop
      rw [htop']
      cases hkey <;> rfl
    · cases hkey <;> exact fun h => (nomatch h)
  · next htop =>
    have htype : j.top.type = .container true := htop
    simp only [setTop_top, Nat.add_sub_cancel]
    split
    · next hodd =>
      split
      · exact does_error (Nat.le_refl _) hset fun h => absurd h (by decide)
      · exact does_pushText .string false rfl rfl rfl htype (fun _ => hodd) hc
          fun k' => ⟨rfl, rfl, rfl⟩
    · next heven =>
      have hzero : j.top.nelem % 2 = 0 := by
        have hodd : ¬ j.top.nelem % 2 = 1 := heven
        omega
      split
      · exact does_error (Nat.le_refl _) hset fun h => absurd h (by decide)
      · exact does_pushText .hkey true rfl rfl rfl htype ⟨rfl, hzero⟩ hc fun k' => ⟨rfl, rfl, rfl⟩
  · next htop =>
    have htype : j.top.type = .container false := htop
    exact does_pushText .string false rfl rfl rfl htype (fun h => (nomatch h)) hc
      fun k' => ⟨rfl, rfl, rfl⟩
  · exact does_error (Nat.le_refl _) (fun _ => rfl) fun h => absurd h (by decide)
  · exact does_error (Nat.le_refl _) (fun _ => rfl) fun h => absurd h (by decide)

theorem lacksKey_false (h : ¬ j.lacksKey = true) (htop : j.top.type = .container true) :
    j.top.nelem % 2 = 1 := by
  simp only [lacksKey, htop, Bool.and_eq_true, beq_iff_eq, beq_self_eq_true, and_true] at h
  omega

/-- The top is no token. -/
def Plain (j : JsonslSt) : Prop := j.top.type ≠ .special ∧ ∀ hkey, j.top.type ≠ .text hkey

theorem Plain.token (h : j.Plain) : j.top.token = none := by
  rw [JsonslEntry.token]
  cases htop : j.top.type with
  | root => rfl
  | container object => rfl
  | text hkey => exact absurd htop (h.2 hkey)
  | special => exact absurd htop h.1

theorem does_specialBegin (hj : j.Plain) : Does j pos c (j.specialBegin pos c) := by
  unfold specialBegin
  simp only
  split
  · split
    · exact does_error (Nat.le_refl _) (fun _ => rfl) fun _ => hj.token
    · split <;> exact does_error (Nat.le_refl _) (fun _ => rfl) fun _ => hj.token
  · split
    · exact does_error (Nat.le_refl _) (fun _ => rfl) fun _ => hj.token
    · next hkey =>
      split
      · exact does_error (Nat.le_refl _) (setTop_field j _ (·.type) rfl) fun _ => hj.token
      · refine does_push .special rfl rfl hj (fun h => (nomatch h)) (fun _ => lacksKey_false hkey)
          (fun h => (nomatch h)) ?_ ?_
        · rintro (h | h) <;> cases h
        · intro k' hbegin
          refine ⟨rfl, rfl, fun i hi => setTop_below k' _ hi, ?_, ?_, ?_⟩
          · simp only [top, setTop, if_true]
            rfl
          · simp only [top, setTop, if_true]
            exact hbegin
          · rintro (h | h) <;> cases h

theorem does_openContainer (hj : j.Plain) (object : Bool) :
    Does j pos c (j.openContainer pos object) := by
  unfold openContainer
  split
  · exact does_error (Nat.le_refl _) (fun _ => rfl) fun _ => hj.token
  · split
    · exact does_error (Nat.le_refl _) (fun _ => rfl) fun _ => hj.token
    · next hkey =>
      refine does_push (if object then .object else .list) rfl rfl hj ?_
        (fun _ => lacksKey_false hkey) ?_ ?_ ?_
      · cases object <;> exact fun h => (nomatch h)
      · cases object <;> exact fun h => (nomatch h)
      · cases object <;> rintro (h | h) <;> cases h
      · intro k' hbegin
        refine ⟨rfl, rfl, fun i hi => setTop_below k' _ hi, ?_, ?_, fun _ => ?_⟩
        · simp only [top, setTop, if_true]
          cases object <;> rfl
        · simp only [top, setTop, if_true]
          exact hbegin
        · simp only [top, setTop, if_true]

theorem does_closeContainer (hj : j.Plain) (object : Bool) :
    Does j pos c (j.closeContainer object) := by
  unfold closeContainer
  split
  · exact does_error (Nat.le_refl _) (fun _ => rfl) fun _ => hj.token
  · simp only
    split
    · exact does_error (Nat.sub_le _ _) (fun _ => rfl) fun _ => hj.token
    · next htype =>
      rw [not_not] at htype
      split
      · exact does_error (Nat.sub_le _ _) (fun _ => rfl) fun _ => hj.token
      · next hcount =>
        refine does_pop _ ⟨rfl, fun _ => rfl, fun _ => rfl, fun _ _ => rfl, ?_, ?_⟩
        · rw [htype]
          cases object <;> rfl
        · intro h
          cases object with
          | true =>
            have hzero : ¬ (True ∧ ¬ j.top.nelem % 2 = 0) := by simpa using hcount
            simpa using hzero
          | false => cases h

theorem does_structuralToken (hj : j.Plain) : Does j pos c (j.structuralToken pos c) := by
  unfold structuralToken
  split
  · split
    · exact does_error (Nat.le_refl _) (fun _ => rfl) fun _ => hj.token
    · exact does_quiet ⟨rfl, fun _ => rfl, fun _ => rfl, fun _ _ => rfl⟩
  · split
    · split
      · exact does_error (Nat.le_refl _) (fun _ => rfl) fun _ => hj.token
      · exact does_quiet ⟨rfl, fun _ => rfl, fun _ => rfl, fun _ _ => rfl⟩
    · split
      · exact does_openContainer hj true
      · split
        · exact does_openContainer hj false
        · split
          · exact does_closeContainer hj true
          · split
            · exact does_closeContainer hj false
            · exact does_specialBegin hj

theorem specialChecked_error {name : String} (h : j.specialChecked = .error name) :
    ({ name := ascii name } : JsonslError) ≠ .cantInsert := by
  have hnumber : ({ name := ascii "INVALID_NUMBER" } : JsonslError) ≠ .cantInsert := by decide
  have hincomplete : ({ name := ascii "SPECIAL_INCOMPLETE" } : JsonslError) ≠ .cantInsert := by
    decide
  unfold specialChecked at h
  simp only at h
  repeat' split at h
  all_goals cases h
  all_goals first
    | exact hnumber
    | exact hincomplete

theorem specialChecked_ok {e : JsonslEntry} (h : j.specialChecked = .ok e) :
    e.type = j.top.type ∧ e.posBegin = j.top.posBegin := by
  unfold specialChecked at h
  simp only at h
  repeat' split at h
  all_goals cases h
  all_goals exact ⟨rfl, rfl⟩

/-- What is behind the top when it is popped. -/
def plainBelow (j : JsonslSt) : Prop := ∀ j' : JsonslSt, j'.level = j.level - 1 →
  (∀ i, (j'.stack i).type = (j.stack i).type) → j'.Plain

theorem does_specialPop (htop : j.top.type = .special) (hbelow : j.plainBelow) :
    Does j pos c (j.specialPop pos c) := by
  unfold specialPop
  cases hcheck : j.specialChecked with
  | error name =>
    exact does_error (Nat.le_refl _) (fun _ => rfl) fun h => absurd h (specialChecked_error hcheck)
  | ok e =>
    obtain ⟨htype, hpos⟩ := specialChecked_ok hcheck
    have hset := Same.setTop j htype hpos fun h => absurd htop h
    have hk : Same j (({ j with canInsert := false } : JsonslSt).setTop e) :=
      ⟨rfl, hset.types, hset.posBegins, hset.nelem⟩
    have htop' := hk.top_type.trans htop
    simp only [callbackAndPop]
    generalize ({ j with canInsert := false } : JsonslSt).setTop e = k at hk htop'
    have hpop : Pop .special k { k.setTop { k.top with nescapes := 0 } with
        level := k.level - 1, tokLast := 0, expecting := 44 } :=
      ⟨rfl, setTop_field k _ (·.type) rfl, setTop_field k _ (·.posBegin) rfl,
        fun i hi => congrArg (·.nelem) (setTop_below k _ hi), htop', fun h => (nomatch h)⟩
    split
    · exact Moves.after hk (.pop .special hpop (.quiet (Same.refl _)))
    · have hplain := hbelow { k.setTop { k.top with nescapes := 0 } with
          level := k.level - 1, tokLast := 0, expecting := 44 } (by rw [← hk.level])
        fun i => (hpop.types i).trans (hk.types i)
      exact Moves.after hk (.pop .special hpop (does_structuralToken hplain))

theorem does_specialNumericChar (htop : j.top.type = .special) (hbelow : j.plainBelow) :
    Does j pos c (j.specialNumericChar pos c) := by
  have hinvalid : Does j pos c (j.invokeError "INVALID_NUMBER") :=
    does_error (Nat.le_refl _) (fun _ => rfl) fun h => absurd h (by decide)
  have hquiet : ∀ last e, e.type = j.top.type → e.posBegin = j.top.posBegin →
      Does j pos c ([], { j.setTop e with tokLast := last }) := by
    intro last e htype hpos
    have hsame := Same.setTop j htype hpos fun h => absurd htop h
    exact does_quiet ⟨hsame.level, hsame.types, hsame.posBegins, hsame.nelem⟩
  have hlast : ∀ last, Does j pos c ([], { j with tokLast := last }) :=
    fun last => does_quiet ⟨rfl, fun _ => rfl, fun _ => rfl, fun _ _ => rfl⟩
  unfold specialNumericChar
  simp only
  split
  · exact hlast 49
  · split
    · split
      · exact hinvalid
      · exact hquiet _ _ rfl rfl
    · split
      · split
        · exact hinvalid
        · exact hquiet _ _ rfl rfl
      · split
        · split
          · exact hinvalid
          · exact hlast 45
        · split
          · exact does_specialPop htop hbelow
          · exact hinvalid

theorem does_specialLetter (htop : j.top.type = .special) :
    Does j pos c (j.specialLetter pos c) := by
  have hset := setTop_field j { j.top with nescapes := j.top.nescapes + 1 } (·.type) rfl
  have hsame := Same.setTop j (e := { j.top with nescapes := j.top.nescapes + 1 }) rfl rfl
    fun h => absurd htop h
  have htop' := hsame.top_type.trans htop
  unfold specialLetter
  simp only
  generalize j.setTop { j.top with nescapes := j.top.nescapes + 1 } = k at hset hsame htop'
  have hexpected : Does j pos c (k.invokeError "SPECIAL_EXPECTED") :=
    does_error (Nat.le_of_eq hsame.level) hset fun h => absurd h (by decide)
  have hquiet : Does j pos c ([], k) := does_quiet hsame
  have hflags : ∀ e : JsonslEntry, e.type = k.top.type → e.posBegin = k.top.posBegin →
      Does j pos c ([], k.setTop e) := fun e htype hpos =>
    Does.after hsame (does_quiet (Same.setTop k htype hpos fun h => absurd htop' h))
  have hverify : ∀ (p : Prop) [Decidable p],
      Does j pos c (if p then k.invokeError "SPECIAL_EXPECTED" else ([], k)) := by
    intro p _
    split
    · exact hexpected
    · exact hquiet
  split
  · exact hverify _
  · split
    · exact hverify _
    · split
      · exact hverify _
      · split
        · exact hverify _
        · split
          · exact hverify _
          · split
            · exact hverify _
            · split
              · exact hflags _ rfl rfl
              · exact hquiet

theorem does_specialChar (htop : j.top.type = .special) (hbelow : j.plainBelow) :
    Does j pos c (j.specialChar pos c) := by
  have hinvalid : Does j pos c (j.invokeError "INVALID_NUMBER") :=
    does_error (Nat.le_refl _) (fun _ => rfl) fun h => absurd h (by decide)
  have hset : ∀ e : JsonslEntry, e.type = j.top.type → e.posBegin = j.top.posBegin →
      Same j (j.setTop e) := fun e htype hpos => Same.setTop j htype hpos fun h => absurd htop h
  unfold specialChar
  simp only
  split
  · split
    · exact does_quiet (hset _ rfl rfl)
    · exact does_specialNumericChar htop hbelow
  · split
    · split
      · exact does_quiet (hset _ rfl rfl)
      · split
        · exact hinvalid
        · split <;> exact does_quiet (hset _ rfl rfl)
    · split
      · split
        · exact hinvalid
        · have hsame := hset { j.top with specialFlags := specialUnsigned } rfl rfl
          apply Does.after hsame
          apply does_specialNumericChar (hsame.top_type.trans htop)
          exact fun j' hlevel htypes => hbelow j' hlevel fun i => (htypes i).trans (hsame.types i)
      · split
        · exact does_specialNumericChar htop hbelow
        · split
          · exact does_specialLetter htop
          · exact does_specialPop htop hbelow

theorem does_textChar : Does j pos c (j.textChar pos c) := by
  have hescape : Same j { j with inEscape := false } :=
    ⟨rfl, fun _ => rfl, fun _ => rfl, fun _ _ => rfl⟩
  unfold textChar
  split
  · simp only
    split
    · exact does_quiet hescape
    · exact does_error (Nat.le_refl _) (fun _ => rfl) fun h => absurd h (by decide)
  · split
    · exact does_quiet (Same.refl j)
    · split
      · next hc => exact does_quote hc
      · split
        · have hsame := Same.setTop j (e := { j.top with nescapes := j.top.nescapes + 1 }) rfl rfl
            fun _ => rfl
          exact does_quiet ⟨hsame.level, hsame.types, hsame.posBegins, hsame.nelem⟩
        · exact does_error (Nat.le_refl _) (fun _ => rfl) fun h => absurd h (by decide)

/-- What `jsonsl_feed` does with a character, if the entries below a token are containers. -/
theorem does_feed (hbelow : j.plainBelow) : Does j pos c (j.feed pos c) := by
  unfold feed
  split
  · exact does_textChar
  · next htop => exact does_specialChar htop hbelow
  · next htext hspecial =>
    have hj : j.Plain := ⟨hspecial, htext⟩
    split
    · exact does_quiet (Same.refl j)
    · split
      · exact does_specialBegin hj
      · split
        · next hc => exact does_quote hc
        · split
          · exact does_error (Nat.le_refl _) (fun _ => rfl) fun _ => hj.token
          · exact does_structuralToken hj

end Parts

/-! ## Tokens do not overlap -/

/-- The first entry is the root and no other is, and what is below the top is no token. -/
structure Standing (j : JsonslSt) : Prop where
  rooted : (j.stack 0).type = .root
  contained : ∀ i, 0 < i → i ≤ j.level → (j.stack i).type ≠ .root
  below : ∀ i, i < j.level → (j.stack i).type ≠ .special ∧ ∀ hkey, (j.stack i).type ≠ .text hkey

theorem Standing.plainBelow {j : JsonslSt} (h : j.Standing) : j.plainBelow := by
  intro j' hlevel htypes
  rw [Plain, top, htypes, hlevel]
  by_cases hzero : j.level = 0
  · rw [hzero, h.rooted]
    exact ⟨fun h => (nomatch h), fun _ h => (nomatch h)⟩
  · exact h.below _ (by omega)

theorem Standing.of_types {j j' : JsonslSt} (h : j.Standing) (hlevel : j'.level ≤ j.level)
    (htypes : ∀ i, (j'.stack i).type = (j.stack i).type) : j'.Standing := by
  refine ⟨(htypes 0).trans h.rooted, fun i hpos hi => ?_, fun i hi => ?_⟩
  · rw [htypes]
    exact h.contained i hpos (by omega)
  · rw [htypes]
    exact h.below i (by omega)

theorem Standing.pushed {j j' : JsonslSt} (h : j.Standing) {pos : Nat} {c : UInt8}
    {type : JsonslType} (hpush : Push pos c type j j') : j'.Standing := by
  refine ⟨(hpush.types 0 (Nat.zero_le _)).trans h.rooted, fun i hpos hi => ?_, fun i hi => ?_⟩
  · by_cases htop : i = j'.level
    · subst htop
      have hentry := hpush.entry
      rw [top] at hentry
      rw [hentry]
      cases type <;> exact fun h => (nomatch h)
    · rw [hpush.level] at hi htop
      rw [hpush.types i (by omega)]
      exact h.contained i hpos (by omega)
  · rw [hpush.level] at hi
    rw [hpush.types i (by omega)]
    by_cases htop : i = j.level
    · subst htop
      exact hpush.plain
    · exact h.below i (by omega)

theorem Moves.standing {j j' : JsonslSt} {pos : Nat} {c : UInt8} {as : List JsonslAction}
    (h : Moves pos c j as j') (hj : j.Standing) : j'.Standing := by
  induction h with
  | quiet h => exact hj.of_types (Nat.le_of_eq h.level) h.types
  | error err hlevel htype hcant => exact hj.of_types hlevel htype
  | push type h => exact hj.pushed h
  | after h _ ih => exact ih (hj.of_types (Nat.le_of_eq h.level) h.types)
  | pop type h _ ih => exact ih (hj.of_types (by rw [h.level]; exact Nat.sub_le _ _) h.types)

/-- The entries that resets and characters lead to. -/
theorem standing_reachable {j : JsonslSt} (h : jsonsl.Reachable j) : j.Standing := by
  induction h with
  | zeroed =>
    exact ⟨rfl, fun i hpos hi => absurd hpos (by rw [Nat.le_zero.mp hi]; exact Nat.lt_irrefl 0),
      fun i hi => absurd hi (Nat.not_lt_zero i)⟩
  | reset j _ ih =>
    exact ⟨ih.rooted, fun i hpos hi => absurd hpos (by rw [Nat.le_zero.mp hi]; exact Nat.lt_irrefl 0),
      fun i hi => absurd hi (Nat.not_lt_zero i)⟩
  | feed j pos c _ ih => exact (does_feed ih.plainBelow).standing ih

theorem Same.token {j j' : JsonslSt} (h : Same j j') : j'.top.token = j.top.token := by
  rw [JsonslEntry.token, JsonslEntry.token, h.top_type, top, top, h.level, h.posBegins]

theorem Plain.of_pop {j j' : JsonslSt} {type : JsonslType} (h : Pop type j j') (hj : j.Standing) :
    j'.top.token = none :=
  Plain.token (hj.plainBelow j' h.level h.types)

/-- The token that is open on the top of the stack is the one the actions leave open. -/
theorem Moves.order {j j' : JsonslSt} {pos : Nat} {c : UInt8} {as : List JsonslAction}
    (h : Moves pos c j as j') (hj : j.Standing) (hbegun : ∀ t ∈ j.top.token, t.1 < pos) :
    ∃ tok', tokenAfter pos c j.top.token as = some tok' ∧
      (as.any JsonslAction.isError = false →
        j'.top.token = tok' ∧ ∀ t ∈ tok', t.1 < pos + 1) := by
  induction h with
  | quiet h =>
    exact ⟨_, rfl, fun _ => ⟨h.token, fun t ht => Nat.lt_succ_of_lt (hbegun t ht)⟩⟩
  | error err hlevel htype hcant =>
    refine ⟨none, ?_, fun h => (nomatch h)⟩
    rw [tokenAfter, if_neg]
    intro herr
    rw [hcant herr.1] at herr
    exact absurd herr.2.2 (by decide)
  | push type h =>
    have hnone : _ = none := Plain.token h.plain
    refine ⟨type.entry.token pos, ?_, fun _ => ⟨?_, ?_⟩⟩
    · rw [hnone]
      cases type with
      | object => rfl
      | list => rfl
      | string => exact if_pos ⟨rfl, h.quoted (Or.inl rfl)⟩
      | hkey => exact if_pos ⟨rfl, h.quoted (Or.inr rfl)⟩
      | special => exact if_pos rfl
    · rw [JsonslEntry.token, h.entry, h.begin]
    · intro t ht
      rw [JsonslEntryType.token_pos ht]
      exact Nat.lt_succ_self pos
  | after h _ ih =>
    rw [← h.token]
    exact ih (hj.of_types (Nat.le_of_eq h.level) h.types) (h.token ▸ hbegun)
  | @pop j k j' as type h h' ih =>
    have hnone := Plain.of_pop h hj
    obtain ⟨tok', horder, hmore⟩ := ih
      (hj.of_types (by rw [h.level]; exact Nat.sub_le _ _) h.types)
      (by rw [hnone]; exact fun _ ht => (nomatch ht))
    rw [hnone] at horder
    refine ⟨tok', ?_, hmore⟩
    have htop : j.top.token = type.entry.token j.top.posBegin := by
      rw [JsonslEntry.token, h.entry]
    have hbefore : ∀ q, j.top.token = some (j.top.posBegin, q) → j.top.posBegin < pos :=
      fun q hq => hbegun (j.top.posBegin, q) (by rw [hq]; rfl)
    rw [htop] at hbefore ⊢
    rw [← horder]
    cases type with
    | object => rfl
    | list => rfl
    | string => exact if_pos ⟨rfl, hbefore true rfl, rfl⟩
    | hkey => exact if_pos ⟨rfl, hbefore true rfl, rfl⟩
    | special => exact if_pos ⟨rfl, hbefore false rfl, rfl⟩

theorem tokensFrom {j : JsonslSt} {pos : Nat} (hj : j.Standing)
    (hbegun : ∀ t ∈ j.top.token, t.1 < pos) (text : Bytes) :
    jsonsl.TokensFrom j pos j.top.token text := by
  induction text generalizing j pos with
  | nil => exact trivial
  | cons c rest ih =>
    have hmoves : Moves pos c j (j.feed pos c).1 (j.feed pos c).2 := does_feed hj.plainBelow
    obtain ⟨tok', horder, hmore⟩ := hmoves.order hj hbegun
    refine ⟨tok', horder, fun hclean => ?_⟩
    obtain ⟨htop, hnext⟩ := hmore hclean
    rw [← htop] at hnext ⊢
    exact ih (hmoves.standing hj) hnext

end JsonslSt

/-- The tokens of jsonsl do not overlap. -/
theorem jsonsl_tokensInOrder : jsonsl.TokensInOrder := by
  intro j hj text
  have hstanding := JsonslSt.standing_reachable (.reset j hj)
  have hroot : (jsonsl.reset j).top.token = none := by
    have htype : (jsonsl.reset j).top.type = .root := hstanding.rooted
    rw [JsonslEntry.token, htype]
    rfl
  have hbegun : ∀ t ∈ (jsonsl.reset j).top.token, t.1 < 0 := by
    rw [hroot]
    exact fun _ ht => (nomatch ht)
  have htokens := JsonslSt.tokensFrom hstanding hbegun text
  rw [hroot] at htokens
  exact htokens

end LibBson.Source
