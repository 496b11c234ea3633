import LibBson.Source.ValidateLaws

/-!
# Validation accepts what passes in the visible part

`dollar_child`, `dollar_top`: the phase machine of the DBRef check accepts the
keys that the declarative rule allows. `bsonValidate_iff`: the validator returns
true exactly when everything it is asked for holds of the visible part of the
tree, at every depth.
-/

set_option autoImplicit false

namespace LibBson.Source
open LibBson.Library LibBson.Spec

/-! ## The phase machine -/

/-- The phase behind a value. -/
def afterValue (phase : ValidatePhase) : Content → ValidatePhase
  | .utf8 _ =>
    match phase with
    | .lfRefUtf8 => .lfIdKey
    | .lfDbUtf8 => .notDbref
    | phase => phase
  | _ => phase

/-- The machine accepts the fields from `phase` on. -/
def DollarFrom (phase : ValidatePhase) : List (Bytes × Content) → Prop
  | [] => phase.pending = false
  | f :: fs => ∃ next, dollarStep phase f.1 = .ok next ∧ DollarFrom (afterValue next f.2) fs

theorem noDollar_cons {f : Bytes × Content} {fs : List (Bytes × Content)} :
    NoDollar (f :: fs) ↔ f.1.head? ≠ some 36 ∧ NoDollar fs := by
  simp [NoDollar]

theorem afterValue_notDbref (c : Content) : afterValue .notDbref c = .notDbref := by
  cases c <;> rfl

theorem afterValue_lfDbKey (c : Content) : afterValue .lfDbKey c = .lfDbKey := by
  cases c <;> rfl

/-- A phase in which every dollar key is refused and no key is awaited. -/
theorem dollar_plain {phase : ValidatePhase} (h1 : phase.pending = false)
    (h2 : phase ≠ .lfRefKey) (h3 : phase ≠ .lfDbKey) (fs : List (Bytes × Content)) :
    DollarFrom phase fs ↔ NoDollar fs := by
  have h4 : phase ≠ .lfIdKey := by
    rintro rfl
    cases h1
  induction fs generalizing phase with
  | nil => simp [DollarFrom, NoDollar, h1]
  | cons f fs ih =>
    rw [noDollar_cons, DollarFrom]
    unfold dollarStep
    by_cases hd : f.1.head? = some 36
    · simp [hd, h2, h3, h4]
    · have hrest := @ih .notDbref rfl (by simp) (by simp) (by simp)
      simp [hd, h1, afterValue_notDbref, hrest]

theorem dollar_top (fs : List (Bytes × Content)) : DollarFrom .top fs ↔ NoDollar fs :=
  dollar_plain rfl (by simp) (by simp) fs

theorem dollar_notDbref (fs : List (Bytes × Content)) : DollarFrom .notDbref fs ↔ NoDollar fs :=
  dollar_plain rfl (by simp) (by simp) fs

/-- Without its UTF-8 value a `$ref` or `$db` is not followed by any key. -/
theorem dollar_stuck {phase : ValidatePhase} (h : phase = .lfRefUtf8 ∨ phase = .lfDbUtf8)
    (fs : List (Bytes × Content)) : ¬ DollarFrom phase fs := by
  rcases h with rfl | rfl <;> cases fs with
  | nil => simp [DollarFrom, ValidatePhase.pending]
  | cons f fs =>
    rintro ⟨next, h, -⟩
    unfold dollarStep at h
    by_cases hd : f.1.head? = some 36 <;> simp [hd, ValidatePhase.pending] at h

theorem dollar_db (fs : List (Bytes × Content)) :
    DollarFrom .lfDbKey fs ↔
      NoDollar fs ∨ ∃ db rest, fs = (dbKey, db) :: rest ∧ IsUtf8 db ∧ NoDollar rest := by
  cases fs with
  | nil => simp [DollarFrom, NoDollar, ValidatePhase.pending]
  | cons f fs =>
    obtain ⟨key, c⟩ := f
    rw [noDollar_cons, DollarFrom]
    unfold dollarStep
    by_cases hd : key.head? = some 36
    · by_cases hk : key = dbKey
      · subst hk
        have hstep : DollarFrom (afterValue .lfDbUtf8 c) fs ↔ IsUtf8 c ∧ NoDollar fs := by
          cases c with
          | utf8 s => simp [afterValue, IsUtf8, dollar_notDbref]
          | _ => simp [afterValue, IsUtf8, dollar_stuck]
        simp [hd, hstep]
      · simp [hd, hk]
    · have hk : key ≠ dbKey := by
        rintro rfl
        exact hd rfl
      simp [hd, hk, ValidatePhase.pending, afterValue_notDbref, dollar_notDbref]

theorem dollar_id (fs : List (Bytes × Content)) :
    DollarFrom .lfIdKey fs ↔ ∃ id rest, fs = (idKey, id) :: rest ∧ DollarFrom .lfDbKey rest := by
  cases fs with
  | nil => simp [DollarFrom, ValidatePhase.pending]
  | cons f fs =>
    obtain ⟨key, c⟩ := f
    rw [DollarFrom]
    unfold dollarStep
    by_cases hd : key.head? = some 36
    · by_cases hk : key = idKey
      · subst hk
        simp [hd, afterValue_lfDbKey]
      · simp [hd, hk]
    · have hk : key ≠ idKey := by
        rintro rfl
        exact hd rfl
      simp [hd, hk, ValidatePhase.pending]

/-- In an embedded document the machine accepts keys without a dollar sign and DBRefs. -/
theorem dollar_child (fs : List (Bytes × Content)) :
    DollarFrom .lfRefKey fs ↔ NoDollar fs ∨ Dbref fs := by
  cases fs with
  | nil => simp [DollarFrom, NoDollar, ValidatePhase.pending]
  | cons f fs =>
    obtain ⟨key, c⟩ := f
    rw [noDollar_cons, DollarFrom]
    unfold dollarStep Dbref
    by_cases hd : key.head? = some 36
    · by_cases hk : key = refKey
      · subst hk
        have hstep : DollarFrom (afterValue .lfRefUtf8 c) fs ↔ IsUtf8 c ∧
            ∃ id rest, fs = (idKey, id) :: rest ∧ DollarFrom .lfDbKey rest := by
          cases c with
          | utf8 s => simp [afterValue, IsUtf8, dollar_id]
          | _ => simp [afterValue, IsUtf8, dollar_stuck]
        simp only [dollar_db] at hstep
        simp only [hd, if_true, true_and, Except.ok.injEq, exists_eq_left', hstep, ne_eq,
          not_true_eq_false, false_and, false_or, List.cons.injEq, Prod.mk.injEq]
        constructor
        · rintro ⟨hc, id, rest, hfs, hrest⟩
          exact ⟨c, id, rest, ⟨rfl, hfs⟩, hc, hrest⟩
        · rintro ⟨ref, id, rest, ⟨rfl, hfs⟩, href, hrest⟩
          exact ⟨href, id, rest, hfs, hrest⟩
      · simp [hd, hk]
    · have hk : key ≠ refKey := by
        rintro rfl
        exact hd rfl
      simp [hd, hk, ValidatePhase.pending, afterValue_notDbref, dollar_notDbref]

/-! ## One field at a time -/

/-- What validation asks of the fields of a level that are visited from `phase` on. -/
structure Passes (flags : ValidateFlags) (phase : ValidatePhase) (l : Level) : Prop where
  clean : l.corrupt = false
  utf8 : flags.utf8 = true → utf8Here flags.utf8AllowNull .root true l
  empty : flags.emptyKeys = true → ∀ f ∈ l.fields, f.1 ≠ []
  dot : flags.dotKeys = true → ∀ f ∈ l.fields, 46 ∉ f.1
  dollar : flags.dollarKeys = true → DollarFrom phase l.fields
  below : l.Below (passesHere flags)

/-- What validation asks of a value. -/
def ValueGood (flags : ValidateFlags) (c : Content) : Prop :=
  (flags.utf8 = true → ∀ s, c = .utf8 s → Utf8Text flags.utf8AllowNull s) ∧
    c.Below (passesHere flags)

/-- The phase behind a value, when there are phases. -/
def valueStep (flags : ValidateFlags) (phase : ValidatePhase) (c : Content) : ValidatePhase :=
  if flags.dollarKeys = true then afterValue phase c else phase

theorem passes_stop {flags : ValidateFlags} {phase : ValidatePhase} {corrupt : Bool} :
    Passes flags phase (.stop corrupt) ↔
      corrupt = false ∧ (flags.dollarKeys = true → phase.pending = false) := by
  constructor
  · rintro ⟨h1, -, -, -, h2, -⟩
    exact ⟨h1, h2⟩
  · rintro ⟨h1, h2⟩
    exact ⟨h1, fun _ f hf => (nomatch hf), fun _ f hf => (nomatch hf), fun _ f hf => (nomatch hf), h2,
      trivial⟩

theorem keyStep_eq_some {flags : ValidateFlags} {phase ph : ValidatePhase} {key : Bytes} :
    keyStep flags phase key = some ph ↔
      (flags.emptyKeys = true → key ≠ []) ∧ (flags.dotKeys = true → 46 ∉ key) ∧
        if flags.dollarKeys = true then dollarStep phase key = .ok ph else phase = ph := by
  unfold keyStep
  by_cases he : flags.emptyKeys = true ∧ key = []
  · rw [if_pos he]
    simp [he.1, he.2]
  · rw [if_neg he]
    dsimp only
    by_cases hdot : flags.dotKeys = true ∧ 46 ∈ key
    · rw [if_pos hdot]
      simp [hdot.1, hdot.2]
    · rw [if_neg hdot]
      have h1 : flags.emptyKeys = true → key ≠ [] := fun h hk => he ⟨h, hk⟩
      have h2 : flags.dotKeys = true → 46 ∉ key := fun h hk => hdot ⟨h, hk⟩
      rw [and_iff_right h1, and_iff_right h2]
      by_cases hdollar : flags.dollarKeys = true
      · rw [if_pos hdollar, if_pos hdollar]
        cases hd : dollarStep phase key <;> simp [Except.toOption]
      · rw [if_neg hdollar, if_neg hdollar]
        simp

theorem passes_field {flags : ValidateFlags} {phase : ValidatePhase} {key : Bytes} {c : Content}
    {rest : Level} :
    Passes flags phase (.field key c rest) ↔
      ∃ ph, keyStep flags phase key = some ph ∧ ValueGood flags c ∧
        Passes flags (valueStep flags ph c) rest := by
  simp only [keyStep_eq_some]
  constructor
  · rintro ⟨h1, h2, h3, h4, h5, h6⟩
    rw [Level.Below] at h6
    have hgood : ValueGood flags c :=
      ⟨fun h s hs => h2 h (key, c) (List.mem_cons_self ..) s hs, h6.1⟩
    have hrest : ∀ ph, (flags.dollarKeys = true → DollarFrom (afterValue ph c) rest.fields) →
        Passes flags (valueStep flags ph c) rest := fun ph hd => {
      clean := h1
      utf8 := fun h f hf => h2 h f (List.mem_cons_of_mem _ hf)
      empty := fun h f hf => h3 h f (List.mem_cons_of_mem _ hf)
      dot := fun h f hf => h4 h f (List.mem_cons_of_mem _ hf)
      dollar := fun h => by
        rw [valueStep, if_pos h]
        exact hd h
      below := h6.2 }
    have hempty : flags.emptyKeys = true → key ≠ [] :=
      fun h => h3 h (key, c) (List.mem_cons_self ..)
    have hdot : flags.dotKeys = true → 46 ∉ key := fun h => h4 h (key, c) (List.mem_cons_self ..)
    by_cases hdollar : flags.dollarKeys = true
    · obtain ⟨ph, hstep, hfrom⟩ := h5 hdollar
      exact ⟨ph, ⟨hempty, hdot, by rw [if_pos hdollar]; exact hstep⟩, hgood,
        hrest ph fun _ => hfrom⟩
    · exact ⟨phase, ⟨hempty, hdot, by rw [if_neg hdollar]⟩, hgood,
        hrest phase fun h => absurd h hdollar⟩
  · rintro ⟨ph, ⟨hempty, hdot, hstep⟩, ⟨hutf8, hbelow⟩, h1, h2, h3, h4, h5, h6⟩
    exact {
      clean := h1
      utf8 := fun h f hf => by
        rcases List.mem_cons.mp hf with rfl | hf
        · exact hutf8 h
        · exact h2 h f hf
      empty := fun h f hf => by
        rcases List.mem_cons.mp hf with rfl | hf
        · exact hempty h
        · exact h3 h f hf
      dot := fun h f hf => by
        rcases List.mem_cons.mp hf with rfl | hf
        · exact hdot h
        · exact h4 h f hf
      dollar := fun h => by
        rw [if_pos h] at hstep
        have hd := h5 h
        rw [valueStep, if_pos h] at hd
        exact ⟨ph, hstep, hd⟩
      below := by
        rw [Level.Below]
        exact ⟨hbelow, h6⟩ }

/-- An embedded document passes where it stands. -/
theorem passes_child {flags : ValidateFlags} {l : Level} :
    Passes flags .lfRefKey l ↔ passesHere flags .child true l ∧ l.Below (passesHere flags) := by
  constructor
  · rintro ⟨h1, h2, h3, h4, h5, h6⟩
    exact ⟨⟨⟨rfl, h1⟩, h2, h3, h4, fun h =>
      ((dollar_child _).mp (h5 h)).imp id fun hd => ⟨rfl, hd⟩⟩, h6⟩
  · rintro ⟨⟨⟨-, h1⟩, h2, h3, h4, h5⟩, h6⟩
    exact ⟨h1, h2, h3, h4, fun h => (dollar_child _).mpr ((h5 h).imp id And.right), h6⟩

/-- The root and every scope are judged alike: no key may start with a dollar sign. -/
theorem passes_top {flags : ValidateFlags} {place : Place} {l : Level} (hp : place ≠ .child) :
    Passes flags .top l ↔ passesHere flags place true l ∧ l.Below (passesHere flags) := by
  constructor
  · rintro ⟨h1, h2, h3, h4, h5, h6⟩
    exact ⟨⟨⟨rfl, h1⟩, h2, h3, h4, fun h => Or.inl ((dollar_top _).mp (h5 h))⟩, h6⟩
  · rintro ⟨⟨⟨-, h1⟩, h2, h3, h4, h5⟩, h6⟩
    exact ⟨h1, h2, h3, h4, fun h => (dollar_top _).mpr ((h5 h).resolve_right fun hd => hp hd.1), h6⟩

/-! ## The check passes on the visible part -/

theorem settled_some {phase : ValidatePhase} :
    settled (some phase) = true ↔ phase.pending = false := by
  simp [settled]

theorem dollarStep_not_pending {flags : ValidateFlags} {phase ph : ValidatePhase} {key : Bytes}
    (h : keyStep flags phase key = some ph)
    (hp : flags.dollarKeys = false → phase.pending = false) :
    flags.dollarKeys = false → ph.pending = false := by
  intro hd
  obtain ⟨-, -, heq⟩ := keyStep_eq_some.mp h
  rw [if_neg (by simp [hd])] at heq
  rw [← heq]
  exact hp hd

theorem valueStep_not_pending {flags : ValidateFlags} {ph : ValidatePhase} {c : Content}
    (hp : flags.dollarKeys = false → ph.pending = false) :
    flags.dollarKeys = false → (valueStep flags ph c).pending = false := by
  intro hd
  rw [valueStep, if_neg (by simp [hd])]
  exact hp hd

mutual

theorem settled_levelCheck (flags : ValidateFlags) (l : Level) (phase : ValidatePhase)
    (hp : flags.dollarKeys = false → phase.pending = false) :
    settled (levelCheck flags phase l) = true ↔ Passes flags phase l.visible := by
  match l with
  | .stop corrupt =>
    rw [levelCheck, Level.visible, passes_stop]
    cases corrupt with
    | true => simp [settled]
    | false =>
      cases hd : flags.dollarKeys with
      | true => simp [settled]
      | false => simp [settled, hp hd]
  | .field key c rest =>
    rw [levelCheck, Level.visible]
    by_cases hkey : validKey key = true
    · rw [if_pos hkey, if_pos hkey, passes_field]
      cases hk : keyStep flags phase key with
      | none => simp [settled]
      | some ph =>
        have hph := dollarStep_not_pending hk hp
        obtain ⟨h1, h2⟩ := contentCheck_eq flags c ph
        simp only [Option.some.injEq, exists_eq_left']
        by_cases hgood : ValueGood flags c.visible
        · rw [h1 hgood]
          have hph' := valueStep_not_pending (c := c.visible) hph
          cases hends : c.ends with
          | true =>
            simp only [hgood, true_and, if_true, settled_some, passes_stop]
            cases hd : flags.dollarKeys with
            | true => simp
            | false => simp [hph' hd]
          | false =>
            simp only [hgood, true_and, Bool.false_eq_true, if_false]
            exact settled_levelCheck flags rest _ hph'
        · rw [h2 hgood]
          simp [settled, hgood]
    · rw [if_neg hkey, if_neg hkey, passes_stop]
      simp [settled]

theorem contentCheck_eq (flags : ValidateFlags) (c : Content) (ph : ValidatePhase) :
    (ValueGood flags c.visible →
      contentCheck flags ph c = some (c.ends, valueStep flags ph c.visible)) ∧
    (¬ ValueGood flags c.visible → contentCheck flags ph c = none) := by
  match c with
  | .plain =>
    refine ⟨fun _ => ?_, fun h => absurd ⟨fun _ s hs => (nomatch hs), trivial⟩ h⟩
    simp [contentCheck, Content.ends, Content.visible, valueStep, afterValue]
  | .utf8 s =>
    rw [contentCheck, Content.visible, Content.ends]
    by_cases hv : validText s = true
    · rw [if_pos hv, if_pos hv]
      have hgood : ValueGood flags (.utf8 s) ↔
          ¬ (flags.utf8 = true ∧ bsonUtf8Validate s flags.utf8AllowNull = false) := by
        rw [ValueGood, Content.Below]
        simp only [Content.utf8.injEq, forall_eq', and_true, ← bsonUtf8Validate_iff]
        cases bsonUtf8Validate s flags.utf8AllowNull <;> simp
      rw [hgood]
      refine ⟨fun h => ?_, fun h => ?_⟩
      · rw [if_neg h]
        simp only [hv, Bool.not_true, Option.some.injEq, Prod.mk.injEq, true_and]
        rfl
      · rw [if_pos (not_not.mp h)]
    · rw [if_neg hv, if_neg hv]
      refine ⟨fun _ => ?_, fun h => absurd ⟨fun _ s hs => (nomatch hs), trivial⟩ h⟩
      simp [hv, valueStep, afterValue]
  | .text s =>
    refine ⟨fun _ => ?_, fun h => absurd ⟨fun _ s hs => (nomatch hs), trivial⟩ h⟩
    simp [contentCheck, Content.ends, Content.visible, valueStep, afterValue]
  | .nested framed l =>
    rw [contentCheck, Content.visible, Content.ends]
    cases framed with
    | false =>
      refine ⟨fun _ => ?_, fun h => absurd ⟨fun _ s hs => (nomatch hs), trivial⟩ h⟩
      simp [valueStep, afterValue]
    | true =>
      have hset := settled_levelCheck flags l .lfRefKey fun _ => rfl
      rw [passes_child] at hset
      have hgood : ValueGood flags (.nested true l.visible) ↔
          settled (levelCheck flags .lfRefKey l) = true := by
        rw [ValueGood, Content.Below, hset]
        simp
      simp only [if_true, hgood]
      refine ⟨fun h => ?_, fun h => ?_⟩
      · rw [if_pos h]
        simp [valueStep, afterValue]
      · rw [if_neg h]
  | .scope code framed l =>
    rw [contentCheck, Content.visible, Content.ends]
    by_cases hv : validText code = true
    · rw [if_pos hv]
      cases framed with
      | false =>
        refine ⟨fun _ => ?_, fun h => absurd ⟨fun _ s hs => ?_, ?_⟩ h⟩
        · simp [hv, valueStep, afterValue]
        · simp at hs
        · simp [Content.Below]
      | true =>
        have hset := settled_levelCheck flags l .top fun _ => rfl
        rw [passes_top (show Place.scope ≠ .child by simp)] at hset
        have hgood : ValueGood flags (.scope code true l.visible) ↔
            settled (levelCheck flags .top l) = true := by
          rw [ValueGood, Content.Below, hset]
          simp
        simp only [hv, Bool.and_true, if_true, hgood]
        refine ⟨fun h => ?_, fun h => ?_⟩
        · rw [if_pos h]
          simp [valueStep, afterValue]
        · rw [if_neg h]
    · rw [if_neg hv]
      refine ⟨fun _ => ?_, fun h => absurd ⟨fun _ s hs => ?_, ?_⟩ h⟩
      · simp [hv, valueStep, afterValue]
      · simp [hv] at hs
      · simp [hv, Content.Below]

end

/-- `bson_validate` accepts what passes in the visible part of the buffer. -/
theorem bsonValidate_iff {b : BsonRef} {l : Level}
    (hsees : Sees (BsonIter.start (some b.data) b.len) l) (h5 : 5 ≤ b.len) (hmax : b.len ≤ maxLen)
    (flags : ValidateFlags) :
    (bsonValidate b flags).1 = true ↔ l.visible.Everywhere (passesHere flags) true := by
  rw [bsonValidate_check hsees h5 hmax, settled_levelCheck flags l .top fun _ => rfl,
    passes_top (show Place.root ≠ .child by simp), Level.Everywhere]

end LibBson.Source
