import LibBson.Source.VisibleLaws

/-!
# What an accepted document is known to satisfy

`bson_validate` judges the visible part of a buffer (`Level.visible`): a level is
not visited behind text that is not UTF-8 and behind a valid code scope, and an
embedded document that `bson_init_static` refuses is passed over, all without a
report. Structure, UTF-8 and keys are sound exactly where nothing is wrong in
the hidden part alone. Source: bson.c:3222-3444; bson-iter.c:1888-2151.
-/

set_option autoImplicit false

namespace LibBson.Guarantees
open LibBson.Library LibBson.Source LibBson.Spec

/-- The tree that a walk of the document sees. -/
def SeesDoc (b : BsonRef) (l : Level) : Prop := Sees (BsonIter.start (some b.data) b.len) l

theorem seesDoc_exists (b : BsonRef) (hmax : b.len ≤ maxLen) : ∃ l, SeesDoc b l :=
  exists_sees b hmax

/-- A document shorter than five octets is refused. -/
theorem validate_short {b : BsonRef} (h : b.len < 5) (flags : ValidateFlags) :
    (bsonValidate b flags).1 = false := by
  have hinit : bsonIterInit b = (false, BsonIter.zeroed) := by rw [bsonIterInit, if_pos h]
  simp [bsonValidate, bsonValidateInternal, hinit, ValidateState.fail]

theorem validate_iff {b : BsonRef} {l : Level} (hl : SeesDoc b l) (hmax : b.len ≤ maxLen)
    (flags : ValidateFlags) :
    (bsonValidate b flags).1 = true ↔
      5 ≤ b.len ∧ l.visible.Everywhere cleanHere true ∧
        (flags.utf8 = true → l.visible.Everywhere (utf8Here flags.utf8AllowNull) true) ∧
        l.visible.Everywhere (keysHere flags) true := by
  by_cases h5 : 5 ≤ b.len
  · rw [bsonValidate_iff hl h5 hmax, and_iff_right h5]
    unfold passesHere
    rw [Level.everywhere_and, Level.everywhere_and, Level.everywhere_imp]
  · rw [validate_short (by omega)]
    simp [h5]

/-! ## Structure -/

/-- Whatever is accepted is well formed at every depth, exactly when nothing is
malformed in the hidden part alone. -/
theorem validate_structure_iff (data : Mem) (length : Nat) (b : BsonRef) (l : Level)
    (hb : bsonInitStatic data length = some b) (hl : SeesDoc b l) :
    (∀ flags, (bsonValidate b flags).1 = true →
        l.Everywhere cleanHere (decide (Framed b.data 0 b.len))) ↔
      (l.visible.Everywhere cleanHere true → l.Everywhere cleanHere true) := by
  have hframed : Framed b.data 0 b.len ∧ b.len ≤ maxLen := by
    unfold bsonInitStatic at hb
    split_ifs at hb with h1 h2 h3
    cases hb
    exact ⟨⟨by simp only; omega, not_not.mp h2, by simpa using h3⟩, by
      unfold maxLen
      simp only
      omega⟩
  obtain ⟨hf, hmax⟩ := hframed
  rw [decide_eq_true hf]
  constructor
  · intro h hvisible
    refine h .none ((validate_iff hl hmax .none).mpr ⟨hf.1, hvisible, fun hu => (nomatch hu), ?_⟩)
    exact hvisible.mono fun _ _ _ _ =>
      ⟨fun he => (nomatch he), fun hd => (nomatch hd), fun hd => (nomatch hd)⟩
  · intro h flags hv
    exact h ((validate_iff hl hmax flags).mp hv).2.1

/-- `{"": Code ("", {}), "": <a double that is cut off>}` -/
def hiddenCorruption : Bytes :=
  [23, 0, 0, 0, 15, 0, 14, 0, 0, 0, 1, 0, 0, 0, 0, 5, 0, 0, 0, 0, 1, 0, 0]

def hiddenCorruptionRef : BsonRef := { data := Mem.ofBytes hiddenCorruption, len := 23 }

def hiddenCorruptionLevel : Level := .field [] (.scope [] true (.stop false)) (.stop true)

theorem sees_hiddenCorruption : SeesDoc hiddenCorruptionRef hiddenCorruptionLevel :=
  .field _ _ _ rfl
    (.codewscope _ { off := 14, len := 0 } { off := 15, len := 5 } _ rfl (.stop _ rfl)) (.stop _ rfl)

theorem validate_structure_iff_hiddenCorruption :
    (∀ flags, (bsonValidate hiddenCorruptionRef flags).1 = true →
        hiddenCorruptionLevel.Everywhere cleanHere
          (decide (Framed hiddenCorruptionRef.data 0 hiddenCorruptionRef.len))) ↔
      (hiddenCorruptionLevel.visible.Everywhere cleanHere true →
        hiddenCorruptionLevel.Everywhere cleanHere true) :=
  validate_structure_iff (Mem.ofBytes hiddenCorruption) 23 hiddenCorruptionRef hiddenCorruptionLevel
    rfl sees_hiddenCorruption

/-- The valid scope ends the visit, and the corrupt element behind it is accepted. -/
theorem hiddenCorruption_accepted :
    bsonInitStatic (Mem.ofBytes hiddenCorruption) 23 = some hiddenCorruptionRef ∧
      SeesDoc hiddenCorruptionRef hiddenCorruptionLevel ∧
      (bsonValidate hiddenCorruptionRef .none).1 = true ∧
      ¬ hiddenCorruptionLevel.Everywhere cleanHere true :=
  ⟨rfl, sees_hiddenCorruption, rfl, fun h => absurd h.1.2 (by decide)⟩

/-! ## UTF-8 -/

/-- Every UTF-8 string of an accepted document is UTF-8, exactly when a document
that has a bad one in the hidden part also has something wrong in the visible part. -/
theorem validate_utf8_iff (b : BsonRef) (l : Level) (allowNull : Bool) (hmax : b.len ≤ maxLen)
    (hl : SeesDoc b l) :
    (∀ flags, flags.utf8 = true → flags.utf8AllowNull = allowNull →
        (bsonValidate b flags).1 = true → l.Everywhere (utf8Here allowNull) true) ↔
      (5 ≤ b.len → l.visible.Everywhere cleanHere true →
        l.visible.Everywhere (utf8Here allowNull) true →
        l.Everywhere (utf8Here allowNull) true) := by
  constructor
  · intro h h5 hclean hutf8
    refine h { utf8 := true, utf8AllowNull := allowNull } rfl rfl
      ((validate_iff hl hmax _).mpr ⟨h5, hclean, fun _ => hutf8, ?_⟩)
    exact hclean.mono fun _ _ _ _ =>
      ⟨fun he => (nomatch he), fun hd => (nomatch hd), fun hd => (nomatch hd)⟩
  · rintro h flags hu rfl hv
    obtain ⟨h5, hclean, hutf8, -⟩ := (validate_iff hl hmax flags).mp hv
    exact h h5 hclean (hutf8 hu)

/-- `{"": "\xff"}` -/
def badUtf8 : Bytes := [13, 0, 0, 0, 2, 0, 2, 0, 0, 0, 255, 0, 0]

def badUtf8Ref : BsonRef := { data := Mem.ofBytes badUtf8, len := 13 }

def badUtf8Level : Level := .field [] (.utf8 [255]) (.stop false)

theorem sees_badUtf8 : SeesDoc badUtf8Ref badUtf8Level :=
  .field _ _ _ rfl (.utf8 _ { off := 10, len := 1 } rfl) (.stop _ rfl)

theorem validate_utf8_iff_badUtf8 :
    (∀ flags, flags.utf8 = true → flags.utf8AllowNull = false →
        (bsonValidate badUtf8Ref flags).1 = true →
        badUtf8Level.Everywhere (utf8Here false) true) ↔
      (5 ≤ badUtf8Ref.len → badUtf8Level.visible.Everywhere cleanHere true →
        badUtf8Level.visible.Everywhere (utf8Here false) true →
        badUtf8Level.Everywhere (utf8Here false) true) :=
  validate_utf8_iff badUtf8Ref badUtf8Level false (by decide) sees_badUtf8

/-- The check made before the callback stops the visit without a report. -/
theorem badUtf8_accepted :
    SeesDoc badUtf8Ref badUtf8Level ∧ (bsonValidate badUtf8Ref { utf8 := true }).1 = true ∧
      ¬ badUtf8Level.Everywhere (utf8Here false) true := by
  refine ⟨sees_badUtf8, rfl, fun h => ?_⟩
  have htext := h.1 ([], .utf8 [255]) (by simp [badUtf8Level, Level.fields]) [255] rfl
  rw [← bsonUtf8Validate_iff] at htext
  exact absurd htext (by decide)

/-! ## Keys -/

/-- The keys of an accepted document keep to the restrictions, exactly when a
document that has a bad one in the hidden part also has something wrong in the
visible part. -/
theorem validate_keys_iff (b : BsonRef) (l : Level) (keys : ValidateFlags) (hmax : b.len ≤ maxLen)
    (hl : SeesDoc b l) :
    (∀ utf8 utf8AllowNull,
        (bsonValidate b { keys with utf8 := utf8, utf8AllowNull := utf8AllowNull }).1 = true →
        l.Everywhere (keysHere keys) true) ↔
      (5 ≤ b.len → l.visible.Everywhere cleanHere true →
        l.visible.Everywhere (keysHere keys) true → l.Everywhere (keysHere keys) true) := by
  have hsame : ∀ utf8 utf8AllowNull (l : Level),
      l.Everywhere (keysHere { keys with utf8 := utf8, utf8AllowNull := utf8AllowNull }) true ↔
        l.Everywhere (keysHere keys) true := fun _ _ l =>
    ⟨fun h => h.mono fun _ _ _ hk => ⟨hk.empty, hk.dot, hk.dollar⟩,
      fun h => h.mono fun _ _ _ hk => ⟨hk.empty, hk.dot, hk.dollar⟩⟩
  constructor
  · intro h h5 hclean hkeys
    exact h false false ((validate_iff hl hmax _).mpr
      ⟨h5, hclean, fun hu => (nomatch hu), (hsame _ _ _).mpr hkeys⟩)
  · intro h utf8 utf8AllowNull hv
    obtain ⟨h5, hclean, -, hkeys⟩ := (validate_iff hl hmax _).mp hv
    exact h h5 hclean ((hsame _ _ _).mp hkeys)

/-- `{"": Code ("", {}), "$a": null}` -/
def hiddenDollar : Bytes :=
  [25, 0, 0, 0, 15, 0, 14, 0, 0, 0, 1, 0, 0, 0, 0, 5, 0, 0, 0, 0, 10, 36, 97, 0, 0]

def hiddenDollarRef : BsonRef := { data := Mem.ofBytes hiddenDollar, len := 25 }

def hiddenDollarLevel : Level :=
  .field [] (.scope [] true (.stop false)) (.field [36, 97] .plain (.stop false))

theorem sees_hiddenDollar : SeesDoc hiddenDollarRef hiddenDollarLevel :=
  .field _ _ _ rfl
    (.codewscope _ { off := 14, len := 0 } { off := 15, len := 5 } _ rfl (.stop _ rfl))
    (.field _ _ _ rfl (.plain _ .null rfl rfl) (.stop _ rfl))

theorem validate_keys_iff_hiddenDollar :
    (∀ utf8 utf8AllowNull,
        (bsonValidate hiddenDollarRef
          { dollarKeys := true, utf8 := utf8, utf8AllowNull := utf8AllowNull }).1 = true →
        hiddenDollarLevel.Everywhere (keysHere { dollarKeys := true }) true) ↔
      (5 ≤ hiddenDollarRef.len → hiddenDollarLevel.visible.Everywhere cleanHere true →
        hiddenDollarLevel.visible.Everywhere (keysHere { dollarKeys := true }) true →
        hiddenDollarLevel.Everywhere (keysHere { dollarKeys := true }) true) :=
  validate_keys_iff hiddenDollarRef hiddenDollarLevel { dollarKeys := true } (by decide)
    sees_hiddenDollar

/-- The key behind the valid scope is not checked. -/
theorem hiddenDollar_accepted :
    SeesDoc hiddenDollarRef hiddenDollarLevel ∧
      (bsonValidate hiddenDollarRef { dollarKeys := true }).1 = true ∧
      ¬ hiddenDollarLevel.Everywhere (keysHere { dollarKeys := true }) true := by
  refine ⟨sees_hiddenDollar, rfl, fun h => ?_⟩
  rcases h.1.dollar rfl with hnone | ⟨hplace, -⟩
  · exact hnone ([36, 97], .plain) (by simp [hiddenDollarLevel, Level.fields]) rfl
  · cases hplace

end LibBson.Guarantees
