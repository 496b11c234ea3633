import LibBson.Guarantees.ValidateSound

/-!
# The DBRef check accepts exactly DBRefs

For well-formed documents without code scopes whose keys and texts are UTF-8: there every
level is visible to the validator, so that each one is judged by its own keys.
Source: bson.c:3222-3428.
-/

set_option autoImplicit false

namespace LibBson.Guarantees
open LibBson.Library LibBson.Source LibBson.Spec

/-- The text of a value is UTF-8, and it is no code with a scope. -/
def TextContent : Content → Prop
  | .utf8 s => Utf8Text true s
  | .text s => Utf8Text true s
  | .scope .. => False
  | .plain => True
  | .nested .. => True

/-- The keys and texts of a level are UTF-8, and none of its values has a scope. -/
def textHere : Local := fun _ _ l =>
  ∀ f ∈ l.fields, (f.1 = [] ∨ Utf8Text false f.1) ∧ TextContent f.2

/-- A well-formed document whose walk sees `l`. -/
structure WellFormed (b : BsonRef) (l : Level) : Prop where
  sees : SeesDoc b l
  framed : Framed b.data 0 b.len
  max : b.len ≤ maxLen
  clean : l.Everywhere cleanHere true
  text : l.Everywhere textHere true

/-- The keys that a level may have: at the root none with a dollar sign, below it those of
a DBRef as well. -/
def dbrefHere : Local := fun place _ l => NoDollar l.fields ∨ place = .child ∧ Dbref l.fields

mutual

/-- Nothing of a level is hidden where all is well formed and UTF-8. -/
theorem Level.visible_self (l : Level) (hhere : textHere .root true l)
    (htext : l.Below textHere) (hclean : l.Below cleanHere) : l.visible = l := by
  match l with
  | .stop corrupt => rfl
  | .field key c rest =>
    rw [Level.Below] at htext hclean
    obtain ⟨hkey, hc⟩ := hhere (key, c) List.mem_cons_self
    have hrest : textHere .root true rest := fun f hf => hhere f (List.mem_cons_of_mem _ hf)
    have hvalid : validKey key = true := by
      rw [validKey, Bool.or_eq_true, decide_eq_true_eq]
      exact hkey.imp id (bsonUtf8Validate_iff key false).mpr
    have hgoes : c.ends = false := by
      cases c with
      | utf8 s | text s =>
        have hs : validText s = true := (bsonUtf8Validate_iff s true).mpr hc
        rw [Content.ends, hs]
        rfl
      | scope code framed l => exact absurd hc id
      | plain | nested framed l => rfl
    rw [Level.visible, if_pos hvalid, hgoes, Content.visible_self c hc htext.1 hclean.1,
      Level.visible_self rest hrest htext.2 hclean.2]
    rfl

theorem Content.visible_self (c : Content) (hhere : TextContent c) (htext : c.Below textHere)
    (hclean : c.Below cleanHere) : c.visible = c := by
  match c with
  | .plain | .text s => rfl
  | .utf8 s =>
    have hs : validText s = true := (bsonUtf8Validate_iff s true).mpr hhere
    rw [Content.visible, if_pos hs]
  | .nested framed l =>
    rw [Content.Below] at htext hclean
    obtain ⟨⟨hframed, -⟩, hbelow⟩ := hclean
    have hl := Level.visible_self l htext.1 htext.2 hbelow
    rw [Content.visible, if_pos hframed, hl, hframed]
  | .scope code framed l => exact absurd hhere id

end

/-- Validation with `BSON_VALIDATE_DOLLAR_KEYS` succeeds if and only if the root has no
dollar key and every document or array below has none or is a DBRef. -/
theorem dbref_keys_iff (b : BsonRef) (l : Level) (hwell : WellFormed b l) :
    (bsonValidate b { dollarKeys := true }).1 = true ↔ l.Everywhere dbrefHere true := by
  obtain ⟨hsees, hframed, hmax, hclean, htext⟩ := hwell
  have hvisible : l.visible = l := Level.visible_self l htext.1 htext.2 hclean.2
  rw [validate_iff hsees hmax, hvisible]
  constructor
  · intro h
    obtain ⟨-, -, -, hkeys⟩ := h
    exact hkeys.mono fun _ _ _ hk => hk.dollar rfl
  · intro h
    exact ⟨hframed.1, hclean, fun hu => (nomatch hu), h.mono fun _ _ _ hk =>
      ⟨fun he => (nomatch he), fun hd => (nomatch hd), fun _ => hk⟩⟩

/-- `{"r": {"$ref": "c", "$id": null}}` -/
def oneDbref : Bytes :=
  [30, 0, 0, 0, 3, 114, 0, 22, 0, 0, 0, 2, 36, 114, 101, 102, 0, 2, 0, 0, 0, 99, 0, 10, 36, 105, 100,
    0, 0, 0]

def oneDbrefRef : BsonRef := { data := Mem.ofBytes oneDbref, len := 30 }

def oneDbrefLevel : Level :=
  .field [114] (.nested true (.field refKey (.utf8 [99]) (.field idKey .plain (.stop false))))
    (.stop false)

theorem wellFormed_oneDbref : WellFormed oneDbrefRef oneDbrefLevel where
  sees :=
    .field _ _ _ rfl
      (.document _ { off := 7, len := 22 } _ rfl
        (.field _ _ _ rfl (.utf8 _ { off := 14, len := 1 } rfl)
          (.field _ _ _ rfl (.plain _ .null rfl rfl) (.stop _ rfl))))
      (.stop _ rfl)
  framed := by decide
  max := by decide
  clean := ⟨⟨rfl, rfl⟩, ⟨⟨rfl, rfl⟩, trivial, trivial, trivial⟩, trivial⟩
  text := by
    have hkey : ∀ key ∈ [[114], refKey, idKey], Utf8Text false key := by
      intro key hkey
      apply (bsonUtf8Validate_iff key false).mp
      revert key
      decide
    have hc : Utf8Text true [99] := (bsonUtf8Validate_iff _ _).mp (by decide)
    refine ⟨?_, ⟨?_, trivial, trivial, trivial⟩, trivial⟩
    · intro f hf
      rw [List.mem_singleton.mp hf]
      exact ⟨Or.inr (hkey [114] (by decide)), trivial⟩
    · intro f hf
      rcases List.mem_cons.mp hf with h | h
      · rw [h]
        exact ⟨Or.inr (hkey refKey (by decide)), hc⟩
      · rw [List.mem_singleton.mp h]
        exact ⟨Or.inr (hkey idKey (by decide)), trivial⟩

theorem dbref_keys_oneDbref :
    (bsonValidate oneDbrefRef { dollarKeys := true }).1 = true ↔
      oneDbrefLevel.Everywhere dbrefHere true :=
  dbref_keys_iff oneDbrefRef oneDbrefLevel wellFormed_oneDbref

end LibBson.Guarantees
