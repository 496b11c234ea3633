import LibBson.Source.Validate

/-!
# What a walk of any buffer sees

A buffer need not be an encoding. `Level` is the tree that stepping through it and
into its documents, arrays and scopes comes upon: the fields of each level in
order, how the level ends, and for an embedded document whether its octets frame
it. `Sees it l` says that `l` is the tree of `it`; every iterator has one
(`exists_sees`, in `LibBson.Source.LevelLaws`), so a statement about all trees of a buffer is one about the
buffer.
-/

set_option autoImplicit false

namespace LibBson.Spec
open LibBson.Library LibBson.Source

mutual

inductive Level where
  | stop (corrupt : Bool)
  | field (key : Bytes) (content : Content) (rest : Level)

/-- A value as far as it matters to validation: `text` is code, a symbol, the
collection of a DBPointer or the pattern of a regex, `nested` a document or an
array, `plain` any other value. -/
inductive Content where
  | plain
  | utf8 (text : Bytes)
  | text (text : Bytes)
  | nested (framed : Bool) (level : Level)
  | scope (code : Bytes) (framed : Bool) (level : Level)

end

/-- The `len` octets at `o` are framed as a document: at least five, spelled by
the leading length word, and closed by a NUL. -/
def Framed (m : Mem) (o len : Nat) : Prop := 5 ≤ len ∧ m.le o 4 = len ∧ m (o + len - 1) = 0

instance (m : Mem) (o len : Nat) : Decidable (Framed m o len) :=
  inferInstanceAs (Decidable (_ ∧ _ ∧ _))

/-- Types whose value is neither text nor a document. -/
def plainType : BsonType → Bool
  | .utf8 | .document | .array | .regex | .dbpointer | .code | .symbol | .codewscope | .eod => false
  | _ => true

/-- An iterator over a slice of the buffer, as `bson_iter_recurse` opens it. -/
def childIter (e : BsonIter) (p : Slice) : BsonIter :=
  BsonIter.start (some (e.mem.shift p.off)) p.len

mutual

inductive Sees : BsonIter → Level → Prop
  | stop (it : BsonIter) (h : (bsonIterNextInternal it).ok = false) :
    Sees it (.stop (decide ((bsonIterNextInternal it).iter.errOff ≠ 0)))
  | field (it : BsonIter) (c : Content) (rest : Level)
    (h : (bsonIterNextInternal it).ok = true) (hc : Shows (bsonIterNext it).2 c)
    (hrest : Sees (bsonIterNext it).2 rest) :
    Sees it (.field (bsonIterKeyUnsafe (bsonIterNext it).2) c rest)

/-- The value the accessors return on the current element. -/
inductive Shows : BsonIter → Content → Prop
  | plain (e : BsonIter) (t : BsonType) (h : iterType e = some t) (ht : plainType t = true) :
    Shows e .plain
  | utf8 (e : BsonIter) (p : Slice) (h : bsonIterUtf8 e = some p) : Shows e (.utf8 (e.octets p))
  | code (e : BsonIter) (p : Slice) (h : bsonIterCode e = some p) : Shows e (.text (e.octets p))
  | symbol (e : BsonIter) (p : Slice) (h : bsonIterSymbol e = some p) :
    Shows e (.text (e.octets p))
  | dbpointer (e : BsonIter) (p : Slice) (o : Nat) (h : bsonIterDbpointer e = some (p, o)) :
    Shows e (.text (e.octets p))
  | regex (e : BsonIter) (p q : Nat) (h : bsonIterRegex e = some (p, q)) :
    Shows e (.text (e.cstring p))
  | document (e : BsonIter) (p : Slice) (l : Level) (h : bsonIterDocument e = some p)
    (hl : Sees (childIter e p) l) :
    Shows e (.nested (decide (Framed e.mem p.off p.len)) l)
  | array (e : BsonIter) (p : Slice) (l : Level) (h : bsonIterArray e = some p)
    (hl : Sees (childIter e p) l) :
    Shows e (.nested (decide (Framed e.mem p.off p.len)) l)
  | codewscope (e : BsonIter) (p q : Slice) (l : Level) (h : bsonIterCodewscope e = some (p, q))
    (hl : Sees (childIter e q) l) :
    Shows e (.scope (e.octets p) (decide (Framed e.mem q.off q.len)) l)

end

/-! ## Properties at every depth -/

/-- Where a level stands. -/
inductive Place where
  | root | child | scope
  deriving DecidableEq, Repr

def Level.fields : Level → List (Bytes × Content)
  | .stop _ => []
  | .field key c rest => (key, c) :: rest.fields

/-- The walk of the level itself ends in a corruption. -/
def Level.corrupt : Level → Bool
  | .stop corrupt => corrupt
  | .field _ _ rest => rest.corrupt

section Everywhere

/-- A property of a level, its place and whether it is framed. -/
abbrev Local : Type := Place → Bool → Level → Prop

mutual

/-- `P` holds of every level under the fields of `l`, at any depth. -/
def Level.Below (P : Local) : Level → Prop
  | .stop _ => True
  | .field _ c rest => c.Below P ∧ rest.Below P

def Content.Below (P : Local) : Content → Prop
  | .nested framed l => P .child framed l ∧ l.Below P
  | .scope _ framed l => P .scope framed l ∧ l.Below P
  | .plain => True
  | .utf8 _ => True
  | .text _ => True

end

def Level.Everywhere (P : Local) (framed : Bool) (l : Level) : Prop :=
  P .root framed l ∧ l.Below P

variable {P Q : Local}

mutual

theorem Level.Below.mono (h : ∀ place framed l, P place framed l → Q place framed l) (l : Level)
    (hl : l.Below P) : l.Below Q := by
  match l with
  | .stop _ => trivial
  | .field _ c rest =>
    rw [Level.Below] at hl ⊢
    exact ⟨Content.Below.mono h c hl.1, Level.Below.mono h rest hl.2⟩

theorem Content.Below.mono (h : ∀ place framed l, P place framed l → Q place framed l)
    (c : Content) (hc : c.Below P) : c.Below Q := by
  match c with
  | .nested framed l =>
    rw [Content.Below] at hc ⊢
    exact ⟨h _ _ _ hc.1, Level.Below.mono h l hc.2⟩
  | .scope _ framed l =>
    rw [Content.Below] at hc ⊢
    exact ⟨h _ _ _ hc.1, Level.Below.mono h l hc.2⟩
  | .plain | .utf8 _ | .text _ => trivial

end

mutual

theorem Level.below_of (h : ∀ place framed l, P place framed l) (l : Level) : l.Below P := by
  match l with
  | .stop _ => trivial
  | .field _ c rest =>
    rw [Level.Below]
    exact ⟨Content.below_of h c, Level.below_of h rest⟩

theorem Content.below_of (h : ∀ place framed l, P place framed l) (c : Content) : c.Below P := by
  match c with
  | .nested framed l =>
    rw [Content.Below]
    exact ⟨h _ _ _, Level.below_of h l⟩
  | .scope _ framed l =>
    rw [Content.Below]
    exact ⟨h _ _ _, Level.below_of h l⟩
  | .plain | .utf8 _ | .text _ => trivial

end

mutual

theorem Level.below_and (l : Level) :
    l.Below (fun place framed l => P place framed l ∧ Q place framed l) ↔
      l.Below P ∧ l.Below Q := by
  match l with
  | .stop _ => simp [Level.Below]
  | .field _ c rest =>
    simp only [Level.Below, Content.below_and c, Level.below_and rest]
    tauto

theorem Content.below_and (c : Content) :
    c.Below (fun place framed l => P place framed l ∧ Q place framed l) ↔
      c.Below P ∧ c.Below Q := by
  match c with
  | .nested framed l =>
    simp only [Content.Below, Level.below_and l]
    tauto
  | .scope _ framed l =>
    simp only [Content.Below, Level.below_and l]
    tauto
  | .plain | .utf8 _ | .text _ => simp [Content.Below]

end

theorem Level.everywhere_and (framed : Bool) (l : Level) :
    l.Everywhere (fun place framed l => P place framed l ∧ Q place framed l) framed ↔
      l.Everywhere P framed ∧ l.Everywhere Q framed := by
  simp only [Level.Everywhere, Level.below_and]
  tauto

theorem Level.everywhere_imp (p : Prop) (framed : Bool) (l : Level) :
    l.Everywhere (fun place framed l => p → P place framed l) framed ↔
      (p → l.Everywhere P framed) := by
  by_cases hp : p
  · simp [hp]
  · exact ⟨fun _ h => absurd h hp,
      fun _ => ⟨fun h => absurd h hp, Level.below_of (fun _ _ _ h => absurd h hp) l⟩⟩

theorem Level.Everywhere.mono (h : ∀ place framed l, P place framed l → Q place framed l)
    {framed : Bool} {l : Level} (hl : l.Everywhere P framed) : l.Everywhere Q framed :=
  ⟨h _ _ _ hl.1, Level.Below.mono h l hl.2⟩

end Everywhere

/-! ## What validation is asked for -/

/-- Well-formed structure: the octets frame the level and its walk ends clean. -/
def cleanHere : Local := fun _ framed l => framed = true ∧ l.corrupt = false

/-- Every UTF-8 string of the level is UTF-8. -/
def utf8Here (allowNull : Bool) : Local := fun _ _ l =>
  ∀ f ∈ l.fields, ∀ s, f.2 = .utf8 s → Utf8Text allowNull s

def IsUtf8 : Content → Prop
  | .utf8 _ => True
  | _ => False

/-- No key starts with a dollar sign. -/
def NoDollar (fs : List (Bytes × Content)) : Prop := ∀ f ∈ fs, f.1.head? ≠ some 36

/-- `$ref` (UTF-8), `$id`, optionally `$db` (UTF-8), then keys without a dollar sign. -/
def Dbref (fs : List (Bytes × Content)) : Prop :=
  ∃ ref id rest, fs = (refKey, ref) :: (idKey, id) :: rest ∧ IsUtf8 ref ∧
    (NoDollar rest ∨ ∃ db rest', rest = (dbKey, db) :: rest' ∧ IsUtf8 db ∧ NoDollar rest')

/-- The restrictions that the flags put on the keys of a level. -/
structure KeysHere (flags : ValidateFlags) (place : Place) (l : Level) : Prop where
  empty : flags.emptyKeys = true → ∀ f ∈ l.fields, f.1 ≠ []
  dot : flags.dotKeys = true → ∀ f ∈ l.fields, 46 ∉ f.1
  dollar : flags.dollarKeys = true → NoDollar l.fields ∨ place = .child ∧ Dbref l.fields

def keysHere (flags : ValidateFlags) : Local := fun place _ l => KeysHere flags place l

/-- All that validation with `flags` is asked for. -/
def passesHere (flags : ValidateFlags) : Local := fun place framed l =>
  cleanHere place framed l ∧ (flags.utf8 = true → utf8Here flags.utf8AllowNull place framed l) ∧
    keysHere flags place framed l

/-! ## The visible part -/

/-- Text the visitor accepts, NUL included. -/
def validText (s : Bytes) : Bool := bsonUtf8Validate s true

/-- A key the visitor accepts. -/
def validKey (key : Bytes) : Bool := key = [] || bsonUtf8Validate key false

/-- The element ends the visit of its level, or an error is reported in it. -/
def Content.ends : Content → Bool
  | .utf8 s => !validText s
  | .text s => !validText s
  | .scope code framed _ => !validText code || framed
  | .plain => false
  | .nested .. => false

mutual

/-- The level cut behind the first element that ends its visit, or at the first
key that is not UTF-8, without the values that are not looked into. -/
def Level.visible : Level → Level
  | .stop corrupt => .stop corrupt
  | .field key c rest =>
    if validKey key then .field key c.visible (if c.ends then .stop false else rest.visible)
    else .stop true

def Content.visible : Content → Content
  | .utf8 s => if validText s then .utf8 s else .plain
  | .nested framed l => if framed then .nested true l.visible else .plain
  | .scope code framed l =>
    if validText code && framed then .scope code true l.visible else .plain
  | .plain => .plain
  | .text s => .text s

end

end LibBson.Spec
