import LibBson.Source.BconExtract
import LibBson.Spec.BconTree

/-!
# What BCON arguments ask of a document

`BconPattern false` is a well-formed sequence of extraction arguments between two braces, or
up to the NULL that ends the list; `BconPattern true` is one between two brackets. `needs`
are the elements asked for, each by the path to it.
-/

set_option autoImplicit false

namespace LibBson.Spec
open LibBson.Library LibBson.Source

/-- `p` points to the octets. -/
def PointsTo (p : BconOut) (bs : Bytes) : Prop := ∃ m, p = .pointer (some m) ∧ Holds m 0 bs

end LibBson.Spec

namespace LibBson.Source.BconExtractU
open LibBson.Spec

/-- The arguments of a `BCONE_` macro. -/
def args : BconExtractU → List VaArg
  | .utf8 x => [.magicE, .type .utf8, .out x]
  | .double x => [.magicE, .type .double, .out x]
  | .document x => [.magicE, .type .document, .out x]
  | .array x => [.magicE, .type .array, .out x]
  | .bin subtype binary length =>
    [.magicE, .type .bin, .out subtype, .out binary, .out length]
  | .undefined => [.magicE, .type .undefined]
  | .oid x => [.magicE, .type .oid, .out x]
  | .bool x => [.magicE, .type .bool, .out x]
  | .dateTime x => [.magicE, .type .dateTime, .out x]
  | .null => [.magicE, .type .null]
  | .regex r f => [.magicE, .type .regex, .out r, .out f]
  | .dbpointer c o => [.magicE, .type .dbpointer, .out c, .out o]
  | .code x => [.magicE, .type .code, .out x]
  | .symbol x => [.magicE, .type .symbol, .out x]
  | .codewscope js scope => [.magicE, .type .codewscope, .out js, .out scope]
  | .int32 x => [.magicE, .type .int32, .out x]
  | .timestamp t i => [.magicE, .type .timestamp, .out t, .out i]
  | .int64 x => [.magicE, .type .int64, .out x]
  | .decimal128 x => [.magicE, .type .decimal128, .out x]
  | .maxkey => [.magicE, .type .maxkey]
  | .minkey => [.magicE, .type .minkey]
  | .skip t => [.magicE, .type .skip, .bsonType t]
  | .iter x => [.magicE, .type .iter, .out x]

/-- The value has the requested type. -/
def Fits (u : BconExtractU) (v : Value) : Prop :=
  u.wants = none ∨ u.wants = some v.type

/-- The stores give the variables the value. -/
def Stores : BconExtractU → Value → BconStores → Prop
  | .utf8 x, .utf8 s, w => ∃ p, w = [(x, p)] ∧ PointsTo p (s ++ [0])
  | .double x, .double bits, w => w = [(x, .double bits.toNat)]
  | .document x, .document d, w => ∃ b, w = [(x, .bson b)] ∧ Encodes b d
  | .array x, .array d, w => ∃ b, w = [(x, .bson b)] ∧ Encodes b d
  | .bin subtype binary length, .binary t data, w =>
    ∃ p, w = [(subtype, .subtype t), (length, .uint32 data.length), (binary, p)] ∧ PointsTo p data
  | .undefined, .undefined, w => w = []
  | .oid x, .oid o, w => ∃ p, w = [(x, p)] ∧ PointsTo p o.bytes
  | .bool x, .bool b, w => w = [(x, .bool b)]
  | .dateTime x, .dateTime ms, w => w = [(x, .int64 ms.toInt)]
  | .null, .null, w => w = []
  | .regex r f, .regex pattern options, w =>
    ∃ p q, w = [(f, q), (r, p)] ∧ PointsTo p (pattern.bytes ++ [0]) ∧
      PointsTo q (options.bytes ++ [0])
  | .dbpointer c id, .dbpointer s o, w =>
    ∃ p q, w = [(c, p), (id, q)] ∧ PointsTo p (s ++ [0]) ∧ PointsTo q o.bytes
  | .code x, .code s, w => ∃ p, w = [(x, p)] ∧ PointsTo p (s ++ [0])
  | .symbol x, .symbol s, w => ∃ p, w = [(x, p)] ∧ PointsTo p (s ++ [0])
  | .codewscope js scope, .codewscope s d, w =>
    ∃ p b, w = [(js, p), (scope, .bson b)] ∧ PointsTo p (s ++ [0]) ∧ Encodes b d
  | .int32 x, .int32 n, w => w = [(x, .int32 n.toInt)]
  | .timestamp x y, .timestamp t i, w => w = [(x, .uint32 t.toNat), (y, .uint32 i.toNat)]
  | .int64 x, .int64 n, w => w = [(x, .int64 n.toInt)]
  | .decimal128 x, .decimal128 low high, w => w = [(x, .decimal128 low.toNat high.toNat)]
  | .maxkey, .maxkey, w => w = []
  | .minkey, .minkey, w => w = []
  | .skip t, v, w => v.type = t ∧ w = []
  | .iter x, v, w => ∃ m e k, w = [(x, .iter e)] ∧ At m e k v
  | _, _, _ => False

end LibBson.Source.BconExtractU

namespace LibBson.Spec
open LibBson.Library LibBson.Source

/-- The key of a member. An array's element has none. -/
inductive BconSeek : Bool → Type
  | key (s : Bytes) (h : Bare s) : BconSeek false
  | position : BconSeek true

namespace BconSeek

def args {a : Bool} : BconSeek a → List VaArg
  | key s _ => [.str s]
  | position => []

/-- The key that is looked for, at position `i` of an array. -/
def text {a : Bool} (i : Nat) : BconSeek a → Bytes
  | key s _ => cText s
  | position => decimal i

/-- The position behind position `i`, which only arrays count. -/
def next {a : Bool} (i : Nat) : BconSeek a → Nat
  | key .. => i
  | position => i + 1

/-- The length of a key is an `int`. -/
def Short {a : Bool} : BconSeek a → Prop
  | key s _ => (cText s).length < 2147483648
  | position => True

end BconSeek

/-- The members asked of a document, or the elements asked of an array. -/
inductive BconPattern : Bool → Type
  | nil {a : Bool} : BconPattern a
  | single {a : Bool} (name : BconSeek a) (u : BconExtractU) (rest : BconPattern a) : BconPattern a
  | document {a : Bool} (name : BconSeek a) (child : BconPattern false) (rest : BconPattern a) :
    BconPattern a
  | array {a : Bool} (name : BconSeek a) (child : BconPattern true) (rest : BconPattern a) :
    BconPattern a

/-- An element asked for: the path to it and what is to be done with it. -/
structure BconNeed where
  path : List Bytes
  u : BconExtractU

/-- The path leads to an element of the requested type. -/
def BconNeed.Met (n : BconNeed) (d : Doc) : Prop :=
  ∃ way v, d.lookup n.path = some (way, v) ∧ n.u.Fits v

/-- The stores give the variables the value at the path. -/
def BconNeed.Answered (d : Doc) (n : BconNeed) (w : BconStores) : Prop :=
  ∃ way v, d.lookup n.path = some (way, v) ∧ n.u.Stores v w

/-- The need of an element below the key `k`. -/
def BconNeed.below (k : Bytes) (n : BconNeed) : BconNeed := { n with path := k :: n.path }

namespace BconPattern

def args {a : Bool} : BconPattern a → List VaArg
  | nil => []
  | single name u rest => name.args ++ (u.args ++ rest.args)
  | document name child rest =>
    name.args ++ (.str [123] :: (child.args ++ (.str [125] :: rest.args)))
  | array name child rest =>
    name.args ++ (.str [91] :: (child.args ++ (.str [93] :: rest.args)))

/-- The elements asked for in order, an array's from position `i` on. A pair of braces or of
brackets asks for a document or an array of whatever content. -/
def needs {a : Bool} : Nat → BconPattern a → List BconNeed
  | _, nil => []
  | i, single name u rest => { path := [name.text i], u := u } :: rest.needs (name.next i)
  | i, document name child rest =>
    { path := [name.text i], u := .skip .document } ::
      ((child.needs 0).map (BconNeed.below (name.text i)) ++ rest.needs (name.next i))
  | i, array name child rest =>
    { path := [name.text i], u := .skip .array } ::
      ((child.needs 0).map (BconNeed.below (name.text i)) ++ rest.needs (name.next i))

/-- The position behind the elements, the first of them being at position `i`. -/
def stop {a : Bool} : Nat → BconPattern a → Nat
  | i, nil => i
  | i, single name _ rest => rest.stop (name.next i)
  | i, document name _ rest => rest.stop (name.next i)
  | i, array name _ rest => rest.stop (name.next i)

/-- How many documents and arrays are open at once. -/
def depth {a : Bool} : BconPattern a → Nat
  | nil => 0
  | single _ _ rest => rest.depth
  | document _ child rest => max (child.depth + 1) rest.depth
  | array _ child rest => max (child.depth + 1) rest.depth

/-- The length of every key is an `int`. -/
def Short {a : Bool} : BconPattern a → Prop
  | nil => True
  | single name _ rest => name.Short ∧ rest.Short
  | document name child rest => name.Short ∧ child.Short ∧ rest.Short
  | array name child rest => name.Short ∧ child.Short ∧ rest.Short

end BconPattern

end LibBson.Spec
