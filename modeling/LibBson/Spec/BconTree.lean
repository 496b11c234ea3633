import LibBson.Source.Bcon
import LibBson.Source.ElementBytes
import LibBson.Source.IterTimes
import LibBson.Spec.Appended

/-!
# The document that BCON arguments describe

`BconTree false` is a well-formed sequence of arguments between two braces, or up to the NULL
that ends the list; `BconTree true` is one between two brackets. `args` spells it out as a
caller does, `doc` is the document it describes. A `bson_t` among the arguments comes with the
document it encodes, an iterator with the element it is on.
-/

set_option autoImplicit false

namespace LibBson.Spec
open LibBson.Library LibBson.Source

/-- The value with the options of a regex in their sorted supported form. -/
def Value.sorted : Value → Value
  | .regex pattern options => .regex pattern (sortedOptions options.bytes)
  | v => v

theorem digit_ne_zero (n : Nat) : (0 : UInt8) ≠ digit n := by
  intro h
  have hn : (digit n).toNat = 48 + n % 10 := by
    rw [digit, UInt8.toNat_ofNat']
    omega
  have h0 : (0 : UInt8).toNat = 0 := rfl
  rw [← h] at hn
  omega

theorem digitsBefore_noNul (fuel n : Nat) (acc : Bytes) (h : (0 : UInt8) ∉ acc) :
    (0 : UInt8) ∉ digitsBefore fuel n acc := by
  have hdigit : (0 : UInt8) ∉ digit n :: acc := by
    rw [List.mem_cons, not_or]
    exact ⟨digit_ne_zero n, h⟩
  induction fuel generalizing n acc with
  | zero => exact h
  | succ fuel ih =>
    rw [digitsBefore]
    split
    · exact hdigit
    · refine ih (n / 10) _ hdigit ?_
      rw [List.mem_cons, not_or]
      exact ⟨digit_ne_zero _, hdigit⟩

/-- The key of an array's element. -/
def indexKey (i : Nat) : CStr := ⟨decimal i, digitsBefore_noNul _ _ _ List.not_mem_nil⟩

/-- A string that the tokenizer takes for text: its first octet is none of `{`, `}`, `[`
and `]`. -/
def Bare (s : Bytes) : Prop := s.headD 0 ∉ [123, 125, 91, 93]

/-- The key of a member: alone, or marked by `BCON_UTF8`. An array's element has none. -/
inductive BconName : Bool → Type
  | bare (s : Bytes) (h : Bare s) : BconName false
  | utf8 (s : Bytes) : BconName false
  | position : BconName true

namespace BconName

def args {a : Bool} : BconName a → List VaArg
  | bare s _ => [.str s]
  | utf8 s => [.magic, .type .utf8, .str s]
  | position => []

/-- The key argument of the append, for an array's element at position `i`. -/
def text {a : Bool} (i : Nat) : BconName a → Bytes
  | bare s _ => s
  | utf8 s => s
  | position => decimal i

def key {a : Bool} (i : Nat) : BconName a → CStr
  | bare s _ => cStr s
  | utf8 s => cStr s
  | position => indexKey i

/-- The position behind position `i`, which only arrays count. -/
def next {a : Bool} (i : Nat) : BconName a → Nat
  | bare .. => i
  | utf8 _ => i
  | position => i + 1

theorem next_le {a : Bool} (name : BconName a) (i : Nat) : name.next i ≤ i + 1 := by
  cases name with
  | bare s h => exact Nat.le_succ i
  | utf8 s => exact Nat.le_succ i
  | position => exact Nat.le_refl _

end BconName

/-- A `char *` that may be NULL. -/
def textArg : Option Bytes → VaArg
  | some s => .str s
  | none => .null

/-- A value among the arguments: a string alone, or one of the `BCON_` macros. -/
inductive BconLeaf where
  | bare (s : Bytes) (h : Bare s)
  | utf8 (v : Option Bytes)
  | double (v : BitVec 64)
  | document (b : BsonRef) (d : Doc) (h : Encodes b d)
  | array (b : BsonRef) (d : Doc) (h : Encodes b d)
  | bin (subtype : UInt8) (binary : Bytes) (length : BitVec 32)
  | undefined
  | oid (v : BsonOid)
  | bool (v : Bool)
  | dateTime (v : BitVec 64)
  | null
  | regex (pattern flags : Option Bytes)
  | dbpointer (collection : Bytes) (o : BsonOid)
  | code (v : Bytes)
  | symbol (v : Option Bytes)
  | codewscope (js : Bytes) (b : BsonRef) (scope : Doc) (h : Encodes b scope)
  | codeNullScope (js : Bytes)
  | int32 (v : BitVec 32)
  | timestamp (t i : BitVec 32)
  | int64 (v : BitVec 64)
  | decimal128 (low high : BitVec 64)
  | maxkey
  | minkey
  | iter (it : BsonIter) (m : Mem) (k : CStr) (v : Value) (h : At m it k v)

def BconLeaf.args : BconLeaf → List VaArg
  | bare s _ => [.str s]
  | utf8 v => [.magic, .type .utf8, textArg v]
  | double v => [.magic, .type .double, .double v]
  | document b .. => [.magic, .type .document, .bson b]
  | array b .. => [.magic, .type .array, .bson b]
  | bin subtype binary length =>
    [.magic, .type .bin, .subtype subtype, .data binary, .word length]
  | undefined => [.magic, .type .undefined]
  | oid v => [.magic, .type .oid, .oid v]
  | bool v => [.magic, .type .bool, .word (if v then 1 else 0)]
  | dateTime v => [.magic, .type .dateTime, .dword v]
  | null => [.magic, .type .null]
  | regex pattern flags => [.magic, .type .regex, textArg pattern, textArg flags]
  | dbpointer collection o => [.magic, .type .dbpointer, .str collection, .oid o]
  | code v => [.magic, .type .code, .str v]
  | symbol v => [.magic, .type .symbol, textArg v]
  | codewscope js b .. => [.magic, .type .codewscope, .str js, .bson b]
  | codeNullScope js => [.magic, .type .codewscope, .str js, .null]
  | int32 v => [.magic, .type .int32, .word v]
  | timestamp t i => [.magic, .type .timestamp, .word t, .word i]
  | int64 v => [.magic, .type .int64, .dword v]
  | decimal128 low high => [.magic, .type .decimal128, .decimal128 low high]
  | maxkey => [.magic, .type .maxkey]
  | minkey => [.magic, .type .minkey]
  | iter it .. => [.magic, .type .iter, .iter it]

/-- The value described. A value under an iterator goes through `copy`. -/
def BconLeaf.valueWith (copy : Value → Value) : BconLeaf → Value
  | bare s _ => .utf8 (cText s)
  | utf8 none | symbol none => .null
  | utf8 (some s) => .utf8 (cText s)
  | double v => .double v
  | document _ d _ => .document d
  | array _ d _ => .array d
  | bin subtype binary length => .binary subtype (copied binary length.toNat)
  | undefined => .undefined
  | oid v => .oid ⟨v.bytes, v.size⟩
  | bool v => .bool v
  | dateTime v => .dateTime v
  | null => .null
  | regex pattern flags => .regex (cStr (pattern.getD [])) (sortedOptions (flags.getD []))
  | dbpointer collection o => .dbpointer (cText collection) ⟨o.bytes, o.size⟩
  | code v => .code (cText v)
  | symbol (some s) => .symbol (cText s)
  | codewscope js _ scope _ => .codewscope (cText js) scope
  | codeNullScope js => .code (cText js)
  | int32 v => .int32 v
  | timestamp t i => .timestamp t i
  | int64 v => .int64 v
  | decimal128 low high => .decimal128 low high
  | maxkey => .maxkey
  | minkey => .minkey
  | iter _ _ _ v _ => copy v

/-- The members of a document, or the elements of an array. -/
inductive BconTree : Bool → Type
  | nil {a : Bool} : BconTree a
  | single {a : Bool} (name : BconName a) (leaf : BconLeaf) (rest : BconTree a) : BconTree a
  | document {a : Bool} (name : BconName a) (child : BconTree false) (rest : BconTree a) :
    BconTree a
  | array {a : Bool} (name : BconName a) (child : BconTree true) (rest : BconTree a) : BconTree a
  /-- `BCON (b)` in place of a member. -/
  | concat (b : BsonRef) (d : Doc) (h : Encodes b d) (rest : BconTree false) : BconTree false
  /-- `BCON (b)` in place of an element. No `bson_t` is longer than `BSON_MAX_SIZE`. -/
  | splice (b : BsonRef) (d : Doc) (h : Encodes b d) (small : b.len ≤ bsonMaxSize)
    (rest : BconTree true) : BconTree true

/-- The fields of `d` under the keys of an array from position `i` on. -/
def Doc.renumbered (copy : Value → Value) : Nat → Doc → Doc
  | _, .nil => .nil
  | i, .cons _ v rest => .cons (indexKey i) (copy v) (rest.renumbered copy (i + 1))

namespace BconTree

def args {a : Bool} : BconTree a → List VaArg
  | nil => []
  | single name leaf rest => name.args ++ (leaf.args ++ rest.args)
  | document name child rest =>
    name.args ++ (.str [123] :: (child.args ++ (.str [125] :: rest.args)))
  | array name child rest =>
    name.args ++ (.str [91] :: (child.args ++ (.str [93] :: rest.args)))
  | concat b _ _ rest => .magic :: .type .bcon :: .bson b :: rest.args
  | splice b _ _ _ rest => .magic :: .type .bcon :: .bson b :: rest.args

/-- The fields described, an array's from position `i` on. -/
def docWith (copy : Value → Value) {a : Bool} : Nat → BconTree a → Doc
  | _, nil => .nil
  | i, single name leaf rest =>
    .cons (name.key i) (leaf.valueWith copy) (rest.docWith copy (name.next i))
  | i, document name child rest =>
    .cons (name.key i) (.document (child.docWith copy 0)) (rest.docWith copy (name.next i))
  | i, array name child rest =>
    .cons (name.key i) (.array (child.docWith copy 0)) (rest.docWith copy (name.next i))
  | i, concat _ d _ rest => d.append (rest.docWith copy i)
  | i, splice _ d _ _ rest => (d.renumbered copy i).append (rest.docWith copy (i + fieldCount d))

/-- The document described. Regex options stand in their sorted supported form everywhere. -/
def doc (t : BconTree false) : Doc := t.docWith Value.sorted 0

/-- The position behind the elements, the first of them being at position `i`. -/
def stop {a : Bool} : Nat → BconTree a → Nat
  | i, nil => i
  | i, single name _ rest => rest.stop (name.next i)
  | i, document name _ rest => rest.stop (name.next i)
  | i, array name _ rest => rest.stop (name.next i)
  | i, concat _ _ _ rest => rest.stop i
  | i, splice _ d _ _ rest => rest.stop (i + fieldCount d)

/-- How many documents and arrays are open at once. -/
def depth {a : Bool} : BconTree a → Nat
  | nil => 0
  | single _ _ rest => rest.depth
  | document _ child rest => max (child.depth + 1) rest.depth
  | array _ child rest => max (child.depth + 1) rest.depth
  | concat _ _ _ rest => rest.depth
  | splice _ _ _ _ rest => rest.depth

end BconTree

/-- No NUL inside a text that is copied without its length. -/
def Value.NulFree : Value → Prop
  | .code s | .dbpointer s _ | .codewscope s _ => (0 : UInt8) ∉ s
  | _ => True

def Doc.NulFree : Doc → Prop
  | .nil => True
  | .cons _ v rest => v.NulFree ∧ rest.NulFree

def BconLeaf.NulFree : BconLeaf → Prop
  | iter _ _ _ v _ => v.NulFree
  | _ => True

/-- What is copied element by element, from iterators and into arrays, has no such NUL. -/
def BconTree.NulFree {a : Bool} : BconTree a → Prop
  | nil => True
  | single _ leaf rest => leaf.NulFree ∧ rest.NulFree
  | document _ child rest => child.NulFree ∧ rest.NulFree
  | array _ child rest => child.NulFree ∧ rest.NulFree
  | concat _ _ _ rest => rest.NulFree
  | splice _ d _ _ rest => d.NulFree ∧ rest.NulFree

end LibBson.Spec
