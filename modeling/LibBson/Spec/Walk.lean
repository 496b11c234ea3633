import LibBson.Spec.Tree
import LibBson.Source.Iter

/-!
# What a walk of a document is expected to see

`Yields d it`: stepping `it` to its end gives the fields of `d` in order, each
with its key, its type and the value its typed accessor returns, down into every
nested document, array and scope, and the end is not a corruption.
-/

set_option autoImplicit false

namespace LibBson.Spec
open LibBson.Library LibBson.Source

mutual

/-- The typed accessors return `v` on the current element. -/
def Reads : Value → BsonIter → Prop
  | .double bits, e => bsonIterDouble e = bits.toNat
  | .utf8 s, e => ∃ p, bsonIterUtf8 e = some p ∧ e.mem.slice p.off p.len = s
  | .document d, e =>
    (∃ p, bsonIterDocument e = some p ∧ e.mem.slice p.off p.len = frame d.body) ∧
      ∃ child, bsonIterRecurse e = some child ∧ Yields d child
  | .array d, e =>
    (∃ p, bsonIterArray e = some p ∧ e.mem.slice p.off p.len = frame d.body) ∧
      ∃ child, bsonIterRecurse e = some child ∧ Yields d child
  | .binary subtype data, e =>
    ∃ p, bsonIterBinary e = some (subtype, p) ∧ e.mem.slice p.off p.len = data
  | .undefined, _ => True
  | .oid o, e => ∃ p, bsonIterOid e = some p ∧ e.mem.slice p 12 = o.bytes
  | .bool b, e => bsonIterBool e = b
  | .dateTime ms, e => bsonIterDateTime e = ms.toInt
  | .null, _ => True
  | .regex pattern options, e =>
    ∃ p q, bsonIterRegex e = some (p, q) ∧ Holds e.mem p (pattern.bytes ++ [0]) ∧
      Holds e.mem q (options.bytes ++ [0])
  | .dbpointer collection o, e =>
    ∃ p q, bsonIterDbpointer e = some (p, q) ∧ e.mem.slice p.off p.len = collection ∧
      e.mem.slice q 12 = o.bytes
  | .code s, e => ∃ p, bsonIterCode e = some p ∧ e.mem.slice p.off p.len = s
  | .symbol s, e => ∃ p, bsonIterSymbol e = some p ∧ e.mem.slice p.off p.len = s
  | .codewscope s scope, e =>
    ∃ p q, bsonIterCodewscope e = some (p, q) ∧ e.mem.slice p.off p.len = s ∧
      ∃ b it, bsonInitStatic (e.mem.shift q.off) q.len = some b ∧ bsonIterInit b = (true, it) ∧
        Yields scope it
  | .int32 n, e => bsonIterInt32 e = n.toInt
  | .timestamp t i, e => bsonIterTimestamp e = (t.toNat, i.toNat)
  | .int64 n, e => bsonIterInt64 e = n.toInt
  | .decimal128 low high, e => bsonIterDecimal128 e = some (low.toNat, high.toNat)
  | .maxkey, _ => True
  | .minkey, _ => True

def Yields : Doc → BsonIter → Prop
  | .nil, it =>
    (bsonIterNextInternal it).ok = false ∧ (bsonIterNextInternal it).iter.errOff = 0 ∧
      (bsonIterNextInternal it).unsupported = false
  | .cons key v rest, it =>
    (bsonIterNextInternal it).ok = true ∧
      Holds (bsonIterNext it).2.mem (bsonIterNext it).2.key (key.bytes ++ [0]) ∧
      iterType (bsonIterNext it).2 = some v.type ∧ Reads v (bsonIterNext it).2 ∧
      Yields rest (bsonIterNext it).2

end

end LibBson.Spec
