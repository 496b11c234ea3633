import LibBson.Library.LittleEndian
import LibBson.Source.Types

/-!
# BSON documents as trees

What a document means, and the one encoding of it. Nothing here is translated
from the library's code. Keys and the strings of a regex carry the absence of
NUL octets, object ids their width, numbers their bit width; every other string
may hold any octets.
-/

set_option autoImplicit false

namespace LibBson.Spec
open LibBson.Library LibBson.Source

/-- Text that a NUL can terminate. -/
structure CStr where
  bytes : Bytes
  noNul : (0 : UInt8) ∉ bytes
  deriving DecidableEq

/-- The key `a` is such a text. -/
theorem noNul_a : (0 : UInt8) ∉ [97] := by decide

structure Oid where
  bytes : Bytes
  width : bytes.length = 12

instance : DecidableEq Oid := fun a b =>
  decidable_of_iff (a.bytes = b.bytes) (by cases a; cases b; simp)

mutual

inductive Value where
  | double (bits : BitVec 64)
  | utf8 (text : Bytes)
  | document (d : Doc)
  | array (d : Doc)
  | binary (subtype : UInt8) (data : Bytes)
  | undefined
  | oid (o : Oid)
  | bool (b : Bool)
  | dateTime (ms : BitVec 64)
  | null
  | regex (pattern options : CStr)
  | dbpointer (collection : Bytes) (o : Oid)
  | code (text : Bytes)
  | symbol (text : Bytes)
  | codewscope (text : Bytes) (scope : Doc)
  | int32 (n : BitVec 32)
  | timestamp (t i : BitVec 32)
  | int64 (n : BitVec 64)
  | decimal128 (low high : BitVec 64)
  | maxkey
  | minkey

inductive Doc where
  | nil
  | cons (key : CStr) (v : Value) (rest : Doc)

end

def Value.type : Value → BsonType
  | .double _ => .double
  | .utf8 _ => .utf8
  | .document _ => .document
  | .array _ => .array
  | .binary .. => .binary
  | .undefined => .undefined
  | .oid _ => .oid
  | .bool _ => .bool
  | .dateTime _ => .dateTime
  | .null => .null
  | .regex .. => .regex
  | .dbpointer .. => .dbpointer
  | .code _ => .code
  | .symbol _ => .symbol
  | .codewscope .. => .codewscope
  | .int32 _ => .int32
  | .timestamp .. => .timestamp
  | .int64 _ => .int64
  | .decimal128 .. => .decimal128
  | .maxkey => .maxkey
  | .minkey => .minkey

theorem Value.type_ne_eod (v : Value) : v.type ≠ .eod := by
  cases v <;> simp [Value.type]

/-- A string with its length word, which counts the NUL. -/
def lengthText (s : Bytes) : Bytes := leBytes 4 (s.length + 1) ++ (s ++ [0])

/-- A document around its elements: total length, elements, NUL. -/
def frame (body : Bytes) : Bytes := leBytes 4 (body.length + 5) ++ (body ++ [0])

/-- The type octet and the key of an element. -/
def header (t : BsonType) (key : CStr) : Bytes := t.toByte :: (key.bytes ++ [0])

mutual

/-- The octets of a value, after the element's type and key. -/
def Value.encode : Value → Bytes
  | .double bits => leBytes 8 bits.toNat
  | .utf8 s => lengthText s
  | .document d => frame d.body
  | .array d => frame d.body
  | .binary subtype data =>
    if subtype = subtypeBinaryDeprecated then
      leBytes 4 (data.length + 4) ++ (subtype :: (leBytes 4 data.length ++ data))
    else leBytes 4 data.length ++ (subtype :: data)
  | .undefined => []
  | .oid o => o.bytes
  | .bool b => [if b then 1 else 0]
  | .dateTime ms => leBytes 8 ms.toNat
  | .null => []
  | .regex pattern options => pattern.bytes ++ (0 :: (options.bytes ++ [0]))
  | .dbpointer collection o => lengthText collection ++ o.bytes
  | .code s => lengthText s
  | .symbol s => lengthText s
  | .codewscope s scope =>
    leBytes 4 (4 + (s.length + 5) + (scope.body.length + 5)) ++
      (lengthText s ++ frame scope.body)
  | .int32 n => leBytes 4 n.toNat
  | .timestamp t i => leBytes 8 (t.toNat * 4294967296 + i.toNat)
  | .int64 n => leBytes 8 n.toNat
  | .decimal128 low high => leBytes 8 low.toNat ++ leBytes 8 high.toNat
  | .maxkey => []
  | .minkey => []

/-- The elements of a document, without its length and its NUL. -/
def Doc.body : Doc → Bytes
  | .nil => []
  | .cons key v rest => header v.type key ++ (v.encode ++ rest.body)

end

def Doc.encode (d : Doc) : Bytes := frame d.body

/-- The fields of `d` followed by those of `e`. -/
def Doc.append : Doc → Doc → Doc
  | .nil, e => e
  | .cons key v rest, e => .cons key v (rest.append e)

@[simp] theorem lengthText_length (s : Bytes) : (lengthText s).length = s.length + 5 := by
  simp [lengthText]
  omega

@[simp] theorem frame_length (body : Bytes) : (frame body).length = body.length + 5 := by
  simp [frame]
  omega

@[simp] theorem header_length (t : BsonType) (key : CStr) :
    (header t key).length = key.bytes.length + 2 := by
  simp [header]

theorem Doc.encode_length (d : Doc) : d.encode.length = d.body.length + 5 := by
  simp [Doc.encode]

@[simp] theorem Doc.body_nil : Doc.nil.body = [] := by
  simp [Doc.body]

theorem Doc.body_cons (key : CStr) (v : Value) (rest : Doc) :
    (Doc.cons key v rest).body = header v.type key ++ (v.encode ++ rest.body) := by
  rw [Doc.body]

theorem Doc.body_append (d e : Doc) : (d.append e).body = d.body ++ e.body := by
  match d with
  | .nil => simp [Doc.append]
  | .cons key v rest => simp [Doc.append, Doc.body_cons, Doc.body_append rest e]

end LibBson.Spec
