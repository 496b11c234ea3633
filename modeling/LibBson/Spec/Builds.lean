import LibBson.Spec.Tree
import LibBson.Source.Buffer

/-!
# The document a sequence of calls describes

What the arguments of the append API mean as BSON, stated without a buffer: a
key and a text argument are C strings or counted octets, a NULL string is null,
code with a NULL scope is plain code, the options of a regex are the supported
ones in their sorted order. `Builds steps d`: the calls are well bracketed and
`d` is the tree they describe.
-/

set_option autoImplicit false

namespace LibBson.Spec
open LibBson.Library LibBson.Source

/-- The octets a text argument with its length stands for: a negative length
asks for `strlen`. -/
def textOf (s : Bytes) (length : Int) : Bytes :=
  if length < 0 then cText s else copied s length.toNat

/-- The text up to its NUL. -/
def cStr (s : Bytes) : CStr := ⟨cText s, not_mem_cText s⟩

/-- The `bson_t` holds exactly the encoding of `d`. -/
structure Encodes (b : BsonRef) (d : Doc) : Prop where
  len : b.len = d.encode.length
  data : Holds b.data 0 d.encode

theorem Encodes.len_body {b : BsonRef} {d : Doc} (h : Encodes b d) :
    b.len = d.body.length + 5 := by
  rw [h.len, Doc.encode_length]

/-- Behind the length stand the elements and the NUL. -/
theorem Encodes.elements {b : BsonRef} {d : Doc} (h : Encodes b d) :
    Holds b.data 4 (d.body ++ [0]) := by
  have hd := h.data
  rw [Doc.encode, frame, holds_append] at hd
  simpa using hd.2

theorem Encodes.slice {b : BsonRef} {d : Doc} (h : Encodes b d) :
    b.data.slice 0 b.len = d.encode :=
  h.data.slice_of_length h.len.symm

/-- The value a keyed append describes. -/
inductive Means : Field → Value → Prop
  | array (b d) (h : Encodes b d) : Means (.array b) (.array d)
  | binary (subtype data length) :
    Means (.binary subtype data length) (.binary subtype (copied data length))
  | bool (b) : Means (.bool b) (.bool b)
  | code (s) : Means (.code s) (.code (cText s))
  | codeNullScope (s) : Means (.codeWithScope s none) (.code (cText s))
  | codeWithScope (s b d) (h : Encodes b d) :
    Means (.codeWithScope s (some b)) (.codewscope (cText s) d)
  | dbpointer (c o) (oid : Oid) (h : copied o 12 = oid.bytes) :
    Means (.dbpointer c o) (.dbpointer (cText c) oid)
  | document (b d) (h : Encodes b d) : Means (.document b) (.document d)
  | double (bits : BitVec 64) : Means (.double bits.toNat) (.double bits)
  | int32 (n : BitVec 32) : Means (.int32 n.toInt) (.int32 n)
  | int64 (n : BitVec 64) : Means (.int64 n.toInt) (.int64 n)
  | decimal128 (low high : BitVec 64) :
    Means (.decimal128 low.toNat high.toNat) (.decimal128 low high)
  | maxkey : Means .maxkey .maxkey
  | minkey : Means .minkey .minkey
  | null : Means .null .null
  | oid (o) (oid : Oid) (h : copied o 12 = oid.bytes) : Means (.oid o) (.oid oid)
  | regex (r o) (pattern options : CStr) (hp : cText (r.getD []) = pattern.bytes)
    (ho : options.bytes = [105, 108, 109, 115, 117, 120].filter (· ∈ cText (o.getD []))) :
    Means (.regex r o) (.regex pattern options)
  | utf8Null (length) : Means (.utf8 none length) .null
  | utf8 (s length) : Means (.utf8 (some s) length) (.utf8 (textOf s length))
  | symbolNull (length) : Means (.symbol none length) .null
  | symbol (s length) : Means (.symbol (some s) length) (.symbol (textOf s length))
  | timestamp (t i : BitVec 32) : Means (.timestamp t.toNat i.toNat) (.timestamp t i)
  | dateTime (ms : BitVec 64) : Means (.dateTime ms.toInt) (.dateTime ms)
  | timeval (sec usec : Int) (ms : BitVec 64) (h0 : 0 ≤ usec) (h : usec < 1000000)
    (hms : ms = BitVec.ofInt 64 (sec * 1000 + usec / 1000)) :
    Means (.timeval sec usec) (.dateTime ms)
  | timeT (sec : Int) (ms : BitVec 64) (hms : ms = BitVec.ofInt 64 (sec * 1000)) :
    Means (.timeT sec) (.dateTime ms)
  | undefined : Means .undefined .undefined

/-- The fields one call of the append API describes. -/
inductive CallMeans : AppendCall → Doc → Prop
  | keyed (call : AppendCall) (key : Bytes) (keyLength : Int) (f : Field) (k : CStr) (v : Value)
    (h : call.keyed = some (key, keyLength, f)) (hkey : k.bytes = textOf key keyLength)
    (hv : Means f v) : CallMeans call (.cons k v .nil)
  | concat (src : BsonRef) (d : Doc) (h : Encodes src d) : CallMeans (.concat src) d

/-- The calls are well bracketed and describe `d`. -/
inductive Builds : List Step → Doc → Prop
  | nil : Builds [] .nil
  | append (call : AppendCall) (d : Doc) (steps : List Step) (e : Doc) (h : CallMeans call d)
    (rest : Builds steps e) : Builds (.append call :: steps) (d.append e)
  | document (key : Bytes) (keyLength : Int) (k : CStr) (inner : List Step) (d : Doc)
    (steps : List Step) (e : Doc) (hkey : k.bytes = textOf key keyLength)
    (child : Builds inner d) (rest : Builds steps e) :
    Builds (.documentBegin key keyLength :: (inner ++ .end :: steps)) (.cons k (.document d) e)
  | array (key : Bytes) (keyLength : Int) (k : CStr) (inner : List Step) (d : Doc)
    (steps : List Step) (e : Doc) (hkey : k.bytes = textOf key keyLength)
    (child : Builds inner d) (rest : Builds steps e) :
    Builds (.arrayBegin key keyLength :: (inner ++ .end :: steps)) (.cons k (.array d) e)

end LibBson.Spec
