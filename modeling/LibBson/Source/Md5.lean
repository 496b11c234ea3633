import LibBson.Library.Md5
import LibBson.Library.Word

/-!
# The MD5 digest

Source: bson-md5.c:78-397, bson-md5.h:62-66. The octets of a message are a memory
and their number. A `memcpy` that would leave `buf` answers `none`. The machine is
little-endian.
-/

set_option autoImplicit false

namespace LibBson.Source
open LibBson.Library

/-- `bson_md5_t` -/
structure BsonMd5 where
  count0 : UInt32
  count1 : UInt32
  abcd : Md5Words
  buf : Mem

/-- `T_MASK` -/
def tMask : UInt32 := 0xffffffff

/-- `T1` to `T64` -/
def md5T : List UInt32 :=
  [tMask ^^^ 0x28955b87, tMask ^^^ 0x173848a9, 0x242070db, tMask ^^^ 0x3e423111,
    tMask ^^^ 0x0a83f050, 0x4787c62a, tMask ^^^ 0x57cfb9ec, tMask ^^^ 0x02b96afe, 0x698098d8,
    tMask ^^^ 0x74bb0850, tMask ^^^ 0x0000a44e, tMask ^^^ 0x76a32841, 0x6b901122,
    tMask ^^^ 0x02678e6c, tMask ^^^ 0x5986bc71, 0x49b40821, tMask ^^^ 0x09e1da9d,
    tMask ^^^ 0x3fbf4cbf, 0x265e5a51, tMask ^^^ 0x16493855, tMask ^^^ 0x29d0efa2, 0x02441453,
    tMask ^^^ 0x275e197e, tMask ^^^ 0x182c0437, 0x21e1cde6, tMask ^^^ 0x3cc8f829,
    tMask ^^^ 0x0b2af278, 0x455a14ed, tMask ^^^ 0x561c16fa, tMask ^^^ 0x03105c07, 0x676f02d9,
    tMask ^^^ 0x72d5b375, tMask ^^^ 0x0005c6bd, tMask ^^^ 0x788e097e, 0x6d9d6122,
    tMask ^^^ 0x021ac7f3, tMask ^^^ 0x5b4115bb, 0x4bdecfa9, tMask ^^^ 0x0944b49f,
    tMask ^^^ 0x4140438f, 0x289b7ec6, tMask ^^^ 0x155ed805, tMask ^^^ 0x2b10cf7a, 0x04881d05,
    tMask ^^^ 0x262b2fc6, tMask ^^^ 0x1924661a, 0x1fa27cf8, tMask ^^^ 0x3b53a99a,
    tMask ^^^ 0x0bd6ddbb, 0x432aff97, tMask ^^^ 0x546bdc58, tMask ^^^ 0x036c5fc6, 0x655b59c3,
    tMask ^^^ 0x70f3336d, tMask ^^^ 0x00100b82, tMask ^^^ 0x7a7ba22e, 0x6fa87e4f,
    tMask ^^^ 0x01d3191f, tMask ^^^ 0x5cfebceb, 0x4e0811a1, tMask ^^^ 0x08ac817d,
    tMask ^^^ 0x42c50dca, 0x2ad7d2bb, tMask ^^^ 0x14792c6e]

/-! ## A block -/

/-- `a`, `b`, `c` and `d` of `bson_md5_process`. -/
inductive Md5Reg where
  | a | b | c | d
  deriving DecidableEq

def getReg (w : Md5Words) : Md5Reg → UInt32
  | .a => w.a
  | .b => w.b
  | .c => w.c
  | .d => w.d

def setReg (w : Md5Words) (v : UInt32) : Md5Reg → Md5Words
  | .a => { w with a := v }
  | .b => { w with b := v }
  | .c => { w with c := v }
  | .d => { w with d := v }

/-- The arguments of the macro `SET`; `t` is the number of the constant. -/
structure Md5Set where
  a : Md5Reg
  b : Md5Reg
  c : Md5Reg
  d : Md5Reg
  k : Nat
  s : UInt32
  t : Nat
  deriving DecidableEq

/-- `ROTATE_LEFT` -/
def md5RotateLeft (x n : UInt32) : UInt32 := (x <<< n) ||| (x >>> (32 - n))

def md5F (x y z : UInt32) : UInt32 := (x &&& y) ||| (~~~x &&& z)

def md5G (x y z : UInt32) : UInt32 := (x &&& z) ||| (y &&& ~~~z)

def md5H (x y z : UInt32) : UInt32 := x ^^^ y ^^^ z

def md5I (x y z : UInt32) : UInt32 := y ^^^ (x ||| ~~~z)

/-- `SET`, with the function of its round. -/
def md5Set (fn : UInt32 → UInt32 → UInt32 → UInt32) (x : Nat → UInt32) (w : Md5Words)
    (op : Md5Set) : Md5Words :=
  let t := getReg w op.a + fn (getReg w op.b) (getReg w op.c) (getReg w op.d) + x op.k +
    md5T.getD (op.t - 1) 0
  setReg w (md5RotateLeft t op.s + getReg w op.b) op.a

def md5Round1 : List Md5Set :=
  [⟨.a, .b, .c, .d, 0, 7, 1⟩, ⟨.d, .a, .b, .c, 1, 12, 2⟩,
    ⟨.c, .d, .a, .b, 2, 17, 3⟩, ⟨.b, .c, .d, .a, 3, 22, 4⟩,
    ⟨.a, .b, .c, .d, 4, 7, 5⟩, ⟨.d, .a, .b, .c, 5, 12, 6⟩,
    ⟨.c, .d, .a, .b, 6, 17, 7⟩, ⟨.b, .c, .d, .a, 7, 22, 8⟩,
    ⟨.a, .b, .c, .d, 8, 7, 9⟩, ⟨.d, .a, .b, .c, 9, 12, 10⟩,
    ⟨.c, .d, .a, .b, 10, 17, 11⟩, ⟨.b, .c, .d, .a, 11, 22, 12⟩,
    ⟨.a, .b, .c, .d, 12, 7, 13⟩, ⟨.d, .a, .b, .c, 13, 12, 14⟩,
    ⟨.c, .d, .a, .b, 14, 17, 15⟩, ⟨.b, .c, .d, .a, 15, 22, 16⟩]

def md5Round2 : List Md5Set :=
  [⟨.a, .b, .c, .d, 1, 5, 17⟩, ⟨.d, .a, .b, .c, 6, 9, 18⟩,
    ⟨.c, .d, .a, .b, 11, 14, 19⟩, ⟨.b, .c, .d, .a, 0, 20, 20⟩,
    ⟨.a, .b, .c, .d, 5, 5, 21⟩, ⟨.d, .a, .b, .c, 10, 9, 22⟩,
    ⟨.c, .d, .a, .b, 15, 14, 23⟩, ⟨.b, .c, .d, .a, 4, 20, 24⟩,
    ⟨.a, .b, .c, .d, 9, 5, 25⟩, ⟨.d, .a, .b, .c, 14, 9, 26⟩,
    ⟨.c, .d, .a, .b, 3, 14, 27⟩, ⟨.b, .c, .d, .a, 8, 20, 28⟩,
    ⟨.a, .b, .c, .d, 13, 5, 29⟩, ⟨.d, .a, .b, .c, 2, 9, 30⟩,
    ⟨.c, .d, .a, .b, 7, 14, 31⟩, ⟨.b, .c, .d, .a, 12, 20, 32⟩]

def md5Round3 : List Md5Set :=
  [⟨.a, .b, .c, .d, 5, 4, 33⟩, ⟨.d, .a, .b, .c, 8, 11, 34⟩,
    ⟨.c, .d, .a, .b, 11, 16, 35⟩, ⟨.b, .c, .d, .a, 14, 23, 36⟩,
    ⟨.a, .b, .c, .d, 1, 4, 37⟩, ⟨.d, .a, .b, .c, 4, 11, 38⟩,
    ⟨.c, .d, .a, .b, 7, 16, 39⟩, ⟨.b, .c, .d, .a, 10, 23, 40⟩,
    ⟨.a, .b, .c, .d, 13, 4, 41⟩, ⟨.d, .a, .b, .c, 0, 11, 42⟩,
    ⟨.c, .d, .a, .b, 3, 16, 43⟩, ⟨.b, .c, .d, .a, 6, 23, 44⟩,
    ⟨.a, .b, .c, .d, 9, 4, 45⟩, ⟨.d, .a, .b, .c, 12, 11, 46⟩,
    ⟨.c, .d, .a, .b, 15, 16, 47⟩, ⟨.b, .c, .d, .a, 2, 23, 48⟩]

def md5Round4 : List Md5Set :=
  [⟨.a, .b, .c, .d, 0, 6, 49⟩, ⟨.d, .a, .b, .c, 7, 10, 50⟩,
    ⟨.c, .d, .a, .b, 14, 15, 51⟩, ⟨.b, .c, .d, .a, 5, 21, 52⟩,
    ⟨.a, .b, .c, .d, 12, 6, 53⟩, ⟨.d, .a, .b, .c, 3, 10, 54⟩,
    ⟨.c, .d, .a, .b, 10, 15, 55⟩, ⟨.b, .c, .d, .a, 1, 21, 56⟩,
    ⟨.a, .b, .c, .d, 8, 6, 57⟩, ⟨.d, .a, .b, .c, 15, 10, 58⟩,
    ⟨.c, .d, .a, .b, 6, 15, 59⟩, ⟨.b, .c, .d, .a, 13, 21, 60⟩,
    ⟨.a, .b, .c, .d, 4, 6, 61⟩, ⟨.d, .a, .b, .c, 11, 10, 62⟩,
    ⟨.c, .d, .a, .b, 2, 15, 63⟩, ⟨.b, .c, .d, .a, 9, 21, 64⟩]

def bsonMd5Process (abcd : Md5Words) (data : Mem) : Md5Words :=
  let x := fun k => UInt32.ofNat (data.le (4 * k) 4)
  let w := md5Round1.foldl (md5Set md5F x) abcd
  let w := md5Round2.foldl (md5Set md5G x) w
  let w := md5Round3.foldl (md5Set md5H x) w
  let w := md5Round4.foldl (md5Set md5I x) w
  { a := abcd.a + w.a, b := abcd.b + w.b, c := abcd.c + w.c, d := abcd.d + w.d }

/-! ## A message -/

/-- What stood in `buf` stays there. -/
def bsonMd5Init (pms : BsonMd5) : BsonMd5 :=
  { count0 := 0
    count1 := 0
    abcd := ⟨0x67452301, tMask ^^^ 0x10325476, tMask ^^^ 0x67452301, 0x10325476⟩
    buf := pms.buf }

/-- `memcpy (pms->buf + offset, p, copy)`. A negative length is a huge one. -/
def md5Copy (buf : Mem) (offset : Nat) (p : Mem) (copy : Int) : Option Mem :=
  if 0 ≤ copy ∧ offset + copy ≤ 64 then some (buf.write offset (p.slice 0 copy.toNat)) else none

/-- The loop over the full blocks, in at most `fuel` turns. -/
def md5FullBlocks : Nat → Md5Words → Mem → Int → Md5Words × Mem × Int
  | 0, abcd, p, left => (abcd, p, left)
  | fuel + 1, abcd, p, left =>
    if left ≥ 64 then md5FullBlocks fuel (bsonMd5Process abcd p) (p.shift 64) (left - 64)
    else (abcd, p, left)

/-- The full blocks and the final partial one. -/
def md5AppendBlocks (pms : BsonMd5) (p : Mem) (left : Int) : Option BsonMd5 :=
  let (abcd, p, left) := md5FullBlocks (left.toNat / 64) pms.abcd p left
  if left ≠ 0 then (md5Copy pms.buf 0 p left).map fun buf => { pms with abcd := abcd, buf := buf }
  else some { pms with abcd := abcd }

/-- The message length, with the carry out of its low word. -/
def md5Count (pms : BsonMd5) (nbytes : UInt32) : BsonMd5 :=
  let nbits := nbytes <<< 3
  let count1 := pms.count1 + (nbytes >>> 29)
  let count0 := pms.count0 + nbits
  { pms with count0 := count0, count1 := if count0 < nbits then count1 + 1 else count1 }

/-- The initial partial block, behind the `offset` octets of `buf`. -/
def md5AppendPartial (pms : BsonMd5) (offset : UInt32) (data : Mem) (nbytes : UInt32)
    (left : Int) : Option BsonMd5 :=
  let copy := if offset + nbytes > 64 then 64 - (offset.toNat : Int) else i32 nbytes.toNat
  match md5Copy pms.buf offset.toNat data copy with
  | none => none
  | some buf =>
    if offset.toNat + copy < 64 then some { pms with buf := buf }
    else
      md5AppendBlocks { pms with abcd := bsonMd5Process pms.abcd buf, buf := buf }
        (data.shift copy.toNat) (i32 (ofInt32 (left - copy)))

/-- From 2^31 octets on, `left` is negative, until `left -= copy` wraps. -/
def bsonMd5Append (pms : BsonMd5) (data : Mem) (nbytes : UInt32) : Option BsonMd5 :=
  let left := i32 nbytes.toNat
  let offset := (pms.count0 >>> 3) &&& 63
  if nbytes ≤ 0 then some pms
  else if offset ≠ 0 then md5AppendPartial (md5Count pms nbytes) offset data nbytes left
  else md5AppendBlocks (md5Count pms nbytes) data left

/-- `(uint8_t) (words[i >> 2] >> ((i & 3) << 3))` -/
def md5Octet (words : List UInt32) (i : Nat) : UInt8 :=
  (words.getD (i >>> 2) 0 >>> UInt32.ofNat ((i &&& 3) <<< 3)).toUInt8

def md5Pad : Mem := Mem.ofBytes (0x80 :: List.replicate 63 0)

def bsonMd5Finish (pms : BsonMd5) : Option Bytes :=
  let data := (List.range 8).map (md5Octet [pms.count0, pms.count1])
  (bsonMd5Append pms md5Pad ((((55 : UInt32) - (pms.count0 >>> 3)) &&& 63) + 1)).bind fun pms =>
    (bsonMd5Append pms (Mem.ofBytes data) 8).map fun pms =>
      (List.range 16).map (md5Octet [pms.abcd.a, pms.abcd.b, pms.abcd.c, pms.abcd.d])

end LibBson.Source
