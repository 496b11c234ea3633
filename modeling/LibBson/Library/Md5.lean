import LibBson.Library.BlockStream
import LibBson.Library.LittleEndian

/-!
# The MD5 message digest of RFC 1321

A step turns the four words of the digest in progress by one place. Its word of the
block, its shift and its constant follow from the number of the step in its round.
-/

set_option autoImplicit false

namespace LibBson.Library

/-- The four words of a digest. -/
structure Md5Words where
  a : UInt32
  b : UInt32
  c : UInt32
  d : UInt32
  deriving DecidableEq

namespace Md5

inductive Round where
  | f | g | h | i

def Round.all : List Round := [.f, .g, .h, .i]

/-- The auxiliary function of a round. -/
def Round.mix : Round → UInt32 → UInt32 → UInt32 → UInt32
  | f, x, y, z => (x &&& y) ||| (~~~x &&& z)
  | g, x, y, z => (x &&& z) ||| (y &&& ~~~z)
  | h, x, y, z => x ^^^ y ^^^ z
  | i, x, y, z => y ^^^ (x ||| ~~~z)

/-- The word of the block that step `j` of a round takes. -/
def Round.word : Round → Nat → Nat
  | f, j => j
  | g, j => (5 * j + 1) % 16
  | h, j => (3 * j + 5) % 16
  | i, j => 7 * j % 16

def Round.shifts : Round → List Nat
  | f => [7, 12, 17, 22]
  | g => [5, 9, 14, 20]
  | h => [4, 11, 16, 23]
  | i => [6, 10, 15, 21]

def Round.shift (r : Round) (j : Nat) : Nat := r.shifts.getD (j % 4) 0

/-- The sixteen constants of a round: `4294967296 * |sin n|` for `n` from 1 to 64. -/
def Round.constants : Round → List UInt32
  | f => [0xd76aa478, 0xe8c7b756, 0x242070db, 0xc1bdceee, 0xf57c0faf, 0x4787c62a, 0xa8304613,
      0xfd469501, 0x698098d8, 0x8b44f7af, 0xffff5bb1, 0x895cd7be, 0x6b901122, 0xfd987193,
      0xa679438e, 0x49b40821]
  | g => [0xf61e2562, 0xc040b340, 0x265e5a51, 0xe9b6c7aa, 0xd62f105d, 0x02441453, 0xd8a1e681,
      0xe7d3fbc8, 0x21e1cde6, 0xc33707d6, 0xf4d50d87, 0x455a14ed, 0xa9e3e905, 0xfcefa3f8,
      0x676f02d9, 0x8d2a4c8a]
  | h => [0xfffa3942, 0x8771f681, 0x6d9d6122, 0xfde5380c, 0xa4beea44, 0x4bdecfa9, 0xf6bb4b60,
      0xbebfbc70, 0x289b7ec6, 0xeaa127fa, 0xd4ef3085, 0x04881d05, 0xd9d4d039, 0xe6db99e5,
      0x1fa27cf8, 0xc4ac5665]
  | i => [0xf4292244, 0x432aff97, 0xab9423a7, 0xfc93a039, 0x655b59c3, 0x8f0ccc92, 0xffeff47d,
      0x85845dd1, 0x6fa87e4f, 0xfe2ce6e0, 0xa3014314, 0x4e0811a1, 0xf7537e82, 0xbd3af235,
      0x2ad7d2bb, 0xeb86d391]

def Round.constant (r : Round) (j : Nat) : UInt32 := r.constants.getD j 0

def rotateLeft (x : UInt32) (s : Nat) : UInt32 := ⟨x.toBitVec.rotateLeft s⟩

/-- One step: `a = b + ((a + F(b,c,d) + X[k] + T[i]) <<< s)`, and the words turned. -/
def turn (r : Round) (x : Nat → UInt32) (w : Md5Words) (k s : Nat) (t : UInt32) : Md5Words :=
  { a := w.d, b := w.b + rotateLeft (w.a + r.mix w.b w.c w.d + x k + t) s, c := w.b, d := w.c }

def step (r : Round) (x : Nat → UInt32) (w : Md5Words) (j : Nat) : Md5Words :=
  turn r x w (r.word j) (r.shift j) (r.constant j)

def round (x : Nat → UInt32) (w : Md5Words) (r : Round) : Md5Words :=
  (List.range 16).foldl (step r x) w

/-- The word `k` of a block. -/
def blockWord (block : Bytes) (k : Nat) : UInt32 :=
  UInt32.ofNat (leNat ((block.drop (4 * k)).take 4))

def compress (w : Md5Words) (block : Bytes) : Md5Words :=
  let v := Round.all.foldl (round (blockWord block)) w
  { a := w.a + v.a, b := w.b + v.b, c := w.c + v.c, d := w.d + v.d }

def start : Md5Words := ⟨0x67452301, 0xefcdab89, 0x98badcfe, 0x10325476⟩

/-- A one bit and zeroes up to 56 octets of a block, behind `length` octets. -/
def padding (length : Nat) : Bytes := 128 :: List.replicate ((119 - length % 64) % 64) 0

/-- The length of a message in bits, as far as 64 bits hold it. -/
def lengthWord (length : Nat) : Bytes := leBytes 8 (8 * length)

def octets (w : Md5Words) : Bytes :=
  leBytes 4 w.a.toNat ++ leBytes 4 w.b.toNat ++ leBytes 4 w.c.toNat ++ leBytes 4 w.d.toNat

/-- The digest of a message. -/
def digest (message : Bytes) : Bytes :=
  octets (BlockStream.absorb compress 64 start
    (message ++ padding message.length ++ lengthWord message.length))

end Md5

end LibBson.Library
