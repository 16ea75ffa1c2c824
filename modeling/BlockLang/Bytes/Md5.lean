import BlockLang.Bytes.Order

/-!
The message digest of 128 bits that names the files of a project.
-/

namespace BlockLang

namespace Md5

structure State where
  a : UInt32
  b : UInt32
  c : UInt32
  d : UInt32
  deriving DecidableEq, Repr

def State.initial : State :=
  ⟨0x67452301, 0xefcdab89, 0x98badcfe, 0x10325476⟩

def State.add (s t : State) : State :=
  ⟨s.a + t.a, s.b + t.b, s.c + t.c, s.d + t.d⟩

-- The constants of the steps: the first 32 bits after the point of the sines of 1, 2, 3, …, without
-- their signs.
def constants : List UInt32 := [
  0xd76aa478, 0xe8c7b756, 0x242070db, 0xc1bdceee, 0xf57c0faf, 0x4787c62a, 0xa8304613, 0xfd469501,
  0x698098d8, 0x8b44f7af, 0xffff5bb1, 0x895cd7be, 0x6b901122, 0xfd987193, 0xa679438e, 0x49b40821,
  0xf61e2562, 0xc040b340, 0x265e5a51, 0xe9b6c7aa, 0xd62f105d, 0x02441453, 0xd8a1e681, 0xe7d3fbc8,
  0x21e1cde6, 0xc33707d6, 0xf4d50d87, 0x455a14ed, 0xa9e3e905, 0xfcefa3f8, 0x676f02d9, 0x8d2a4c8a,
  0xfffa3942, 0x8771f681, 0x6d9d6122, 0xfde5380c, 0xa4beea44, 0x4bdecfa9, 0xf6bb4b60, 0xbebfbc70,
  0x289b7ec6, 0xeaa127fa, 0xd4ef3085, 0x04881d05, 0xd9d4d039, 0xe6db99e5, 0x1fa27cf8, 0xc4ac5665,
  0xf4292244, 0x432aff97, 0xab9423a7, 0xfc93a039, 0x655b59c3, 0x8f0ccc92, 0xffeff47d, 0x85845dd1,
  0x6fa87e4f, 0xfe2ce6e0, 0xa3014314, 0x4e0811a1, 0xf7537e82, 0xbd3af235, 0x2ad7d2bb, 0xeb86d391]

structure Round where
  mix : UInt32 → UInt32 → UInt32 → UInt32
  -- By how many bits the steps rotate, over and over.
  shifts : List UInt32
  -- Which word of the block the steps use: the first one, and how far it is to the next.
  first : Nat
  stride : Nat

def rounds : List Round := [
  ⟨fun b c d => (b &&& c) ||| (~~~b &&& d), [7, 12, 17, 22], 0, 1⟩,
  ⟨fun b c d => (d &&& b) ||| (~~~d &&& c), [5, 9, 14, 20], 1, 5⟩,
  ⟨fun b c d => b ^^^ c ^^^ d, [4, 11, 16, 23], 5, 3⟩,
  ⟨fun b c d => c ^^^ (b ||| ~~~d), [6, 10, 15, 21], 0, 7⟩]

def rotate (x n : UInt32) : UInt32 :=
  (x <<< n) ||| (x >>> (32 - n))

-- A step: how words are mixed, the rotation, the word of the block and the constant.
structure Step where
  mix : UInt32 → UInt32 → UInt32 → UInt32
  shift : UInt32
  index : Nat
  constant : UInt32

def Round.steps (r : Round) (constants : List UInt32) : List Step :=
  constants.zipIdx.map fun (constant, i) =>
    ⟨r.mix, r.shifts.getD (i % 4) 0, (r.first + r.stride * i) % 16, constant⟩

def steps : List Step :=
  (List.zipWith Round.steps rounds (Bytes.groups 16 constants)).flatten

def Step.run (block : Array UInt32) (s : State) (step : Step) : State :=
  let sum := s.a + step.mix s.b s.c s.d + step.constant + block.getD step.index 0
  ⟨s.d, s.b + rotate sum step.shift, s.b, s.c⟩

def State.block (s : State) (words : Array UInt32) : State :=
  s.add (steps.foldl (Step.run words) s)

-- The message with a mark after it, and with its length at the end of the last block.
def pad (bytes : List UInt8) : List UInt8 :=
  let n := bytes.length
  bytes ++ 0x80 :: List.replicate ((119 - n % 64) % 64) 0 ++ Bytes.lowFirst 8 (8 * n)

def words (bytes : List UInt8) : Array UInt32 :=
  ((Bytes.groups 4 bytes).map fun g => (Bytes.ofLowFirst g).toUInt32).toArray

def digest (bytes : List UInt8) : List UInt8 :=
  let s := ((Bytes.groups 64 (pad bytes)).map words).foldl State.block .initial
  [s.a, s.b, s.c, s.d].flatMap fun w => Bytes.lowFirst 4 w.toNat

def hex (bytes : List UInt8) : String :=
  Bytes.hex (digest bytes)

end Md5

end BlockLang
