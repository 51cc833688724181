import ContractSim.Digest.Blocks
import ContractSim.Register

namespace ContractSim.Digest.Md5

-- The additive constants of the 64 steps: the binary digits of sines.
def constants : List UInt32 :=
  [
    0xd76aa478, 0xe8c7b756, 0x242070db, 0xc1bdceee, 0xf57c0faf, 0x4787c62a,
    0xa8304613, 0xfd469501, 0x698098d8, 0x8b44f7af, 0xffff5bb1, 0x895cd7be,
    0x6b901122, 0xfd987193, 0xa679438e, 0x49b40821, 0xf61e2562, 0xc040b340,
    0x265e5a51, 0xe9b6c7aa, 0xd62f105d, 0x02441453, 0xd8a1e681, 0xe7d3fbc8,
    0x21e1cde6, 0xc33707d6, 0xf4d50d87, 0x455a14ed, 0xa9e3e905, 0xfcefa3f8,
    0x676f02d9, 0x8d2a4c8a, 0xfffa3942, 0x8771f681, 0x6d9d6122, 0xfde5380c,
    0xa4beea44, 0x4bdecfa9, 0xf6bb4b60, 0xbebfbc70, 0x289b7ec6, 0xeaa127fa,
    0xd4ef3085, 0x04881d05, 0xd9d4d039, 0xe6db99e5, 0x1fa27cf8, 0xc4ac5665,
    0xf4292244, 0x432aff97, 0xab9423a7, 0xfc93a039, 0x655b59c3, 0x8f0ccc92,
    0xffeff47d, 0x85845dd1, 0x6fa87e4f, 0xfe2ce6e0, 0xa3014314, 0x4e0811a1,
    0xf7537e82, 0xbd3af235, 0x2ad7d2bb, 0xeb86d391
  ]

def start : Quad UInt32 := ⟨0x67452301, 0xefcdab89, 0x98badcfe, 0x10325476⟩

-- The bitwise function of a step.
def mix (index : Nat) (x y z : UInt32) : UInt32 :=
  match index / 16 with
  | 0 => (x &&& y) ||| (~~~x &&& z)
  | 1 => (z &&& x) ||| (~~~z &&& y)
  | 2 => x ^^^ y ^^^ z
  | _ => y ^^^ (x ||| ~~~z)

-- The word of the block that a step takes in.
def wordIndex (index : Nat) : Nat :=
  match index / 16 with
  | 0 => index % 16
  | 1 => (5 * index + 1) % 16
  | 2 => (3 * index + 5) % 16
  | _ => 7 * index % 16

-- The rotation of a step: four amounts take turns in each round.
def rotation (index : Nat) : UInt32 :=
  let amounts : List UInt32 :=
    match index / 16 with
    | 0 => [7, 12, 17, 22]
    | 1 => [5, 9, 14, 20]
    | 2 => [4, 11, 16, 23]
    | _ => [6, 10, 15, 21]
  amounts.getD (index % 4) 0

def step (block : List UInt32) (state : Quad UInt32) (numbered : UInt32 × Nat) : Quad UInt32 :=
  let (constant, index) := numbered
  let sum := state.w1 + mix index state.w2 state.w3 state.w4 + constant +
    block.getD (wordIndex index) 0
  ⟨state.w4, state.w2 + rotateLeft sum (rotation index), state.w2, state.w3⟩

def compress (state : Quad UInt32) (block : List UInt32) : Quad UInt32 :=
  state.zipWith (· + ·) (constants.zipIdx.foldl (step block) state)

-- The sixteen bytes of the MD5 digest of a message.
def digest (message : List UInt8) : List UInt8 :=
  let words := littleWords (padded message (lengthBytes message))
  let state := (blocks words).foldl compress start
  state.toList.flatMap littleBytes

end ContractSim.Digest.Md5
