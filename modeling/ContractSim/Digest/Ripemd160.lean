import ContractSim.Digest.Blocks

namespace ContractSim.Digest.Ripemd160

-- The five words that a block is mixed into.
structure State where
  a : UInt32
  b : UInt32
  c : UInt32
  d : UInt32
  e : UInt32

def start : State := ⟨0x67452301, 0xefcdab89, 0x98badcfe, 0x10325476, 0xc3d2e1f0⟩

-- The words of the block in the order of the left line.
def leftWords : List Nat :=
  [
    0, 1, 2, 3, 4, 5, 6, 7, 8, 9, 10, 11, 12, 13, 14, 15,
    7, 4, 13, 1, 10, 6, 15, 3, 12, 0, 9, 5, 2, 14, 11, 8,
    3, 10, 14, 4, 9, 15, 8, 1, 2, 7, 0, 6, 13, 11, 5, 12,
    1, 9, 11, 10, 0, 8, 12, 4, 13, 3, 7, 15, 14, 5, 6, 2,
    4, 0, 5, 9, 7, 12, 2, 10, 14, 1, 3, 8, 11, 6, 15, 13
  ]

-- The words of the block in the order of the right line.
def rightWords : List Nat :=
  [
    5, 14, 7, 0, 9, 2, 11, 4, 13, 6, 15, 8, 1, 10, 3, 12,
    6, 11, 3, 7, 0, 13, 5, 10, 14, 15, 8, 12, 4, 9, 1, 2,
    15, 5, 1, 3, 7, 14, 6, 9, 11, 8, 12, 2, 10, 0, 4, 13,
    8, 6, 4, 1, 3, 11, 15, 0, 5, 12, 2, 13, 9, 7, 10, 14,
    12, 15, 10, 4, 1, 5, 8, 7, 6, 2, 13, 14, 0, 3, 9, 11
  ]

-- The rotations of the left line.
def leftRotations : List UInt32 :=
  [
    11, 14, 15, 12, 5, 8, 7, 9, 11, 13, 14, 15, 6, 7, 9, 8,
    7, 6, 8, 13, 11, 9, 7, 15, 7, 12, 15, 9, 11, 7, 13, 12,
    11, 13, 6, 7, 14, 9, 13, 15, 14, 8, 13, 6, 5, 12, 7, 5,
    11, 12, 14, 15, 14, 15, 9, 8, 9, 14, 5, 6, 8, 6, 5, 12,
    9, 15, 5, 11, 6, 8, 13, 12, 5, 12, 13, 14, 11, 8, 5, 6
  ]

-- The rotations of the right line.
def rightRotations : List UInt32 :=
  [
    8, 9, 9, 11, 13, 15, 15, 5, 7, 7, 8, 11, 14, 14, 12, 6,
    9, 13, 15, 7, 12, 8, 9, 11, 7, 7, 12, 7, 6, 15, 13, 11,
    9, 7, 15, 11, 8, 6, 6, 14, 12, 13, 5, 14, 13, 13, 7, 5,
    15, 5, 8, 11, 14, 14, 6, 14, 6, 9, 12, 9, 12, 5, 15, 8,
    8, 5, 12, 9, 12, 5, 14, 6, 8, 13, 6, 5, 15, 13, 11, 11
  ]

-- The additive constants of the five rounds of the left line.
def leftConstants : List UInt32 := [0x00000000, 0x5a827999, 0x6ed9eba1, 0x8f1bbcdc, 0xa953fd4e]

-- The additive constants of the five rounds of the right line.
def rightConstants : List UInt32 := [0x50a28be6, 0x5c4dd124, 0x6d703ef3, 0x7a6d76e9, 0x00000000]

-- The bitwise function of a round.
def mix (round : Nat) (x y z : UInt32) : UInt32 :=
  match round with
  | 0 => x ^^^ y ^^^ z
  | 1 => (x &&& y) ||| (~~~x &&& z)
  | 2 => (x ||| ~~~y) ^^^ z
  | 3 => (x &&& z) ||| (y &&& ~~~z)
  | _ => x ^^^ (y ||| ~~~z)

def step (state : State) (round : Nat) (constant word rotation : UInt32) : State :=
  let sum := state.a + mix round state.b state.c state.d + word + constant
  ⟨state.e, rotateLeft sum rotation + state.e, state.b, rotateLeft state.c 10, state.d⟩

def leftStep (block : List UInt32) (state : State) (index : Nat) : State :=
  step state (index / 16) (leftConstants.getD (index / 16) 0)
    (block.getD (leftWords.getD index 0) 0) (leftRotations.getD index 0)

-- The right line takes the bitwise functions in the opposite order.
def rightStep (block : List UInt32) (state : State) (index : Nat) : State :=
  step state (4 - index / 16) (rightConstants.getD (index / 16) 0)
    (block.getD (rightWords.getD index 0) 0) (rightRotations.getD index 0)

def compress (state : State) (block : List UInt32) : State :=
  let left := (List.range 80).foldl (leftStep block) state
  let right := (List.range 80).foldl (rightStep block) state
  ⟨state.b + left.c + right.d, state.c + left.d + right.e, state.d + left.e + right.a,
    state.e + left.a + right.b, state.a + left.b + right.c⟩

-- The twenty bytes of the RIPEMD-160 digest of a message.
def digest (message : List UInt8) : List UInt8 :=
  let words := littleWords (padded message (lengthBytes message))
  let state := (blocks words).foldl compress start
  [state.a, state.b, state.c, state.d, state.e].flatMap littleBytes

end ContractSim.Digest.Ripemd160
