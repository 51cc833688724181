import ContractSim.Digest.Blocks
import ContractSim.Register

namespace ContractSim

-- A reproducible stream of words: the ChaCha keystream with twelve rounds. The place in the
-- stream is the number of words drawn so far, so two streams of one seed agree word by word.
structure IdStream where
  lowKey : Quad UInt32
  highKey : Quad UInt32
  drawn : Nat
deriving DecidableEq, Repr

namespace IdStream

-- One step of the generator that stretches a seed into a key.
def seedStep (state : Word) : Word := state * 6364136223846793005 + 11634580027462260723

-- The key word of a generator state: its high bits, mixed and rotated.
def seedOutput (state : Word) : UInt32 :=
  Digest.rotateRight (((state >>> 18) ^^^ state) >>> 27).toUInt32 (state >>> 59).toUInt32

-- The next key words of the generator, as many as asked for.
def keyWords : Nat → Word → List UInt32
  | 0, _ => []
  | count + 1, state => seedOutput (seedStep state) :: keyWords count (seedStep state)

-- The stream of a seed, at its start.
def ofSeed (seed : Word) : IdStream :=
  let key := keyWords 8 seed
  ⟨Quad.ofList 0 key, Quad.ofList 0 (key.drop 4), 0⟩

-- The four rows of a keystream block.
structure Rows where
  a : Quad UInt32
  b : Quad UInt32
  c : Quad UInt32
  d : Quad UInt32

-- Moves the entries of a row to the left, around its end.
def turn (row : Quad UInt32) : Lane → Quad UInt32
  | .first => row
  | .second => ⟨row.w2, row.w3, row.w4, row.w1⟩
  | .third => ⟨row.w3, row.w4, row.w1, row.w2⟩
  | .fourth => ⟨row.w4, row.w1, row.w2, row.w3⟩

def addRows (left right : Quad UInt32) : Quad UInt32 := left.zipWith (· + ·) right

-- Exclusive or of two rows, then a rotation of each entry.
def mixRows (left right : Quad UInt32) (count : UInt32) : Quad UInt32 :=
  left.zipWith (fun x y => Digest.rotateLeft (x ^^^ y) count) right

-- The quarter round on all four columns at once.
def columnRound (rows : Rows) : Rows :=
  let a := addRows rows.a rows.b
  let d := mixRows rows.d a 16
  let c := addRows rows.c d
  let b := mixRows rows.b c 12
  let a := addRows a b
  let d := mixRows d a 8
  let c := addRows c d
  let b := mixRows b c 7
  ⟨a, b, c, d⟩

-- A round on the columns, then one on the diagonals.
def doubleRound (rows : Rows) : Rows :=
  let rows := columnRound rows
  let rows := columnRound ⟨rows.a, turn rows.b .second, turn rows.c .third, turn rows.d .fourth⟩
  ⟨rows.a, turn rows.b .fourth, turn rows.c .third, turn rows.d .second⟩

-- The block before mixing: a fixed row, the key and the block number.
def plainBlock (stream : IdStream) (number : Word) : Rows :=
  ⟨⟨0x61707865, 0x3320646e, 0x79622d32, 0x6b206574⟩, stream.lowKey, stream.highKey,
    ⟨number.toUInt32, (number >>> 32).toUInt32, 0, 0⟩⟩

-- The sixteen short words of a keystream block.
def block (stream : IdStream) (number : Word) : List UInt32 :=
  let plain := plainBlock stream number
  let mixed := Nat.repeat doubleRound 6 plain
  (addRows plain.a mixed.a).toList ++ (addRows plain.b mixed.b).toList ++
    (addRows plain.c mixed.c).toList ++ (addRows plain.d mixed.d).toList

-- The word at the current place. A block holds eight words, each with its low half first.
def current (stream : IdStream) : Word :=
  let words := stream.block (UInt64.ofNat (stream.drawn / 8))
  let place := 2 * (stream.drawn % 8)
  (words.getD place 0).toUInt64 ||| ((words.getD (place + 1) 0).toUInt64 <<< 32)

-- The stream one word later.
def next (stream : IdStream) : IdStream := { stream with drawn := stream.drawn + 1 }

-- The first word that passes a test among the next ones, and the stream behind it. A search that
-- finds none gives zero.
def search (accept : Word → Bool) : Nat → IdStream → Word × IdStream
  | 0, stream => (0, stream)
  | limit + 1, stream =>
      if accept stream.current then (stream.current, stream.next)
      else search accept limit stream.next

-- Blocks are numbered by words and hold eight words each: the stream repeats after this many.
def period : Nat := 8 * Word.modulus

-- The next word of the stream that passes a test. The search covers a whole period, so it finds a
-- word if the stream has one.
def draw (stream : IdStream) (accept : Word → Bool) : Word × IdStream :=
  search accept period stream

end IdStream

end ContractSim
