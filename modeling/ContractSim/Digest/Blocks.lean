namespace ContractSim.Digest

def rotateLeft (word : UInt32) (count : UInt32) : UInt32 :=
  (word <<< count) ||| (word >>> (32 - count))

def rotateRight (word : UInt32) (count : UInt32) : UInt32 :=
  (word >>> count) ||| (word <<< (32 - count))

-- The bytes of a short word, least significant first.
def littleBytes (word : UInt32) : List UInt8 :=
  [word.toUInt8, (word >>> 8).toUInt8, (word >>> 16).toUInt8, (word >>> 24).toUInt8]

-- The bytes of a short word, most significant first.
def bigBytes (word : UInt32) : List UInt8 := (littleBytes word).reverse

-- The short word with four given bytes, least significant first.
def ofLittleBytes (b0 b1 b2 b3 : UInt8) : UInt32 :=
  b0.toUInt32 ||| (b1.toUInt32 <<< 8) ||| (b2.toUInt32 <<< 16) ||| (b3.toUInt32 <<< 24)

-- Reads bytes as short words, each with its least significant byte first.
def littleWords : List UInt8 → List UInt32
  | b0 :: b1 :: b2 :: b3 :: rest => ofLittleBytes b0 b1 b2 b3 :: littleWords rest
  | _ => []

-- Reads bytes as short words, each with its most significant byte first.
def bigWords : List UInt8 → List UInt32
  | b0 :: b1 :: b2 :: b3 :: rest => ofLittleBytes b3 b2 b1 b0 :: bigWords rest
  | _ => []

-- The eight bytes of the length of a message in bits, least significant first.
def lengthBytes (message : List UInt8) : List UInt8 :=
  let bits := UInt64.ofNat (8 * message.length)
  littleBytes bits.toUInt32 ++ littleBytes (bits >>> 32).toUInt32

-- A message, a one bit, zeros and the length: whole blocks of 64 bytes.
def padded (message length : List UInt8) : List UInt8 :=
  message ++ 0x80 :: List.replicate ((119 - message.length % 64) % 64) 0 ++ length

-- The first blocks of sixteen words, as many as asked for.
def takeBlocks : Nat → List UInt32 → List (List UInt32)
  | 0, _ => []
  | count + 1, words => words.take 16 :: takeBlocks count (words.drop 16)

-- Cuts a padded message into blocks of sixteen words.
def blocks (words : List UInt32) : List (List UInt32) := takeBlocks (words.length / 16) words

end ContractSim.Digest
