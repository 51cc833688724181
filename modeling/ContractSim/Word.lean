namespace ContractSim

-- Machine words have 64 bits and wrap.
abbrev Word := UInt64

namespace Word

-- One past the largest word: 2^64.
def modulus : Nat := 18446744073709551616

-- All bits set: the largest word, and the answer of a query that finds nothing.
def top : Word := 0xffffffffffffffff

def ofFlag (flag : Bool) : Word := if flag then 1 else 0

-- The word read as a two's complement number, from -2^63 to 2^63 - 1.
def signed (word : Word) : Int := word.toBitVec.toInt

-- The word congruent to an integer modulo 2^64.
def ofInt (value : Int) : Word := UInt64.ofInt value

-- The nearest word: numbers past the largest word become the largest word.
def clamp (value : Nat) : Word := if value < modulus then UInt64.ofNat value else top

def saturatingAdd (left right : Word) : Word := clamp (left.toNat + right.toNat)

def saturatingMul (left right : Word) : Word := clamp (left.toNat * right.toNat)

def saturatingSub (left right : Word) : Word := if right ≤ left then left - right else 0

-- The exact sum, when it is a word.
def checkedAdd (left right : Word) : Option Word :=
  if left.toNat + right.toNat < modulus then some (left + right) else none

-- The eight bytes of a word, least significant first.
def bytes (word : Word) : List UInt8 :=
  [word.toUInt8, (word >>> 8).toUInt8, (word >>> 16).toUInt8, (word >>> 24).toUInt8,
    (word >>> 32).toUInt8, (word >>> 40).toUInt8, (word >>> 48).toUInt8, (word >>> 56).toUInt8]

-- The number whose base 256 digits are given, least significant first.
def littleEndian : List UInt8 → Nat
  | [] => 0
  | byte :: rest => byte.toNat + 256 * littleEndian rest

-- The word with the given bytes, least significant first; missing bytes are zero.
def ofBytes (bytes : List UInt8) : Word := UInt64.ofNat (littleEndian bytes)

-- The bytes of a list of words, word after word.
def listBytes (words : List Word) : List UInt8 := words.flatMap bytes

-- Groups bytes into words of eight; the last word is filled up with zero bytes.
def ofByteList : List UInt8 → List Word
  | b0 :: b1 :: b2 :: b3 :: b4 :: b5 :: b6 :: b7 :: rest =>
      ofBytes [b0, b1, b2, b3, b4, b5, b6, b7] :: ofByteList rest
  | [] => []
  | rest => [ofBytes rest]

-- Groups bytes into words of eight; bytes behind the last whole word are dropped.
def ofChunks : List UInt8 → List Word
  | b0 :: b1 :: b2 :: b3 :: b4 :: b5 :: b6 :: b7 :: rest =>
      ofBytes [b0, b1, b2, b3, b4, b5, b6, b7] :: ofChunks rest
  | _ => []

-- The exact sum of a list of words.
def total : List Word → Nat
  | [] => 0
  | word :: rest => word.toNat + total rest

-- The sum of a list of words, at most the largest word.
def saturatingSum (words : List Word) : Word := words.foldl saturatingAdd 0

end Word

end ContractSim
