import ContractSim.Digest.Md5
import ContractSim.Digest.Ripemd160
import ContractSim.Digest.Sha256
import ContractSim.Register

namespace ContractSim

-- The hash functions that contracts can call.
inductive HashAlgorithm where
  | md5
  | ripemd160
  | sha256
deriving DecidableEq, Repr

namespace HashAlgorithm

-- The number of words in a digest.
def outputWords : HashAlgorithm → Nat
  | .md5 => 2
  | .ripemd160 => 3
  | .sha256 => 4

def digestBytes : HashAlgorithm → List UInt8 → List UInt8
  | .md5 => Digest.Md5.digest
  | .ripemd160 => Digest.Ripemd160.digest
  | .sha256 => Digest.Sha256.digest

-- Hashes the bytes of words, each least significant byte first, and reads the digest back as words.
def digest (algorithm : HashAlgorithm) (words : List Word) : List Word :=
  Word.ofByteList (algorithm.digestBytes (Word.listBytes words))

-- The digest of the words of a list, in the lanes of a register; unused lanes are zero.
def digestRegister (algorithm : HashAlgorithm) (words : List Word) : Register :=
  Quad.ofList 0 (algorithm.digest words)

end HashAlgorithm

-- The first word of the SHA-256 digest of a byte string.
def sha256Word (bytes : List UInt8) : Word :=
  (Word.ofByteList (Digest.Sha256.digest bytes)).headD 0

end ContractSim
