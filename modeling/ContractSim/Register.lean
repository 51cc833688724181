import ContractSim.Word

namespace ContractSim

-- Four values of one type, numbered from one.
structure Quad (α : Type) where
  w1 : α
  w2 : α
  w3 : α
  w4 : α
deriving DecidableEq, Repr

-- A position in a quad.
inductive Lane where
  | first
  | second
  | third
  | fourth
deriving DecidableEq, Repr

namespace Quad

variable {α β γ : Type}

def replicate (value : α) : Quad α := ⟨value, value, value, value⟩

def get (quad : Quad α) : Lane → α
  | .first => quad.w1
  | .second => quad.w2
  | .third => quad.w3
  | .fourth => quad.w4

def set (quad : Quad α) (value : α) : Lane → Quad α
  | .first => { quad with w1 := value }
  | .second => { quad with w2 := value }
  | .third => { quad with w3 := value }
  | .fourth => { quad with w4 := value }

def map (f : α → β) (quad : Quad α) : Quad β := ⟨f quad.w1, f quad.w2, f quad.w3, f quad.w4⟩

def zipWith (f : α → β → γ) (left : Quad α) (right : Quad β) : Quad γ :=
  ⟨f left.w1 right.w1, f left.w2 right.w2, f left.w3 right.w3, f left.w4 right.w4⟩

def toList (quad : Quad α) : List α := [quad.w1, quad.w2, quad.w3, quad.w4]

-- The first four values of a list; missing ones are the given default.
def ofList (default : α) (values : List α) : Quad α :=
  ⟨values.getD 0 default, values.getD 1 default, values.getD 2 default, values.getD 3 default⟩

end Quad

-- A wide register: four words, the first least significant.
abbrev Register := Quad Word

namespace Register

-- Registers count modulo this number: 2^256.
def modulus : Nat := Word.modulus * Word.modulus * Word.modulus * Word.modulus

def zero : Register := Quad.replicate 0

-- A register that holds one word.
def ofWord (word : Word) : Register := ⟨word, 0, 0, 0⟩

-- The number a register stands for; its words are the digits.
def value (register : Register) : Nat :=
  register.w1.toNat + Word.modulus * (register.w2.toNat +
    Word.modulus * (register.w3.toNat + Word.modulus * register.w4.toNat))

-- The register that stands for a number modulo 2^256.
def ofNat (value : Nat) : Register :=
  ⟨UInt64.ofNat value, UInt64.ofNat (value / Word.modulus),
    UInt64.ofNat (value / Word.modulus / Word.modulus),
    UInt64.ofNat (value / Word.modulus / Word.modulus / Word.modulus)⟩

-- The register with every bit flipped.
def complement (register : Register) : Register := register.map (~~~·)

def add (left right : Register) : Register := ofNat (left.value + right.value)

def sub (left right : Register) : Register := ofNat (left.value + (modulus - right.value))

def mul (left right : Register) : Register := ofNat (left.value * right.value)

def div (left right : Register) : Register := ofNat (left.value / right.value)

-- An integer given by sign and magnitude, in two's complement.
def ofSigned (negative : Bool) (magnitude : Nat) : Register :=
  let register := ofNat magnitude
  if negative then register.complement.add (ofWord 1) else register

end Register

end ContractSim
