import ContractSim.Assembly.Instruction
import ContractSim.Machine.Fault

namespace ContractSim

namespace Word

-- The word times a power of two, and zero once all bits have left.
def shiftLeft (word count : Word) : Word := if count < 64 then word <<< count else 0

-- The word divided by a power of two, and zero once all bits have left.
def shiftRight (word count : Word) : Word := if count < 64 then word >>> count else 0

end Word

namespace ArithOp

-- The result of an operator. Division and remainder are signed and go toward zero.
def eval : ArithOp → Word → Word → Except Fault Word
  | .add, left, right => .ok (left + right)
  | .sub, left, right => .ok (left - right)
  | .mul, left, right => .ok (left * right)
  | .div, left, right =>
      if right = 0 then .error .divisionByZero
      else .ok (Word.ofInt (left.signed.tdiv right.signed))
  | .mod, left, right =>
      if right = 0 then .error .divisionByZero
      else .ok (Word.ofInt (left.signed.tmod right.signed))
  | .or, left, right => .ok (left ||| right)
  | .and, left, right => .ok (left &&& right)
  | .xor, left, right => .ok (left ^^^ right)
  | .shl, left, right => .ok (left.shiftLeft right)
  | .shr, left, right => .ok (left.shiftRight right)

end ArithOp

-- A signed product divided by a signed number, toward zero, without an intermediate overflow.
def mulDiv (value multiplier divisor : Word) : Except Fault Word :=
  if divisor = 0 then .error .divisionByZero
  else .ok (Word.ofInt ((value.signed * multiplier.signed).tdiv divisor.signed))

end ContractSim
