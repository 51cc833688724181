import ContractSim.Ledger.Basic

namespace ContractSim

-- What can go wrong while a contract runs.
inductive Fault where
  | divisionByZero
  | userStackOverflow
  | userStackUnderflow
  | codeStackOverflow
  | codeStackUnderflow
  | invalidAddress (address : Word)
  | unknownLabel (label : String)
  | invalidInstruction (line : Nat) (text : String)
  | endOfCode
  | unknownContract (id : Word)
  | ledger (error : LedgerError)
deriving DecidableEq, Repr

namespace Fault

def message : Fault → String
  | .divisionByZero => "Division by zero"
  | .userStackOverflow => "User stack overflow"
  | .userStackUnderflow => "User stack underflow"
  | .codeStackOverflow => "Code stack overflow"
  | .codeStackUnderflow => "Code stack underflow"
  | .invalidAddress address => s!"Invalid memory address: {address}"
  | .unknownLabel label => "Unknown label: " ++ label
  | .invalidInstruction line text => s!"Invalid instruction at line {line}: " ++ text
  | .endOfCode => "Execution ran past the last instruction"
  | .unknownContract id => s!"Unknown contract: {id}"
  | .ledger error => "Ledger error: " ++ error.message

-- Faults that a handler of the contract can catch. All others kill the contract.
def isRecoverable : Fault → Bool
  | .divisionByZero | .userStackOverflow | .userStackUnderflow | .codeStackOverflow
  | .codeStackUnderflow | .invalidAddress _ => true
  | .unknownLabel _ | .invalidInstruction _ _ | .endOfCode | .unknownContract _ | .ledger _ => false

end Fault

end ContractSim
