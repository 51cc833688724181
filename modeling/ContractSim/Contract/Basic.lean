import ContractSim.Api.Function
import ContractSim.Assembly.Program
import ContractSim.Contract.Memory
import ContractSim.Contract.Stack
import ContractSim.Ledger.Transaction

namespace ContractSim

-- Where a contract stands between two blocks.
inductive Status where
  | running
  | stopped
  | sleeping (untilBlock : Word)
  | frozen
  | finished
  | dead
deriving DecidableEq, Repr

def Status.text : Status → String
  | .running => "running"
  | .stopped => "stopped"
  | .sleeping untilBlock => s!"sleeping until block {untilBlock}"
  | .frozen => "frozen (out of balance)"
  | .finished => "finished"
  | .dead => "dead"

-- A deployed contract and the state of its machine.
structure Contract where
  id : Word
  creator : Word
  program : Program
  memory : Memory
  a : Register := Register.zero
  b : Register := Register.zero
  userStack : Stack Word
  codeStack : Stack Nat
  -- The line of the next instruction.
  ip : Nat
  -- The line where the contract starts again after it has finished.
  pcs : Nat
  -- The line that handles recoverable faults.
  err : Option Nat := none
  running : Bool := true
  stopped : Bool := false
  finished : Bool := false
  frozen : Bool := false
  dead : Bool := false
  sleepUntil : Option Word := none
  -- What the contract died of.
  exception : Option String := none
  -- The balance when the contract halted last.
  previousBalance : Word := 0
  activationAmount : Word
  creationBlock : Word
  dataPages : Word
  userStackPages : Word
  codeStackPages : Word
  -- Payments that wait for the block to be forged.
  queue : List Transaction := []
  issuedAssets : List Word := []
  feesPaid : Word := 0
  steps : Nat := 0
deriving DecidableEq, Repr

namespace Contract

def register (contract : Contract) : RegisterName → Register
  | .a => contract.a
  | .b => contract.b

def setRegister (contract : Contract) (value : Register) : RegisterName → Contract
  | .a => { contract with a := value }
  | .b => { contract with b := value }

def status (contract : Contract) : Status :=
  if contract.dead then .dead
  else if contract.running then .running
  else if contract.finished then .finished
  else
    match contract.sleepUntil with
    | some untilBlock => .sleeping untilBlock
    | none => if contract.frozen then .frozen else .stopped

-- Ends an execution slice and notes the balance.
def halt (contract : Contract) (balance : Word) : Contract :=
  { contract with running := false, previousBalance := balance }

def kill (contract : Contract) (fault : Fault) (balance : Word) : Contract :=
  { contract with dead := true, exception := some fault.message }.halt balance

-- Lets a contract run again.
def reactivate (contract : Contract) : Contract :=
  { contract with
    running := true, stopped := false, frozen := false, finished := false, sleepUntil := none }

-- Moves control to the next executable line at or after an index.
def goto (contract : Contract) (line : Nat) : Contract :=
  { contract with ip := contract.program.landing line }

end Contract

end ContractSim
