import ContractSim.Api.Call
import ContractSim.Machine.Arithmetic

namespace ContractSim

-- Where control goes behind an instruction.
inductive Flow where
  | next
  | jump (line : Nat)
  | stop
  | sleep (untilBlock : Word)
  | finish
  -- Sleep, then run the same instruction again.
  | retry (untilBlock : Word)
deriving DecidableEq, Repr

namespace Machine

def readCell (name : String) : Action Word := do return (← get).contract.memory.read name

def writeCell (name : String) (value : Word) : Action Unit :=
  modifyContract fun contract => { contract with memory := contract.memory.write name value }

-- Goes on with a result or raises its fault.
def orFault {α : Type} : Except Fault α → Action α
  | .ok value => pure value
  | .error fault => throw fault

-- The line that defines a label.
def resolve (label : String) : Action Nat := do
  match (← get).contract.program.label? label with
  | some line => pure line
  | none => throw (.unknownLabel label)

def readAddress (address : Word) : Action Word := do
  orFault ((← get).contract.memory.readAt address)

def writeAddress (address value : Word) : Action Unit := do
  let memory ← orFault ((← get).contract.memory.writeAt address value)
  modifyContract ({ · with memory })

-- Jumps to a label if a condition holds.
def jumpIf (condition : Bool) (label : String) : Action Flow := do
  if condition then return .jump (← resolve label) else return .next

-- Stores a value in a cell and goes on.
def storeNext (target : String) (value : Word) : Action Flow := do
  writeCell target value
  return .next

-- Calls a built-in function with the values of cells. A call that has to be repeated leaves zero
-- in its result cell.
def callNamed (protocol : Protocol) (function : ApiFunction) (result : Option String)
    (arguments : List String) : Action Flow := do
  let memory := (← get).contract.memory
  let values := arguments.map memory.read
  match ← call protocol function (values.getD 0 0) (values.getD 1 0) with
  | .value value =>
      result.forM (writeCell · value)
      return .next
  | .sleep untilBlock =>
      result.forM (writeCell · 0)
      return .retry untilBlock

-- Runs the instruction of a line.
def execute (protocol : Protocol) (line : Nat) : Instruction → Action Flow
  | .setValue target value => storeNext target value
  | .copy target source => do storeNext target (← readCell source)
  | .clear target => storeNext target 0
  | .increment target => do storeNext target ((← readCell target) + 1)
  | .decrement target => do storeNext target ((← readCell target) - 1)
  | .complement target => do storeNext target (~~~(← readCell target))
  | .arith op target source => do
      let value ← orFault (op.eval (← readCell target) (← readCell source))
      storeNext target value
  | .load target pointer => do storeNext target (← readAddress (← readCell pointer))
  | .loadIndexed target base offset => do
      storeNext target (← readAddress ((← readCell base) + (← readCell offset)))
  | .store pointer source => do
      writeAddress (← readCell pointer) (← readCell source)
      return .next
  | .storeIndexed base offset source => do
      writeAddress ((← readCell base) + (← readCell offset)) (← readCell source)
      return .next
  | .push source => do
      let value ← readCell source
      let userStack ← orFault ((← get).contract.userStack.push value)
      modifyContract ({ · with userStack })
      return .next
  | .pop target => do
      let (value, userStack) ← orFault (← get).contract.userStack.pop
      modifyContract ({ · with userStack })
      storeNext target value
  | .jumpSub label => do
      let target ← resolve label
      let codeStack ← orFault ((← get).contract.codeStack.push (line + 1))
      modifyContract ({ · with codeStack })
      return .jump target
  | .ret => do
      let (target, codeStack) ← orFault (← get).contract.codeStack.pop
      modifyContract ({ · with codeStack })
      return .jump target
  | .jump label => do return .jump (← resolve label)
  | .setHandler label => do
      let target ← resolve label
      modifyContract ({ · with err := some target })
      return .next
  | .setRestart => do
      modifyContract fun contract => { contract with pcs := contract.program.landing (line + 1) }
      return .next
  | .nop => return .next
  | .branchZero source label => do jumpIf ((← readCell source) == 0) label
  | .branchNotZero source label => do jumpIf ((← readCell source) != 0) label
  | .branch condition left right label => do
      jumpIf (condition.holds (← readCell left).signed (← readCell right).signed) label
  | .mulDiv target multiplier divisor => do
      let value ← orFault
        (ContractSim.mulDiv (← readCell target) (← readCell multiplier) (← readCell divisor))
      storeNext target value
  | .sleep blocks => do
      let count ← match blocks with
        | some name => readCell name
        | none => pure 1
      return .sleep (Word.saturatingAdd (← get).ledger.height (max count 1))
  | .finishIfZero source => do return if (← readCell source) = 0 then .finish else .next
  | .stopIfZero source => do return if (← readCell source) = 0 then .stop else .next
  | .finish => return .finish
  | .stop => return .stop
  | .call function result arguments => callNamed protocol function result arguments

end Machine

end ContractSim
