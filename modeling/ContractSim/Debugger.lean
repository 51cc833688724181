import ContractSim.Simulation.Forge

namespace ContractSim

-- Why a debugger command is refused.
inductive DebugError where
  | contractNotFound (contract : Word)
  | notExecutable (contract : Word) (line : Nat)
  | fault (cause : Fault)
deriving DecidableEq, Repr

def DebugError.message : DebugError → String
  | .contractNotFound contract => s!"Contract {contract} not found"
  | .notExecutable contract line =>
      s!"Line {line} is not an executable instruction of contract {contract}"
  | .fault cause => "VM error: " ++ cause.message

-- Where a debugger command left a contract, and after how many instructions.
inductive DebugStatus where
  | paused (line steps : Nat)
  | breakpoint (line steps : Nat)
  | halted (line steps : Nat) (reason : HaltReason)
deriving DecidableEq, Repr

namespace DebugStatus

def line : DebugStatus → Nat
  | .paused line _ | .breakpoint line _ | .halted line _ _ => line

def steps : DebugStatus → Nat
  | .paused _ steps | .breakpoint _ steps | .halted _ steps _ => steps

def text : DebugStatus → String
  | .paused line steps => s!"Paused at line {line} after {steps} instruction(s)"
  | .breakpoint line steps => s!"Breakpoint hit at line {line} after {steps} instruction(s)"
  | .halted line steps reason =>
      "Contract " ++ reason.text ++ s!" at line {line} after {steps} instruction(s)"

end DebugStatus

-- The breakpoints that are set, by contract. Contracts and lines are in ascending order.
structure Debugger where
  table : BreakpointTable := []
deriving DecidableEq, Repr

namespace Debugger

-- Sets a line in an ascending list, or clears it when it is set.
def toggleLine (line : Nat) : Breakpoints → Breakpoints
  | [] => [line]
  | other :: rest =>
      if line < other then line :: other :: rest
      else if line = other then rest
      else other :: toggleLine line rest

-- Changes the breakpoints of a contract in an ascending table. The contract stays in the table
-- when it has no breakpoints left.
def updateTable (contract : Word) (change : Breakpoints → Breakpoints) :
    BreakpointTable → BreakpointTable
  | [] => [(contract, change [])]
  | (other, lines) :: rest =>
      if contract < other then (contract, change []) :: (other, lines) :: rest
      else if contract = other then (other, change lines) :: rest
      else (other, lines) :: updateTable contract change rest

def breakpoints (debugger : Debugger) (contract : Word) : Breakpoints := debugger.table.of contract

-- Sets or clears a breakpoint at an executable line, and tells whether it is set now.
def toggle (debugger : Debugger) (simulation : Simulation) (contract : Word) (line : Nat) :
    Except DebugError (Bool × Debugger) :=
  match simulation.contract? contract with
  | none => .error (.contractNotFound contract)
  | some target =>
      if ((target.program.line? line).map Line.isExecutable).getD false then
        .ok (line ∉ debugger.breakpoints contract,
          { table := updateTable contract (toggleLine line) debugger.table })
      else .error (.notExecutable contract line)

def clear (_ : Debugger) : Debugger := { table := [] }

-- How a command that took some steps left a contract, which now stands at a line.
def statusOf (line steps : Nat) : Outcome → DebugStatus
  | .running => .paused line steps
  | .breakpoint line => .breakpoint line steps
  | .halted reason => .halted line steps reason

-- Steps a contract, at least once, as long as the depth of its code stack passes a test.
def stepWhile (debugger : Debugger) (simulation : Simulation) (contract : Contract)
    (goOn : Nat → Bool) : DebugStatus × Simulation :=
  let (outcome, final) :=
    (simulation.machine contract).slice simulation.protocol (debugger.breakpoints contract.id)
      fun machine => goOn machine.contract.codeStack.depth
  (statusOf final.contract.ip (final.contract.steps - contract.steps) outcome,
    simulation.install contract.id final)

-- The contract that a command is about.
def find (simulation : Simulation) (contract : Word) : Except DebugError Contract :=
  match simulation.contract? contract with
  | some target => .ok target
  | none => .error (.contractNotFound contract)

-- Runs a contract until it halts or stands on a breakpoint.
def run (debugger : Debugger) (simulation : Simulation) (contract : Word) :
    Except DebugError (DebugStatus × Simulation) :=
  match simulation.runContract contract (debugger.breakpoints contract) with
  | .error cause => .error (.fault cause)
  | .ok (result, next) =>
      .ok (statusOf (((next.contract? contract).map Contract.ip).getD 0) result.steps
        result.outcome, next)

-- Runs one instruction.
def stepInto (debugger : Debugger) (simulation : Simulation) (contract : Word) :
    Except DebugError (DebugStatus × Simulation) := do
  let target ← find simulation contract
  return debugger.stepWhile simulation target fun _ => false

-- The next instruction calls a subroutine.
def isAtCall (contract : Contract) : Bool :=
  match (contract.program.nextExecutable? contract.ip).bind contract.program.line? with
  | some (.code (.jumpSub _)) => true
  | _ => false

-- Runs one instruction, and a subroutine that it calls up to its return.
def stepOver (debugger : Debugger) (simulation : Simulation) (contract : Word) :
    Except DebugError (DebugStatus × Simulation) := do
  let target ← find simulation contract
  let atCall := isAtCall target
  let depth := target.codeStack.depth
  return debugger.stepWhile simulation target fun current => atCall && depth < current

-- Runs until the current subroutine returns; outside of subroutines, until the contract halts.
def stepOut (debugger : Debugger) (simulation : Simulation) (contract : Word) :
    Except DebugError (DebugStatus × Simulation) := do
  let target ← find simulation contract
  let depth := target.codeStack.depth
  return debugger.stepWhile simulation target fun current => depth ≤ current

end Debugger

end ContractSim
