import ContractSim.Assembly.Fee
import ContractSim.Machine.Execute

namespace ContractSim

-- Why a contract does not go on.
inductive HaltReason where
  -- The contract was not running in the first place.
  | notRunning
  | stopped
  | sleeping (untilBlock : Word)
  | finished
  -- The balance does not cover the next instruction.
  | outOfBalance
  | dead (fault : Fault)
deriving DecidableEq, Repr

def HaltReason.text : HaltReason → String
  | .notRunning => "contract is not running"
  | .stopped => "stopped"
  | .sleeping untilBlock => s!"sleeping until block {untilBlock}"
  | .finished => "finished"
  | .outOfBalance => "frozen: not enough balance for the next instruction"
  | .dead fault => "dead: " ++ fault.message

-- What a step leads to.
inductive Outcome where
  | running
  -- Still running, and the next line has a breakpoint.
  | breakpoint (line : Nat)
  | halted (reason : HaltReason)
deriving DecidableEq, Repr

def Outcome.isHalt : Outcome → Bool
  | .halted _ => true
  | .running | .breakpoint _ => false

-- Lines at which a run pauses.
abbrev Breakpoints := List Nat

namespace Machine

-- Ends the execution slice.
def halt (machine : Machine) : Machine :=
  { machine with contract := machine.contract.halt machine.balance }

-- Kills the contract.
def die (machine : Machine) (fault : Fault) : Outcome × Machine :=
  (.halted (.dead fault), { machine with contract := machine.contract.kill fault machine.balance })

-- Moves control to the next executable line at or after an index.
def goto (machine : Machine) (line : Nat) : Machine :=
  { machine with contract := machine.contract.goto line }

-- Halts with the instruction that could not be paid for still to come.
def freeze (machine : Machine) : Outcome × Machine :=
  (.halted .outOfBalance,
    { machine with contract := { machine.contract with frozen := true, stopped := true } }.halt)

-- Puts the contract to sleep.
def fallAsleep (machine : Machine) (untilBlock : Word) : Outcome × Machine :=
  (.halted (.sleeping untilBlock),
    { machine with
      contract := { machine.contract with stopped := true, sleepUntil := some untilBlock } }.halt)

-- Carries out the control transfer of the instruction of a line.
def transfer (machine : Machine) (line : Nat) : Flow → Outcome × Machine
  | .next => (.running, machine.goto (line + 1))
  | .jump target => (.running, machine.goto target)
  | .stop =>
      let machine := machine.goto (line + 1)
      (.halted .stopped,
        { machine with contract := { machine.contract with stopped := true } }.halt)
  | .sleep untilBlock => (machine.goto (line + 1)).fallAsleep untilBlock
  | .retry untilBlock => machine.fallAsleep untilBlock
  | .finish =>
      (.halted .finished,
        { machine with
          contract :=
            { machine.contract with
              ip := machine.contract.pcs, finished := true, frozen := true } }.halt)

-- Takes a fault to the handler of the contract or kills the contract.
def handle (machine : Machine) (fault : Fault) : Outcome × Machine :=
  match machine.contract.err with
  | some handler =>
      if fault.isRecoverable then (.running, machine.goto handler) else machine.die fault
  | none => machine.die fault

-- Runs an instruction that has been paid for.
def perform (machine : Machine) (protocol : Protocol) (line : Nat) (instruction : Instruction) :
    Outcome × Machine :=
  match (execute protocol line instruction).run machine with
  | (.ok flow, machine) => machine.transfer line flow
  | (.error fault, machine) => machine.handle fault

-- Counts an instruction and what it cost.
def count (machine : Machine) (fee : Word) : Machine :=
  { machine with
    contract :=
      { machine.contract with
        feesPaid := machine.contract.feesPaid + fee, steps := machine.contract.steps + 1 } }

-- Charges for the instruction of a line, then runs it.
def chargeAndPerform (machine : Machine) (protocol : Protocol) (line : Nat)
    (instruction : Instruction) : Outcome × Machine :=
  let fee := protocol.fee (FeeClass.ofInstruction instruction)
  if machine.balance < fee then machine.freeze
  else
    match (Ledger.debit machine.contract.id fee).run machine.ledger with
    | (.error error, ledger) => { machine with ledger }.die (.ledger error)
    | (.ok (), ledger) => ({ machine with ledger }.count fee).perform protocol line instruction

-- Runs the next instruction, whatever the breakpoints.
def advance (machine : Machine) (protocol : Protocol) : Outcome × Machine :=
  let contract := machine.contract
  if !contract.running then (.halted .notRunning, machine)
  else
    match contract.program.nextExecutable? contract.ip with
    | none => machine.die .endOfCode
    | some line =>
        let machine := { machine with contract := { contract with ip := line } }
        match contract.program.line? line with
        | some (.code instruction) => machine.chargeAndPerform protocol line instruction
        | _ => machine.die (.invalidInstruction line (contract.program.trimmedLine line))

-- Tells a breakpoint at the next line from plain running.
def notice (breakpoints : Breakpoints) : Outcome × Machine → Outcome × Machine
  | (.running, machine) =>
      if machine.contract.ip ∈ breakpoints then (.breakpoint machine.contract.ip, machine)
      else (.running, machine)
  | (outcome, machine) => (outcome, machine)

-- Runs one instruction.
def step (machine : Machine) (protocol : Protocol) (breakpoints : Breakpoints) :
    Outcome × Machine :=
  notice breakpoints (machine.advance protocol)

end Machine

end ContractSim
