import ContractSim.Machine.Run

namespace ContractSim

-- All deployed contracts, in order of deployment, and the ledger that they share.
structure Simulation where
  protocol : Protocol
  ledger : Ledger
  contracts : List Contract
deriving DecidableEq, Repr

namespace Simulation

def start (protocol : Protocol) (ledger : Ledger) : Simulation := ⟨protocol, ledger, []⟩

def contract? (simulation : Simulation) (id : Word) : Option Contract :=
  simulation.contracts.find? (·.id == id)

-- Changes one contract.
def updateContract (simulation : Simulation) (id : Word) (change : Contract → Contract) :
    Simulation :=
  { simulation with contracts := updateFirst (·.id == id) change simulation.contracts }

-- The machine of a contract.
def machine (simulation : Simulation) (contract : Contract) : Machine :=
  ⟨contract, simulation.ledger⟩

-- Takes the state of a machine back.
def install (simulation : Simulation) (id : Word) (machine : Machine) : Simulation :=
  { simulation.updateContract id (fun _ => machine.contract) with ledger := machine.ledger }

-- Lets the machine of a contract work.
def onMachine {α : Type} (simulation : Simulation) (id : Word) (work : Machine → α × Machine) :
    Except Fault (α × Simulation) :=
  match simulation.contract? id with
  | none => .error (.unknownContract id)
  | some contract =>
      let (answer, machine) := work (simulation.machine contract)
      .ok (answer, simulation.install id machine)

-- Runs one instruction of a contract.
def stepContract (simulation : Simulation) (id : Word) (breakpoints : Breakpoints) :
    Except Fault (Outcome × Simulation) :=
  simulation.onMachine id (·.step simulation.protocol breakpoints)

-- Runs a contract until it halts or stands on a breakpoint.
def runContract (simulation : Simulation) (id : Word) (breakpoints : Breakpoints) :
    Except Fault (RunResult × Simulation) :=
  simulation.onMachine id (·.run simulation.protocol breakpoints)

-- Calls a built-in function for a contract, free of charge.
def callFunction (simulation : Simulation) (id : Word) (function : ApiFunction)
    (first second : Word) : Except Fault (Except Fault Answer × Simulation) :=
  simulation.onMachine id (Machine.call simulation.protocol function first second).run

end Simulation

end ContractSim
