import ContractSim.Simulation.Basic

namespace ContractSim

-- The run of one contract.
structure ContractRun where
  contract : Word
  result : RunResult
deriving DecidableEq, Repr

-- What happened in a block.
structure ForgeReport where
  -- The height of the block.
  height : Word
  executed : List ContractRun
  -- Ids of the payments of contracts.
  dispatched : List Word
  -- Ids of the transactions from outside.
  applied : List Word
  -- Contracts that run again from the next block on.
  activated : List Word
deriving DecidableEq, Repr

-- Breakpoints by contract.
abbrev BreakpointTable := List (Word × Breakpoints)

-- The breakpoints of one contract.
def BreakpointTable.of (table : BreakpointTable) (contract : Word) : Breakpoints :=
  (table.lookup contract).getD []

namespace Simulation

-- A change of a simulation that may be refused. What was changed before a refusal stays changed.
abbrev Change (α : Type) := ExceptT LedgerError (StateM Simulation) α

-- Runs the running contracts of a list one after another on a ledger.
def runContracts (protocol : Protocol) (table : BreakpointTable) :
    Ledger → List Contract → List ContractRun × Ledger × List Contract
  | ledger, [] => ([], ledger, [])
  | ledger, contract :: rest =>
      if contract.running then
        let (result, machine) := Machine.run ⟨contract, ledger⟩ protocol (table.of contract.id)
        let (runs, ledger, others) := runContracts protocol table machine.ledger rest
        (⟨contract.id, result⟩ :: runs, ledger, machine.contract :: others)
      else
        let (runs, ledger, others) := runContracts protocol table ledger rest
        (runs, ledger, contract :: others)

-- Runs every running contract.
def runAll (simulation : Simulation) (table : BreakpointTable) : List ContractRun × Simulation :=
  let (runs, ledger, contracts) :=
    runContracts simulation.protocol table simulation.ledger simulation.contracts
  (runs, { simulation with ledger, contracts })

-- Applies the payments of a queue one after another. Behind a refused payment the rest of the
-- queue, with that payment in front, stays.
def dispatchQueue :
    Ledger → List Transaction → Except LedgerError (List Word) × Ledger × List Transaction
  | ledger, [] => (.ok [], ledger, [])
  | ledger, tx :: rest =>
      match (Ledger.apply tx.classified).run ledger with
      | (.error error, ledger) => (.error error, ledger, tx.classified :: rest)
      | (.ok id, ledger) =>
          let (ids, ledger, left) := dispatchQueue ledger rest
          (ids.map (id :: ·), ledger, left)

-- Empties the queues of contracts one after another, up to the first refusal.
def dispatchQueues :
    Ledger → List Contract → Except LedgerError (List Word) × Ledger × List Contract
  | ledger, [] => (.ok [], ledger, [])
  | ledger, contract :: rest =>
      match dispatchQueue ledger contract.queue with
      | (.error error, ledger, left) =>
          (.error error, ledger, { contract with queue := left } :: rest)
      | (.ok ids, ledger, left) =>
          let (more, ledger, others) := dispatchQueues ledger rest
          (more.map (ids ++ ·), ledger, { contract with queue := left } :: others)

-- The recipients and amounts of transactions.
def credits (transactions : List Transaction) : List (Word × Word) :=
  transactions.map fun tx => (tx.recipient, tx.amount)

-- Moves all queued payments to the ledger, and tells their ids. If some balance would overflow,
-- nothing is moved.
def dispatch : Change (List Word) := do
  let simulation ← get
  match simulation.ledger.checkCredits (credits (simulation.contracts.flatMap Contract.queue)) with
  | .error error => throw error
  | .ok () =>
      let (ids, ledger, contracts) := dispatchQueues simulation.ledger simulation.contracts
      set { simulation with ledger, contracts }
      ExceptT.mk (pure ids)

-- Applies transactions one after another, up to the first refusal.
def applyAll : List Transaction → Ledger.Change (List Word)
  | [] => pure []
  | tx :: rest => do
      let id ← Ledger.apply tx
      let ids ← applyAll rest
      return id :: ids

-- Applies the transactions from outside that belong to the current height, and tells their ids.
-- If some balance would overflow, none is applied.
def applyExternal (transactions : List Transaction) : Change (List Word) := do
  let simulation ← get
  let due := transactions.filter (·.blockheight == simulation.ledger.height)
  match simulation.ledger.checkCredits (credits due) with
  | .error error => throw error
  | .ok () =>
      let (ids, ledger) := (applyAll due).run simulation.ledger
      set { simulation with ledger }
      ExceptT.mk (pure ids)

-- Decides whether a resting contract wakes up. A sleeper wakes at its block; any other contract
-- wakes for free or uses up a transaction that brings its activation amount.
def wakes (ledger : Ledger) (contract : Contract) : Bool × Ledger :=
  match contract.sleepUntil with
  | some untilBlock => (untilBlock ≤ ledger.height, ledger)
  | none =>
      if contract.activationAmount = 0 then (true, ledger)
      else
        let (found, ledger) := ledger.consumeActivation contract.id contract.activationAmount
        (found.isSome, ledger)

-- Wakes contracts of a list one after another, and tells which.
def activateContracts : Ledger → List Contract → List Word × Ledger × List Contract
  | ledger, [] => ([], ledger, [])
  | ledger, contract :: rest =>
      if contract.dead || contract.running then
        let (woken, ledger, others) := activateContracts ledger rest
        (woken, ledger, contract :: others)
      else
        match wakes ledger contract with
        | (true, ledger) =>
            let (woken, ledger, others) := activateContracts ledger rest
            (contract.id :: woken, ledger, contract.reactivate :: others)
        | (false, ledger) =>
            let (woken, ledger, others) := activateContracts ledger rest
            (woken, ledger, contract :: others)

-- Wakes every contract that is due.
def activate (simulation : Simulation) : List Word × Simulation :=
  let (woken, ledger, contracts) := activateContracts simulation.ledger simulation.contracts
  (woken, { simulation with ledger, contracts })

def advanceHeight (simulation : Simulation) : Simulation :=
  { simulation with ledger := simulation.ledger.advance }

-- Runs the contracts, moves their payments, applies transactions from outside, goes to the next
-- height and wakes contracts.
def forgeSteps (external : List Transaction) (table : BreakpointTable) : Change ForgeReport := do
  let height := (← get).ledger.height
  let executed ← modifyGet (·.runAll table)
  let dispatched ← dispatch
  let applied ← applyExternal external
  modify advanceHeight
  let activated ← modifyGet activate
  return { height, executed, dispatched, applied, activated }

-- Forges a block. If a step is refused the simulation stays as it was.
def forge (simulation : Simulation) (external : List Transaction) (table : BreakpointTable) :
    Except LedgerError ForgeReport × Simulation :=
  match (forgeSteps external table).run simulation with
  | (.ok report, next) => (.ok report, next)
  | (.error error, _) => (.error error, simulation)

end Simulation

end ContractSim
