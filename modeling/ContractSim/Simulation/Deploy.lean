import ContractSim.Contract.Load
import ContractSim.Message
import ContractSim.Simulation.Basic

namespace ContractSim.Simulation

-- Ids that a new contract cannot get.
def isTaken (ledger : Ledger) (id : Word) : Bool := ledger.hasAccount id || ledger.isContract id

-- The first id that is not taken, counting up from a preferred one and around the end.
def freeIdFrom (ledger : Ledger) : Nat → Word → Word
  | 0, id => id
  | bound + 1, id => if isTaken ledger id then freeIdFrom ledger bound (id + 1) else id

-- The id of a new contract. Every taken id belongs to an account or a record, so the search ends
-- within their number.
def freeId (ledger : Ledger) (preferred : Word) : Word :=
  freeIdFrom ledger (ledger.accounts.length + ledger.records.length + 1) preferred

-- Loads a contract, gives it a free id, funds its account and registers it.
def deploy (simulation : Simulation) (deployment : Deployment) :
    Except LoadError Word × Simulation :=
  match Contract.load deployment simulation.protocol simulation.ledger.height with
  | .error error => (.error error, simulation)
  | .ok contract =>
      let id := freeId simulation.ledger contract.id
      let funding := deployment.initialBalance.getD simulation.protocol.defaultDeployBalance
      match (Ledger.credit id funding).run simulation.ledger with
      | (.error error, ledger) => (.error (.ledger error), { simulation with ledger })
      | (.ok (), ledger) =>
          let codeHash := sha256Word (Message.utf8Bytes deployment.source)
          let ledger := ledger.register ⟨id, contract.activationAmount, codeHash⟩
          let deployed := { contract with id, previousBalance := ledger.balance id }
          (.ok id, { simulation with ledger, contracts := simulation.contracts ++ [deployed] })

end ContractSim.Simulation
