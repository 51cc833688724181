import ContractSim.Contract.Basic
import ContractSim.Ledger.Basic

namespace ContractSim

-- A running contract and the ledger that it works on.
structure Machine where
  contract : Contract
  ledger : Ledger
deriving DecidableEq, Repr

namespace Machine

-- A part of an instruction, which may raise a fault. What was changed before stays changed.
abbrev Action (α : Type) := ExceptT Fault (StateM Machine) α

-- The balance of the contract.
def balance (machine : Machine) : Word := machine.ledger.balance machine.contract.id

def modifyContract (change : Contract → Contract) : Action Unit :=
  modify fun machine => { machine with contract := change machine.contract }

def modifyLedger (change : Ledger → Ledger) : Action Unit :=
  modify fun machine => { machine with ledger := change machine.ledger }

-- Changes the ledger and takes an answer from it.
def askLedger {α : Type} (change : Ledger → α × Ledger) : Action α :=
  modifyGet fun machine =>
    let (answer, ledger) := change machine.ledger
    (answer, { machine with ledger })

-- Changes the ledger in a way that may be refused; a refusal is a fault.
def changeLedger {α : Type} (change : Ledger.Change α) : Action α := do
  match ← askLedger change.run with
  | .ok answer => pure answer
  | .error error => throw (.ledger error)

end Machine

end ContractSim
