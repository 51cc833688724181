import ContractSim.Ledger.Basic

namespace ContractSim.Ledger

-- Adds to the balance of an account, which has to stay a word.
def credit (id amount : Word) : Change Unit := do
  modify (·.touch id)
  match Word.checkedAdd ((← get).balance id) amount with
  | some balance => modify (·.updateAccount id ({ · with balance }))
  | none => throw (.balanceOverflow id)

-- Takes from the balance of an account, which has to cover the amount.
def debit (id amount : Word) : Change Unit := do
  modify (·.touch id)
  let available := (← get).balance id
  if available < amount then throw (.insufficientBalance id amount available)
  else modify (·.updateAccount id ({ · with balance := available - amount }))

-- Checks credits one after another on top of running totals. An account without a total starts
-- from its balance.
def checkCreditsFrom (ledger : Ledger) :
    List (Word × Word) → List (Word × Word) → Except LedgerError Unit
  | _, [] => .ok ()
  | totals, (recipient, amount) :: rest =>
      match Word.checkedAdd ((totals.lookup recipient).getD (ledger.balance recipient)) amount with
      | some total => checkCreditsFrom ledger ((recipient, total) :: totals) rest
      | none => .error (.balanceOverflow recipient)

-- Checks that all of the given credits fit on top of the current balances.
def checkCredits (ledger : Ledger) (credits : List (Word × Word)) : Except LedgerError Unit :=
  checkCreditsFrom ledger [] credits

end ContractSim.Ledger
