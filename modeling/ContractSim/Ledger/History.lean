import ContractSim.Ledger.Balance

namespace ContractSim.Ledger

def transaction? (ledger : Ledger) (id : Word) : Option Transaction :=
  ledger.transactions.find? (·.id == id)

-- The transactions to an account, in order.
def transactionsTo (ledger : Ledger) (recipient : Word) : List Transaction :=
  ledger.transactions.filter (·.recipient == recipient)

-- Records a transaction in the current block under a fresh id and timestamp.
def record (ledger : Ledger) (tx : Transaction) : Word × Ledger :=
  let (id, ledger) := ledger.freshId
  let (timestamp, ledger) := ledger.nextTimestamp
  let recorded := { tx with id, timestamp, blockheight := ledger.height }
  (id, { ledger with transactions := ledger.transactions ++ [recorded] })

-- Credits tokens one after another.
def creditTokens (ledger : Ledger) (id : Word) (tokens : List Holding) : Ledger :=
  tokens.foldl (fun ledger token => ledger.creditAsset id token.asset token.quantity) ledger

-- Credits the recipient with amount and tokens, then records the transaction and tells its id.
def apply (tx : Transaction) : Change Word := do
  credit tx.recipient tx.amount
  modify (·.creditTokens tx.recipient tx.tokens)
  modifyGet (·.record tx)

-- The earliest transaction to an account after a timestamp that carries at least an amount.
def transactionAfter (ledger : Ledger) (recipient timestamp least : Word) : Option Transaction :=
  Transaction.earliest ((ledger.transactionsTo recipient).filter fun tx =>
    timestamp < tx.timestamp && least ≤ tx.amount)

-- Transactions that can still wake an account.
def awakens (recipient least : Word) (tx : Transaction) : Bool :=
  tx.recipient == recipient && !tx.processed && least ≤ tx.amount

-- Marks the earliest transaction that can wake an account as processed, and tells its id.
def consumeActivation (ledger : Ledger) (recipient least : Word) : Option Word × Ledger :=
  match Transaction.earliest (ledger.transactions.filter (awakens recipient least)) with
  | none => (none, ledger)
  | some found =>
      (some found.id,
        { ledger with
          transactions := updateFirst
            (fun tx => awakens recipient least tx && tx.timestamp == found.timestamp)
            ({ · with processed := true }) ledger.transactions })

end ContractSim.Ledger
