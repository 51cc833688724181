import ContractSim.Contract.Basic

namespace ContractSim

namespace Transaction

-- Adds a token to a transaction; the units of one asset are counted together.
def addToken (tx : Transaction) (token : Holding) : Transaction :=
  if tx.tokens.any (·.asset == token.asset) then
    { tx with
      tokens := updateFirst (·.asset == token.asset)
        (fun held => { held with quantity := Word.saturatingAdd held.quantity token.quantity })
        tx.tokens }
  else { tx with tokens := tx.tokens ++ [token] }

-- Adds a further payment to a waiting one. The kind stays as it was until the payment leaves.
def merge (tx : Transaction) (amount : Word) (token : Option Holding) (page : Option Register) :
    Transaction :=
  let tx := { tx with amount := Word.saturatingAdd tx.amount amount }
  let tx := (token.map tx.addToken).getD tx
  { tx with message := tx.message ++ (page.map Quad.toList).getD [] }

end Transaction

namespace Contract

-- Queues a payment. A payment that waits for the same recipient takes it in; a token without
-- units is left out.
def enqueue (contract : Contract) (recipient amount : Word) (token : Option Holding)
    (page : Option Register) (blockheight : Word) : Contract :=
  let token := token.filter (0 < ·.quantity)
  if contract.queue.any (·.recipient == recipient) then
    { contract with
      queue := updateFirst (·.recipient == recipient) (·.merge amount token page) contract.queue }
  else
    let payment : Transaction :=
      { sender := contract.id, recipient, amount, tokens := token.toList,
        message := (page.map Quad.toList).getD [], blockheight }
    { contract with queue := contract.queue ++ [payment] }

end Contract

end ContractSim
