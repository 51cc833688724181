import ContractSim.Ledger.Basic

namespace ContractSim.Ledger

def asset? (ledger : Ledger) (id : Word) : Option Asset := ledger.assets.find? (·.id == id)

-- Issues a new asset under a fresh id.
def issueAsset (ledger : Ledger) (issuer name1 name2 decimals : Word) : Word × Ledger :=
  let (id, ledger) := ledger.freshId
  (id, { ledger with assets := ledger.assets ++ [⟨id, issuer, name1, name2, decimals⟩] })

-- Gives the issuer of an asset new units of it.
def mintAsset (issuer asset quantity : Word) : Change Unit := do
  match (← get).asset? asset with
  | some issued =>
      if issued.issuer = issuer then modify (·.creditAsset issuer asset quantity)
      else throw (.assetNotFound asset)
  | none => throw (.assetNotFound asset)

-- Holders are listed by quantity, and by id where quantities agree.
def holderBefore (left right : Word × Word) : Bool :=
  left.2 < right.2 || (left.2 == right.2 && left.1 ≤ right.1)

-- The accounts but one that hold at least a quantity, and at least one unit, of an asset.
def assetHolders (ledger : Ledger) (asset least exclude : Word) : List (Word × Word) :=
  let holders := (ledger.accounts.filter (·.id != exclude)).map fun account =>
    (account.id, account.assetQuantity asset)
  (holders.filter fun holder => 0 < holder.2 && least ≤ holder.2).mergeSort holderBefore

-- The units of an asset outside the account of its issuer, at most the largest word.
def assetCirculating (ledger : Ledger) (asset : Word) : Word :=
  let issuer := (ledger.asset? asset).map Asset.issuer
  Word.saturatingSum
    ((ledger.accounts.filter (some ·.id != issuer)).map (·.assetQuantity asset))

end ContractSim.Ledger
