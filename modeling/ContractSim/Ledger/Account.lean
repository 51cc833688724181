import ContractSim.UpdateFirst
import ContractSim.Word

namespace ContractSim

-- An amount of one asset.
structure Holding where
  asset : Word
  quantity : Word
deriving DecidableEq, Repr

-- An account of the ledger: a balance and holdings in order of first receipt.
structure Account where
  id : Word
  balance : Word
  assets : List Holding
deriving DecidableEq, Repr

namespace Account

-- An account that holds nothing.
def empty (id : Word) : Account := ⟨id, 0, []⟩

-- The units of an asset that an account holds.
def assetQuantity (account : Account) (asset : Word) : Word :=
  ((account.assets.find? (·.asset == asset)).map Holding.quantity).getD 0

-- Adds units of an asset, at most up to the largest word; no units leave no holding behind.
def creditAsset (account : Account) (asset quantity : Word) : Account :=
  if quantity = 0 then account
  else if account.assets.any (·.asset == asset) then
    { account with
      assets := updateFirst (·.asset == asset)
        (fun holding => { holding with quantity := Word.saturatingAdd holding.quantity quantity })
        account.assets }
  else { account with assets := account.assets ++ [⟨asset, quantity⟩] }

-- The units that can be taken when a quantity is asked for.
def available (account : Account) (asset quantity : Word) : Word :=
  min quantity (account.assetQuantity asset)

-- Takes units of an asset, as many as there are up to a quantity.
def debitAsset (account : Account) (asset quantity : Word) : Account :=
  { account with
    assets := updateFirst (·.asset == asset)
      (fun holding => { holding with quantity := holding.quantity - min quantity holding.quantity })
      account.assets }

end Account

end ContractSim
