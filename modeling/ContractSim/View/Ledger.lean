import ContractSim.Json.Basic
import ContractSim.Ledger.Basic

namespace ContractSim

def Holding.view (holding : Holding) : Json :=
  .object [("asset", .word holding.asset), ("quantity", .word holding.quantity)]

def Account.view (account : Account) : Json :=
  .object
    [("id", .word account.id), ("balance", .word account.balance),
      ("assets", .list (account.assets.map Holding.view))]

def TransactionKind.view : TransactionKind → Json
  | .payment => .string "Payment"
  | .message => .string "Message"
  | .assetTransfer => .string "AssetTransfer"

def Transaction.view (tx : Transaction) : Json :=
  .object
    [("id", .word tx.id), ("sender", .word tx.sender), ("recipient", .word tx.recipient),
      ("amount", .word tx.amount), ("tokens", .list (tx.tokens.map Holding.view)),
      ("message", .words tx.message), ("blockheight", .word tx.blockheight),
      ("timestamp", .word tx.timestamp), ("processed", .bool tx.processed),
      ("txType", tx.kind.view)]

def Asset.view (asset : Asset) : Json :=
  .object
    [("id", .word asset.id), ("issuer", .word asset.issuer),
      ("name", .words [asset.name1, asset.name2]), ("decimals", .word asset.decimals)]

def MapEntry.view (entry : MapEntry) : Json :=
  .object
    [("contract", .word entry.contract), ("key1", .word entry.key1), ("key2", .word entry.key2),
      ("value", .word entry.value)]

def ContractRecord.view (record : ContractRecord) : Json :=
  .object
    [("id", .word record.id), ("activationAmount", .word record.activationAmount),
      ("codeHash", .word record.codeHash)]

-- What can be seen of a ledger from outside.
def Ledger.view (ledger : Ledger) : Json :=
  .object
    [("currentBlock", .word ledger.height), ("accounts", .list (ledger.accounts.map Account.view)),
      ("transactions", .list (ledger.transactions.map Transaction.view)),
      ("assets", .list (ledger.assets.map Asset.view)),
      ("maps", .list (ledger.maps.map MapEntry.view))]

end ContractSim
