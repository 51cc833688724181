import ContractSim.IdStream
import ContractSim.Ledger.Transaction

namespace ContractSim

-- An asset that a contract has issued.
structure Asset where
  id : Word
  issuer : Word
  name1 : Word
  name2 : Word
  decimals : Word
deriving DecidableEq, Repr

-- One value in the key-value store of a contract.
structure MapEntry where
  contract : Word
  key1 : Word
  key2 : Word
  value : Word
deriving DecidableEq, Repr

-- What the ledger tells about a deployed contract.
structure ContractRecord where
  id : Word
  activationAmount : Word
  codeHash : Word
deriving DecidableEq, Repr

-- The shared state of all contracts. Every list is in order of insertion.
structure Ledger where
  height : Word
  sequence : Word
  accounts : List Account
  transactions : List Transaction
  assets : List Asset
  maps : List MapEntry
  records : List ContractRecord
  ids : IdStream
deriving DecidableEq, Repr

-- Why a ledger operation is refused.
inductive LedgerError where
  | insufficientBalance (account requested available : Word)
  | balanceOverflow (account : Word)
  | assetNotFound (asset : Word)
deriving DecidableEq, Repr

def LedgerError.message : LedgerError → String
  | .insufficientBalance account requested available =>
      s!"Insufficient balance in account {account}: requested {requested}, available {available}"
  | .balanceOverflow account => s!"Balance overflow in account {account}"
  | .assetNotFound asset => s!"Asset {asset} not found"

namespace Ledger

-- A change of the ledger that may be refused. What was changed before a refusal stays changed.
abbrev Change (α : Type) := ExceptT LedgerError (StateM Ledger) α

-- The empty ledger at a height, with the ids of a seed.
def start (height seed : Word) : Ledger :=
  { height, sequence := 1, accounts := [], transactions := [], assets := [], maps := [],
    records := [], ids := IdStream.ofSeed seed }

-- Moves to the next block, where the sequence starts again.
def advance (ledger : Ledger) : Ledger := { ledger with height := ledger.height + 1, sequence := 1 }

-- Height in the upper half, place in the block in the lower half.
def timestamp (ledger : Ledger) : Word :=
  (ledger.height <<< 32) ||| (ledger.sequence &&& 0xffffffff)

-- The timestamp of the next transaction of the block.
def nextTimestamp (ledger : Ledger) : Word × Ledger :=
  (ledger.timestamp, { ledger with sequence := ledger.sequence + 1 })

-- Ids in use by accounts, transactions or assets.
def isUsed (ledger : Ledger) (id : Word) : Bool :=
  ledger.accounts.any (·.id == id) || ledger.transactions.any (·.id == id) ||
    ledger.assets.any (·.id == id)

-- Ids that can be given out: not in use, and neither zero nor the largest word.
def isFree (ledger : Ledger) (id : Word) : Bool :=
  id != 0 && id != Word.top && !ledger.isUsed id

-- Draws the next free id.
def freshId (ledger : Ledger) : Word × Ledger :=
  let (id, ids) := ledger.ids.draw ledger.isFree
  (id, { ledger with ids })

def account? (ledger : Ledger) (id : Word) : Option Account := ledger.accounts.find? (·.id == id)

def hasAccount (ledger : Ledger) (id : Word) : Bool := (ledger.account? id).isSome

-- The balance of an account; an unknown account has none.
def balance (ledger : Ledger) (id : Word) : Word :=
  ((ledger.account? id).map Account.balance).getD 0

-- Makes sure that an account exists.
def touch (ledger : Ledger) (id : Word) : Ledger :=
  if ledger.hasAccount id then ledger
  else { ledger with accounts := ledger.accounts ++ [Account.empty id] }

-- Changes an existing account.
def updateAccount (ledger : Ledger) (id : Word) (change : Account → Account) : Ledger :=
  { ledger with accounts := updateFirst (·.id == id) change ledger.accounts }

-- The units of an asset in an account; an unknown account holds none.
def assetQuantity (ledger : Ledger) (id asset : Word) : Word :=
  ((ledger.account? id).map (·.assetQuantity asset)).getD 0

-- Adds units of an asset to an account.
def creditAsset (ledger : Ledger) (id asset quantity : Word) : Ledger :=
  (ledger.touch id).updateAccount id (·.creditAsset asset quantity)

-- Takes units of an asset from an account, as many as there are up to a quantity, and tells how
-- many.
def debitAsset (ledger : Ledger) (id asset quantity : Word) : Word × Ledger :=
  (min quantity (ledger.assetQuantity id asset),
    (ledger.touch id).updateAccount id (·.debitAsset asset quantity))

def isAt (contract key1 key2 : Word) (entry : MapEntry) : Bool :=
  entry.contract == contract && entry.key1 == key1 && entry.key2 == key2

-- The value under two keys of a contract; zero when there is none.
def mapValue (ledger : Ledger) (contract key1 key2 : Word) : Word :=
  ((ledger.maps.find? (isAt contract key1 key2)).map (·.value)).getD 0

def setMapValue (ledger : Ledger) (contract key1 key2 value : Word) : Ledger :=
  if ledger.maps.any (isAt contract key1 key2) then
    { ledger with
      maps := updateFirst (isAt contract key1 key2) ({ · with value }) ledger.maps }
  else { ledger with maps := ledger.maps ++ [⟨contract, key1, key2, value⟩] }

-- Registers a contract; an older record of the same id goes away.
def register (ledger : Ledger) (record : ContractRecord) : Ledger :=
  { ledger with records := ledger.records.filter (·.id != record.id) ++ [record] }

def contractRecord? (ledger : Ledger) (id : Word) : Option ContractRecord :=
  ledger.records.find? (·.id == id)

def isContract (ledger : Ledger) (id : Word) : Bool := (ledger.contractRecord? id).isSome

end Ledger

end ContractSim
