import ContractSim.Ledger.Account
import ContractSim.Register

namespace ContractSim

-- What a transaction mainly carries.
inductive TransactionKind where
  | payment
  | message
  | assetTransfer
deriving DecidableEq, Repr

namespace TransactionKind

-- The number that contracts see.
def code : TransactionKind → Word
  | .payment => 0
  | .message => 1
  | .assetTransfer => 2

-- Tokens make an asset transfer, words without tokens a message.
def classify (tokens : List Holding) (message : List Word) : TransactionKind :=
  if !tokens.isEmpty then .assetTransfer
  else if !message.isEmpty then .message
  else .payment

end TransactionKind

-- A payment with optional tokens and message words. Id and timestamp are zero until the ledger
-- records the transaction; `processed` is set once it has woken its recipient.
structure Transaction where
  id : Word := 0
  sender : Word
  recipient : Word
  amount : Word
  tokens : List Holding
  message : List Word
  blockheight : Word
  timestamp : Word := 0
  processed : Bool := false
  kind : TransactionKind := TransactionKind.classify tokens message
deriving DecidableEq, Repr

namespace Transaction

-- Four message words, page by page; past the end they are zero.
def messagePage (tx : Transaction) (page : Word) : Register :=
  Quad.ofList 0 (tx.message.drop (4 * page.toNat))

-- The units of an asset over all tokens, at most the largest word.
def tokenQuantity (tx : Transaction) (asset : Word) : Word :=
  Word.saturatingSum ((tx.tokens.filter (·.asset == asset)).map Holding.quantity)

-- The transaction with the kind that its tokens and message give it.
def classified (tx : Transaction) : Transaction :=
  { tx with kind := TransactionKind.classify tx.tokens tx.message }

-- The transaction with the least timestamp, the first of several.
def earliest : List Transaction → Option Transaction
  | [] => none
  | tx :: rest =>
      match earliest rest with
      | none => some tx
      | some other => if tx.timestamp ≤ other.timestamp then some tx else some other

end Transaction

end ContractSim
