import ContractSim.Contract.Queue
import ContractSim.Ledger.Assets
import ContractSim.Ledger.History
import ContractSim.Machine.Basic
import ContractSim.Protocol

namespace ContractSim

-- The part of an amount for each quantity but the last, rounded down, out of a total.
def partialShares (amount : Word) (total : Nat) : List Word → List Word
  | [] => []
  | [_] => []
  | quantity :: rest =>
      UInt64.ofNat (amount.toNat * quantity.toNat / total) :: partialShares amount total rest

-- Splits an amount in proportion to quantities. Shares are rounded down; the last one takes what
-- is left. Quantities that are all zero get nothing.
def proRataShares (amount : Word) (quantities : List Word) : List Word :=
  let total := Word.total quantities
  if total = 0 then quantities.map fun _ => 0
  else
    let shares := partialShares amount total quantities
    shares ++ [amount - UInt64.ofNat (Word.total shares)]

-- The answer of a built-in function: a value, or the block at which to ask again.
inductive Answer where
  | value (value : Word)
  | sleep (untilBlock : Word)
deriving DecidableEq, Repr

-- The answer of a function that is called for its effect.
def Answer.done : Answer := .value 0

def Answer.flag (flag : Bool) : Answer := .value (Word.ofFlag flag)

namespace RegisterName

def other : RegisterName → RegisterName
  | .a => .b
  | .b => .a

end RegisterName

def BitOp.eval : BitOp → Word → Word → Word
  | .or, left, right => left ||| right
  | .and, left, right => left &&& right
  | .xor, left, right => left ^^^ right

-- The result of an operation on a target register and the other one. A quotient has the other
-- register as dividend; with a zero divisor the target stays as it is.
def WideOp.eval : WideOp → Register → Register → Register
  | .add, target, other => target.add other
  | .sub, target, other => target.sub other
  | .mul, target, other => target.mul other
  | .div, target, other => if target.value = 0 then target else other.div target

namespace HashAlgorithm

-- The words of a register that are hashed.
def input (algorithm : HashAlgorithm) (register : Register) : List Word :=
  match algorithm with
  | .md5 => register.toList.take 2
  | .ripemd160 | .sha256 => register.toList

-- The register with its first words replaced by a digest.
def store (algorithm : HashAlgorithm) (digest : Register) (register : Register) : Register :=
  match algorithm with
  | .md5 => ⟨digest.w1, digest.w2, register.w3, register.w4⟩
  | .ripemd160 => ⟨digest.w1, digest.w2, digest.w3, register.w4⟩
  | .sha256 => digest

-- A register holds a digest when its first words do; of a third word of RIPEMD-160 only the low
-- half counts.
def isStored (algorithm : HashAlgorithm) (digest : Register) (register : Register) : Bool :=
  match algorithm with
  | .md5 => digest.w1 == register.w1 && digest.w2 == register.w2
  | .ripemd160 =>
      digest.w1 == register.w1 && digest.w2 == register.w2 &&
        digest.w3 &&& 0xffffffff == register.w3 &&& 0xffffffff
  | .sha256 => digest == register

end HashAlgorithm

-- The hash of the block below a height.
def lastBlockHash (height : Word) : Register :=
  HashAlgorithm.sha256.digestRegister [Word.saturatingSub height 1, 0, 0, 0]

-- The timestamp of the start of a block.
def blockStart (height : Word) : Word := height <<< 32

-- The ticket of a transaction for a contract.
def ticket (tx : Transaction) (contract : Word) : Word :=
  sha256Word (Word.listBytes [tx.id, tx.blockheight, contract])

namespace Machine

-- The transaction that the first word of A names, when it went to the contract.
def incoming? (machine : Machine) : Option Transaction :=
  (machine.ledger.transaction? machine.contract.a.w1).filter
    (·.recipient == machine.contract.id)

-- What a function finds out about the transaction in A; without one it answers with the largest
-- word.
def askTransaction (question : Transaction → Word) : Action Answer := do
  return .value (((← get).incoming?.map question).getD Word.top)

def setRegister (register : RegisterName) (value : Register) : Action Answer := do
  modifyContract (·.setRegister value register)
  return .done

-- Takes a payment from the balance and queues it. A payment of nothing is passed over.
def send (recipient amount : Word) (token : Option Holding) (page : Option Register) :
    Action Answer := do
  if amount = 0 ∧ token.all (·.quantity == 0) ∧ page.isNone then return .done
  changeLedger (Ledger.debit (← get).contract.id amount)
  let height := (← get).ledger.height
  modifyContract (·.enqueue recipient amount token page height)
  return .done

-- The ticket of the transaction in A, once the transaction is old enough.
def readTicket (protocol : Protocol) : Action Answer := do
  let machine ← get
  match machine.incoming? with
  | none => return .value Word.top
  | some tx =>
      let maturity := Word.saturatingAdd tx.blockheight protocol.randomSleepBlocks
      if machine.ledger.height < maturity then return .sleep maturity
      else return .value (ticket tx machine.contract.id)

-- Sends to the address in B: an amount, or tokens along with the amount in the third word.
def sendToAddress (quantity : Word) : Action Answer := do
  let machine ← get
  let target := machine.contract.b
  if target.w2 = 0 then send target.w1 (min quantity machine.balance) none none
  else
    let amount := min target.w3 machine.balance
    let taken ← askLedger (·.debitAsset machine.contract.id target.w2 quantity)
    send target.w1 amount (some ⟨target.w2, taken⟩) none

-- Queues the shares of the holders. A holder whose shares are zero gets no payment.
def queueShares (contract : Contract) (asset height : Word) :
    List ((Word × Word) × Word × Word) → Contract
  | [] => contract
  | ((holder, _), amount, units) :: rest =>
      if amount = 0 ∧ units = 0 then queueShares contract asset height rest
      else
        let token := if 0 < units then some ⟨asset, units⟩ else none
        queueShares (contract.enqueue holder amount token none height) asset height rest

-- Splits an amount and units of an asset among the holders of an asset.
def distribute : Action Answer := do
  let machine ← get
  let contract := machine.contract
  let holders := machine.ledger.assetHolders contract.b.w2 contract.b.w1 contract.id
  if holders.isEmpty then return .done
  let amount := min contract.a.w1 machine.balance
  let units ←
    if contract.a.w3 = 0 then pure 0
    else askLedger (·.debitAsset contract.id contract.a.w3 contract.a.w4)
  changeLedger (Ledger.debit contract.id amount)
  let quantities := holders.map Prod.snd
  let shares := (proRataShares amount quantities).zip (proRataShares units quantities)
  modifyContract (queueShares · contract.a.w3 machine.ledger.height (holders.zip shares))
  return .done

-- Runs a built-in function with up to two arguments.
def call (protocol : Protocol) (function : ApiFunction) (first second : Word) : Action Answer := do
  let machine ← get
  let contract := machine.contract
  let ledger := machine.ledger
  match function with
  | .getLane register lane => return .value ((contract.register register).get lane)
  | .setLane register lane =>
      setRegister register ((contract.register register).set first lane)
  | .setLowLanes register =>
      setRegister register { contract.register register with w1 := first, w2 := second }
  | .setHighLanes register =>
      setRegister register { contract.register register with w3 := first, w4 := second }
  | .clear register => setRegister register Register.zero
  | .clearBoth =>
      modifyContract ({ · with a := Register.zero, b := Register.zero })
      return .done
  | .copyTo register => setRegister register (contract.register register.other)
  | .swap =>
      modifyContract ({ · with a := contract.b, b := contract.a })
      return .done
  | .isZero register => return .flag (contract.register register == Register.zero)
  | .areEqual => return .flag (contract.a == contract.b)
  | .bitwise op target => setRegister target (contract.a.zipWith op.eval contract.b)
  | .wide op target =>
      setRegister target (op.eval (contract.register target) (contract.register target.other))
  | .hash algorithm =>
      setRegister .b
        (algorithm.store (algorithm.digestRegister (algorithm.input contract.a)) contract.b)
  | .checkHash algorithm =>
      return .flag
        (algorithm.isStored (algorithm.digestRegister (algorithm.input contract.a)) contract.b)
  | .checkSignature => return .value 0
  | .blockTimestamp => return .value (blockStart ledger.height)
  | .creationTimestamp => return .value (blockStart contract.creationBlock)
  | .lastBlockTimestamp => return .value (blockStart (Word.saturatingSub ledger.height 1))
  | .lastBlockHash => setRegister .a (lastBlockHash ledger.height)
  | .lastBlockSignature =>
      setRegister .a (HashAlgorithm.sha256.digestRegister (lastBlockHash ledger.height).toList)
  | .nextTransaction =>
      let found := ledger.transactionAfter contract.id first contract.activationAmount
      setRegister .a (Register.ofWord ((found.map Transaction.id).getD 0))
  | .transactionKind => askTransaction fun tx => tx.kind.code
  | .transactionAmount =>
      askTransaction fun tx =>
        if contract.a.w4 = 0 then tx.amount else tx.tokenQuantity contract.a.w4
  | .transactionTimestamp => askTransaction Transaction.timestamp
  | .transactionTicket => readTicket protocol
  | .transactionMessage =>
      setRegister .b
        ((machine.incoming?.map (·.messagePage contract.a.w2)).getD Register.zero)
  | .transactionSender =>
      setRegister .b (Register.ofWord ((machine.incoming?.map Transaction.sender).getD 0))
  | .creator => setRegister .b (Register.ofWord contract.creator)
  | .transactionAssets =>
      let assets := (machine.incoming?.map fun tx => tx.tokens.map Holding.asset).getD []
      setRegister .b (Quad.ofList 0 assets)
  | .currentBalance => return .value machine.balance
  | .previousBalance => return .value contract.previousBalance
  | .send => sendToAddress first
  | .sendAll => send contract.b.w1 machine.balance none none
  | .sendPrevious =>
      send contract.b.w1 (min contract.previousBalance machine.balance) none none
  | .sendMessage => send contract.b.w1 0 none (some contract.a)
  | .addMinutes => return .value (first + blockStart (second / protocol.blockTimeMinutes))
  | .issueAsset =>
      let id ← askLedger (·.issueAsset contract.id contract.a.w1 contract.a.w2 contract.a.w3)
      modifyContract ({ · with issuedAssets := contract.issuedAssets ++ [id] })
      return .value id
  | .mintAsset =>
      let _ ← askLedger (Ledger.mintAsset contract.id contract.b.w2 contract.b.w1).run
      return .done
  | .distribute => distribute
  | .holderCount =>
      let holders := ledger.assetHolders contract.b.w2 contract.b.w1 contract.id
      return .value (UInt64.ofNat holders.length)
  | .circulating => return .value (ledger.assetCirculating contract.b.w2)
  | .activationFee =>
      if contract.b.w1 = 0 ∨ contract.b.w1 = contract.id then
        return .value contract.activationAmount
      else
        return .value
          (((ledger.contractRecord? contract.b.w1).map ContractRecord.activationAmount).getD 0)
  | .codeHash =>
      let target := if contract.b.w1 = 0 then contract.id else contract.b.w1
      return .value (((ledger.contractRecord? target).map ContractRecord.codeHash).getD 0)
  | .mapValue =>
      let owner := if contract.a.w3 = 0 then contract.id else contract.a.w3
      return .value (ledger.mapValue owner contract.a.w1 contract.a.w2)
  | .setMapValue =>
      modifyLedger (·.setMapValue contract.id contract.a.w1 contract.a.w2 contract.a.w4)
      return .done

end Machine

end ContractSim
