import ContractSim.Json.Parser
import ContractSim.Json.Printer
import ContractSim.Ledger.Transaction
import ContractSim.Message
import ContractSim.Scenario.Literal

namespace ContractSim

-- The numbers in an entry of a scenario.
inductive ScenarioField where
  | sender
  | recipient
  | amount
  | blockheight
  | tokenAsset
  | tokenQuantity
deriving DecidableEq, Repr

def ScenarioField.name : ScenarioField → String
  | .sender => "sender"
  | .recipient => "recipient"
  | .amount => "amount"
  | .blockheight => "blockheight"
  | .tokenAsset => "tokens.asset"
  | .tokenQuantity => "tokens.quantity"

-- Why a text is no scenario. Entries are numbered from zero.
inductive ScenarioError where
  -- The text is no JSON, or not of the form of a scenario.
  | malformed
  | invalidNumber (index : Nat) (field : ScenarioField) (value : String)
  | outOfRange (index : Nat) (field : ScenarioField) (value : String)
  | conflictingMessage (index : Nat)
  | invalidMessageHex (index : Nat) (error : Message.CodecError)
deriving DecidableEq, Repr

def ScenarioError.message : ScenarioError → String
  | .malformed => "Invalid scenario JSON"
  | .invalidNumber index field value =>
      s!"Transaction {index}: field `" ++ field.name ++ "` is not a valid number: " ++ value
  | .outOfRange index field value =>
      s!"Transaction {index}: field `" ++ field.name ++ "` does not fit in 64 bits: " ++ value
  | .conflictingMessage index =>
      s!"Transaction {index}: messageText and messageHex are mutually exclusive"
  | .invalidMessageHex index error =>
      s!"Transaction {index}: invalid messageHex: " ++ error.message

-- A transaction from outside that is due at a height.
structure ScenarioEntry where
  sender : Word
  recipient : Word
  amount : Word
  blockheight : Word
  tokens : List Holding
  message : List Word
deriving DecidableEq, Repr

def ScenarioEntry.transaction (entry : ScenarioEntry) : Transaction :=
  { sender := entry.sender, recipient := entry.recipient, amount := entry.amount,
    tokens := entry.tokens, message := entry.message, blockheight := entry.blockheight }

namespace Scenario

-- A token before its numbers have been read.
structure RawToken where
  asset : Json
  quantity : Json

-- An entry before its numbers have been read.
structure RawEntry where
  sender : Json
  recipient : Json
  amount : Json
  blockheight : Json
  tokens : List RawToken
  messageText : Option String
  messageHex : Option String

-- Lists and objects go no deeper than this.
def depthLimit : Nat := 127

-- A number in whatever form, inside a number of lists and objects.
def rawNumber? (outside : Nat) (value : Json) : Option Json :=
  if value.isReadable && outside + value.depth ≤ depthLimit then some value else none

-- The value of a known key, which may not be repeated.
def member? (key : String) (members : List (String × Json)) : Option (Option Json) :=
  match members.filter (·.1 == key) with
  | [] => some none
  | [(_, value)] => some (some value)
  | _ => none

-- The number under a known key, which has to be there.
def numberMember? (outside : Nat) (key : String) (members : List (String × Json)) : Option Json :=
  do rawNumber? outside (← ← member? key members)

-- A token is an object or a list of its two numbers.
def rawToken? : Json → Option RawToken
  | .object members => do
      let asset ← numberMember? 4 "asset" members
      let quantity ← numberMember? 4 "quantity" members
      return ⟨asset, quantity⟩
  | .list [asset, quantity] => do
      let asset ← rawNumber? 4 asset
      let quantity ← rawNumber? 4 quantity
      return ⟨asset, quantity⟩
  | _ => none

def rawTokens? : Json → Option (List RawToken)
  | .list tokens => tokens.mapM rawToken?
  | _ => none

-- A text or nothing.
def rawText? : Json → Option (Option String)
  | .null => some none
  | .string text => some (some text)
  | _ => none

-- The text under a known key. A missing text is none.
def textMember? (key : String) (members : List (String × Json)) : Option (Option String) := do
  match ← member? key members with
  | some value => rawText? value
  | none => some none

-- An entry is an object or a list of its seven parts. Unknown keys are passed over.
def rawEntry? : Json → Option RawEntry
  | .object members => do
      let sender ← numberMember? 2 "sender" members
      let recipient ← numberMember? 2 "recipient" members
      let amount ← numberMember? 2 "amount" members
      let blockheight ← numberMember? 2 "blockheight" members
      let tokens ← match ← member? "tokens" members with
        | some tokens => rawTokens? tokens
        | none => some []
      let messageText ← textMember? "messageText" members
      let messageHex ← textMember? "messageHex" members
      return { sender, recipient, amount, blockheight, tokens, messageText, messageHex }
  | .list [sender, recipient, amount, blockheight, tokens, messageText, messageHex] => do
      let sender ← rawNumber? 2 sender
      let recipient ← rawNumber? 2 recipient
      let amount ← rawNumber? 2 amount
      let blockheight ← rawNumber? 2 blockheight
      let tokens ← rawTokens? tokens
      let messageText ← rawText? messageText
      let messageHex ← rawText? messageHex
      return { sender, recipient, amount, blockheight, tokens, messageText, messageHex }
  | _ => none

-- The entries of a text.
def rawEntries? (text : String) : Option (List RawEntry) := do
  match ← Json.parse? text with
  | .list entries => entries.mapM rawEntry?
  | _ => none

-- Whole doubles past the largest word are out of range; so are no other values.
def exceedsWord : Json → Bool
  | .real value => Float.ofScientific 18446744073709551616 false 0 ≤ value
  | _ => false

-- Reads a number of an entry. Texts follow the rules of literals.
def number (index : Nat) (field : ScenarioField) : Json → Except ScenarioError Word
  | .integer (.ofNat value) => .ok (UInt64.ofNat value)
  | .string text =>
      match Literal.parse text with
      | .ok value => .ok value
      | .error .invalid => .error (.invalidNumber index field text)
      | .error .outOfRange => .error (.outOfRange index field text)
  | value =>
      if exceedsWord value then .error (.outOfRange index field value.sorted.compact)
      else .error (.invalidNumber index field value.sorted.compact)

def token (index : Nat) (raw : RawToken) : Except ScenarioError Holding := do
  let asset ← number index .tokenAsset raw.asset
  let quantity ← number index .tokenQuantity raw.quantity
  return ⟨asset, quantity⟩

-- The message of an entry: a text, words in hexadecimal digits, or none.
def message (index : Nat) (raw : RawEntry) : Except ScenarioError (List Word) :=
  match raw.messageText, raw.messageHex with
  | some _, some _ => .error (.conflictingMessage index)
  | some text, none => .ok (Message.ofText text)
  | none, some hex => (Message.ofHex hex).mapError (.invalidMessageHex index)
  | none, none => .ok []

-- Reads the parts of an entry. The first fault in this order wins.
def entry (index : Nat) (raw : RawEntry) : Except ScenarioError ScenarioEntry := do
  let tokens ← raw.tokens.mapM (token index)
  let message ← message index raw
  let sender ← number index .sender raw.sender
  let recipient ← number index .recipient raw.recipient
  let amount ← number index .amount raw.amount
  let blockheight ← number index .blockheight raw.blockheight
  return { sender, recipient, amount, blockheight, tokens, message }

-- Reads a scenario: all entries or the first fault.
def parse (text : String) : Except ScenarioError (List ScenarioEntry) :=
  match rawEntries? text with
  | none => .error .malformed
  | some entries => entries.zipIdx.mapM fun (raw, index) => entry index raw

end Scenario

end ContractSim
