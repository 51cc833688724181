import ContractSim.Contract.Basic
import ContractSim.Protocol

namespace ContractSim

-- A source and what is asked for it. What is left open follows the settings in the source, then
-- the protocol.
structure Deployment where
  source : String
  contractId : Option Word := none
  creatorId : Option Word := none
  activationAmount : Option Word := none
  dataPages : Option Word := none
  userStackPages : Option Word := none
  codeStackPages : Option Word := none
  initialBalance : Option Word := none
deriving DecidableEq, Repr

-- Page counts that a contract cannot have.
inductive PageError where
  | tooFewDataPages (cells needed given : Nat)
  | noStackPages
deriving DecidableEq, Repr

def PageError.message : PageError → String
  | .tooFewDataPages cells needed given =>
      s!"{cells} variables need {needed} data pages, got {given}"
  | .noStackPages => "stack page counts must be non-zero"

-- Why a contract cannot be deployed.
inductive LoadError where
  | malformedDirective (line : Nat) (text : String)
  | unknownDirective (line : Nat) (text : String)
  | undeclaredConstant (line : Nat) (name : String)
  | emptyProgram
  | invalidPages (error : PageError)
  | ledger (error : LedgerError)
deriving DecidableEq, Repr

def LoadError.message : LoadError → String
  | .malformedDirective line text => s!"Malformed directive at line {line}: " ++ text
  | .unknownDirective line text => s!"Unknown directive at line {line}: " ++ text
  | .undeclaredConstant line name =>
      "Constant assigned to undeclared variable '" ++ name ++ s!"' at line {line}"
  | .emptyProgram => "Program has no executable instruction"
  | .invalidPages error => "Invalid page configuration: " ++ error.message
  | .ledger error => "Ledger error: " ++ error.message

-- What the directives of a source say: names in order, constants, and settings.
structure Header where
  declared : List String := []
  constants : List (String × Word) := []
  contractId : Option Word := none
  creatorId : Option Word := none
  activationAmount : Option Word := none
  dataPages : Option Word := none
  userStackPages : Option Word := none
  codeStackPages : Option Word := none
deriving DecidableEq, Repr

namespace Header

-- Adds a name unless it is there.
def addName (names : List String) (name : String) : List String :=
  if name ∈ names then names else names ++ [name]

-- The settings that have a meaning.
inductive Setting where
  | contractId
  | creatorId
  | activationAmount
  | dataPages
  | userStackPages
  | codeStackPages
deriving DecidableEq, Repr

def Setting.ofKey? : String → Option Setting
  | "contract" => some .contractId
  | "creator" => some .creatorId
  | "activationAmount" => some .activationAmount
  | "dataPages" => some .dataPages
  | "userStackPages" => some .userStackPages
  | "codeStackPages" => some .codeStackPages
  | _ => none

-- A decimal number, in which underscores mean nothing.
def number? (text : String) : Option Word :=
  match Text.readNumeral 10 Word.modulus (text.toList.filter (· != '_')) with
  | .ok value => some (UInt64.ofNat value)
  | .error _ => none

def set (header : Header) (value : Word) : Setting → Header
  | .contractId => { header with contractId := some value }
  | .creatorId => { header with creatorId := some value }
  | .activationAmount => { header with activationAmount := some value }
  | .dataPages => { header with dataPages := some value }
  | .userStackPages => { header with userStackPages := some value }
  | .codeStackPages => { header with codeStackPages := some value }

-- Takes in one directive. Settings without a meaning are passed over.
def addDirective (header : Header) (line : Nat) (text : String) :
    Directive → Except LoadError Header
  | .comment => .ok header
  | .declare name => .ok { header with declared := addName header.declared name }
  | .const target value =>
      if target ∈ header.declared then
        .ok { header with constants := header.constants ++ [(target, value)] }
      else .error (.undeclaredConstant line target)
  | .setting key value =>
      match Setting.ofKey? key with
      | none => .ok header
      | some setting =>
          match number? value with
          | some number => .ok (header.set number setting)
          | none => .error (.malformedDirective line text)
  | .malformed => .error (.malformedDirective line text)
  | .unknown => .error (.unknownDirective line text)

-- Takes in one line of the source.
def addLine (header : Header) (numbered : SourceLine × Nat) : Except LoadError Header :=
  match numbered.1.content with
  | .directive directive =>
      header.addDirective numbered.2 (Text.trimmed numbered.1.text) directive
  | .blank | .label _ | .code _ | .invalid => .ok header

-- Reads the directives of a program from top to bottom. The first fault wins.
def ofProgram (program : Program) : Except LoadError Header :=
  program.lines.zipIdx.foldlM addLine {}

end Header

namespace Program

-- The names of cells that the code of a program uses, in order of use.
def cellNames (program : Program) : List String :=
  program.lines.flatMap fun line =>
    match line.content with
    | .code instruction => instruction.cellNames
    | .blank | .label _ | .directive _ | .invalid => []

end Program

namespace Contract

-- The pages that a number of cells needs, one at least.
def pagesFor (cells : Nat) : Nat := max ((cells + Memory.pageCells - 1) / Memory.pageCells) 1

-- The memory with a cell for each name, in order, and the constants stored.
def initialMemory (pages : Word) (names : List String) (constants : List (String × Word)) :
    Memory :=
  let memory := names.foldl (fun memory name => (memory.declare name).2) (Memory.empty pages.toNat)
  constants.foldl (fun memory (name, value) => memory.write name value) memory

-- Loads a contract at a height. Names that the code uses without a declaration get cells behind
-- the declared ones. The id is the preferred one.
def load (deployment : Deployment) (protocol : Protocol) (height : Word) :
    Except LoadError Contract := do
  let program := Program.parse deployment.source
  let header ← Header.ofProgram program
  let some first := program.firstExecutable? | throw .emptyProgram
  let names := program.cellNames.foldl Header.addName header.declared
  let needed := pagesFor names.length
  let dataPages := (deployment.dataPages <|> header.dataPages).getD (UInt64.ofNat needed)
  if dataPages.toNat < needed then
    throw (.invalidPages (.tooFewDataPages names.length needed dataPages.toNat))
  let userStackPages :=
    (deployment.userStackPages <|> header.userStackPages).getD protocol.userStackPages
  let codeStackPages :=
    (deployment.codeStackPages <|> header.codeStackPages).getD protocol.codeStackPages
  if userStackPages = 0 ∨ codeStackPages = 0 then
    throw (.invalidPages .noStackPages)
  return {
    id := (deployment.contractId <|> header.contractId).getD protocol.defaultContractId
    creator := (deployment.creatorId <|> header.creatorId).getD protocol.defaultCreatorId
    program
    memory := initialMemory dataPages names header.constants
    userStack := Stack.empty .user userStackPages.toNat
    codeStack := Stack.empty .code codeStackPages.toNat
    ip := first
    pcs := first
    activationAmount := (deployment.activationAmount <|> header.activationAmount).getD
      protocol.defaultActivationAmount
    creationBlock := height
    dataPages
    userStackPages
    codeStackPages }

end Contract

end ContractSim
