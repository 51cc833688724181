import ContractSim.Proofs.Assembly.Names
import ContractSim.Proofs.Assembly.Scan
import Mathlib.Data.Option.Basic

namespace ContractSim

namespace Deployment

open Header

variable (deployment : Deployment) (protocol : Protocol)

def program : Program := Program.parse deployment.source

-- The names that get cells: those declared, then those that the code uses, each one once.
def cellNames : List String :=
  (deployment.program.declaredNames ++ deployment.program.cellNames).eraseDups

-- The pages that the cells fill, one at least.
def neededPages : Nat := max 1 ((deployment.cellNames.length + 31) / 32)

-- What a deployment asks for itself.
def asked : Setting → Option Word
  | .contractId => deployment.contractId
  | .creatorId => deployment.creatorId
  | .activationAmount => deployment.activationAmount
  | .dataPages => deployment.dataPages
  | .userStackPages => deployment.userStackPages
  | .codeStackPages => deployment.codeStackPages

-- What a setting is where nobody asks for anything.
def preset : Setting → Word
  | .contractId => protocol.defaultContractId
  | .creatorId => protocol.defaultCreatorId
  | .activationAmount => protocol.defaultActivationAmount
  | .dataPages => UInt64.ofNat deployment.neededPages
  | .userStackPages => protocol.userStackPages
  | .codeStackPages => protocol.codeStackPages

-- The deployment comes before the source.
def given? (setting : Setting) : Option Word :=
  deployment.asked setting <|> deployment.program.setting? setting

def value (setting : Setting) : Word :=
  (deployment.given? setting).getD (deployment.preset protocol setting)

-- The source has no line to execute.
def emptyFault? : Option LoadError :=
  if deployment.program.lines.any SourceLine.isExecutable then none else some .emptyProgram

-- Fewer data pages are given than the cells need.
def dataFault? : Option LoadError :=
  ((deployment.given? .dataPages).filter (·.toNat < deployment.neededPages)).map fun pages =>
    .invalidPages (.tooFewDataPages deployment.cellNames.length deployment.neededPages pages.toNat)

-- A stack has no pages.
def stackFault? : Option LoadError :=
  if deployment.value protocol .userStackPages = 0 ∨
      deployment.value protocol .codeStackPages = 0 then
    some (.invalidPages .noStackPages)
  else none

-- Why a deployment is refused, if it is. The first reason counts.
def refusal? : Option LoadError :=
  deployment.program.firstFault? <|> deployment.emptyFault? <|> deployment.dataFault? <|>
    deployment.stackFault? protocol

section

variable {deployment}

theorem foldl_addName_declared :
    deployment.program.cellNames.foldl addName deployment.program.header.declared =
      deployment.cellNames :=
  foldl_addName_eraseDups _ _

theorem length_cellNames_le : deployment.cellNames.length ≤ deployment.source.length := by
  have hnames : deployment.program.names = deployment.cellNames := foldl_addName_eraseDups [] _
  rw [← hnames]
  exact Program.length_names_parse_le deployment.source

theorem emptyFault?_eq :
    deployment.emptyFault? =
      if deployment.program.firstExecutable?.isSome then none else some .emptyProgram := by
  rw [emptyFault?, Program.firstExecutable?, Program.nextExecutable?, Option.isSome_map,
    List.findIdx?_isSome, List.drop_zero]

theorem toNat_neededPages (hsource : deployment.source.length < Word.modulus) :
    (UInt64.ofNat deployment.neededPages).toNat = deployment.neededPages := by
  have hnames := deployment.length_cellNames_le
  refine Word.toNat_ofNat ?_
  unfold neededPages Word.modulus at *
  omega

-- The pages that are needed are a word, so pages that nobody gives are enough.
theorem dataFault?_eq (hsource : deployment.source.length < Word.modulus) (protocol : Protocol) :
    deployment.dataFault? =
      if (deployment.value protocol .dataPages).toNat < deployment.neededPages then
        some (.invalidPages (.tooFewDataPages deployment.cellNames.length deployment.neededPages
          (deployment.value protocol .dataPages).toNat))
      else none := by
  rw [dataFault?, value]
  cases deployment.given? .dataPages with
  | none =>
      have hneeded := toNat_neededPages hsource
      rw [Option.getD_none, preset, hneeded, if_neg (Nat.lt_irrefl _)]
      rfl
  | some pages =>
      rw [Option.getD_some, Option.filter_some]
      simp only [decide_eq_true_eq]
      split_ifs
      · rfl
      · rfl

end

end Deployment

namespace Contract

open Header

-- A setting of a contract.
def setting (contract : Contract) : Setting → Word
  | .contractId => contract.id
  | .creatorId => contract.creator
  | .activationAmount => contract.activationAmount
  | .dataPages => contract.dataPages
  | .userStackPages => contract.userStackPages
  | .codeStackPages => contract.codeStackPages

-- What is loaded for a deployment at a height.
structure Loaded (deployment : Deployment) (protocol : Protocol) (height : Word)
    (contract : Contract) : Prop where
  -- A cell for each name, with the last constant for it or zero.
  cells : contract.memory.cells = deployment.cellNames.map fun name =>
    ⟨some name, lastValue deployment.program.constants name⟩
  index : contract.memory.index = deployment.cellNames.zipIdx
  limit : contract.memory.limit = min (32 * contract.dataPages.toNat) (Word.modulus - 1)
  room : deployment.cellNames.length ≤ 32 * contract.dataPages.toNat
  -- The contract stands on the first executable line, and comes back there.
  executable : Source.Executable deployment.source contract.ip
  first : ∀ earlier < contract.ip, ¬Source.Executable deployment.source earlier
  pcs : contract.pcs = contract.ip
  settings : ∀ setting, contract.setting setting = deployment.value protocol setting
  pages : deployment.given? .dataPages = none →
    contract.dataPages.toNat = deployment.neededPages
  -- Nothing has happened to it yet.
  fresh : contract =
    { id := contract.id, creator := contract.creator, program := deployment.program
      memory := contract.memory
      userStack := Stack.empty .user contract.userStackPages.toNat
      codeStack := Stack.empty .code contract.codeStackPages.toNat
      ip := contract.ip, pcs := contract.pcs, activationAmount := contract.activationAmount
      creationBlock := height, dataPages := contract.dataPages
      userStackPages := contract.userStackPages, codeStackPages := contract.codeStackPages }

variable {deployment : Deployment} {protocol : Protocol} {height : Word}

-- The contract that a deployment leads to, if nothing is wrong with it.
def ofDeployment (deployment : Deployment) (protocol : Protocol) (height : Word) (first : Nat) :
    Contract where
  id := deployment.value protocol .contractId
  creator := deployment.value protocol .creatorId
  program := deployment.program
  memory := initialMemory (deployment.value protocol .dataPages) deployment.cellNames
    deployment.program.constants
  userStack := Stack.empty .user (deployment.value protocol .userStackPages).toNat
  codeStack := Stack.empty .code (deployment.value protocol .codeStackPages).toNat
  ip := first
  pcs := first
  activationAmount := deployment.value protocol .activationAmount
  creationBlock := height
  dataPages := deployment.value protocol .dataPages
  userStackPages := deployment.value protocol .userStackPages
  codeStackPages := deployment.value protocol .codeStackPages

-- Without a fault in its lines, a source is loaded unless pages are missing.
theorem load_of_firstFault?_eq_none (hfault : deployment.program.firstFault? = none) {first : Nat}
    (hfirst : deployment.program.firstExecutable? = some first) :
    load deployment protocol height =
      if (deployment.value protocol .dataPages).toNat < deployment.neededPages then
        .error (.invalidPages (.tooFewDataPages deployment.cellNames.length
          deployment.neededPages (deployment.value protocol .dataPages).toNat))
      else if deployment.value protocol .userStackPages = 0 ∨
          deployment.value protocol .codeStackPages = 0 then
        .error (.invalidPages .noStackPages)
      else .ok (ofDeployment deployment protocol height first) := by
  have hsound : (Program.parse deployment.source).firstFault? = none := hfault
  have hheader : ofProgram (Program.parse deployment.source) = .ok deployment.program.header := by
    rw [Program.ofProgram_eq, hsound]
    rfl
  have hsome : (Program.parse deployment.source).firstExecutable? = some first := hfirst
  have hnames : (Program.parse deployment.source).cellNames.foldl addName
      deployment.program.header.declared = deployment.cellNames :=
    Deployment.foldl_addName_declared
  have hneeded : pagesFor deployment.cellNames.length = deployment.neededPages := Nat.max_comm _ _
  unfold load
  simp only [hheader, hsome]
  change (if _ then _ else _) = _
  rw [hnames, hneeded]
  change (if (deployment.value protocol .dataPages).toNat < deployment.neededPages then _
    else if deployment.value protocol .userStackPages = 0 ∨
      deployment.value protocol .codeStackPages = 0 then _ else _) = _
  split_ifs
  · rfl
  · rfl
  · rfl
  · rfl

-- A deployment is loaded unless there is a reason to refuse it.
theorem load_eq (hsource : deployment.source.length < Word.modulus) :
    load deployment protocol height =
      match deployment.refusal? protocol with
      | some error => .error error
      | none =>
          .ok (ofDeployment deployment protocol height
            (deployment.program.firstExecutable?.getD 0)) := by
  rw [Deployment.refusal?, Deployment.emptyFault?_eq, Deployment.dataFault?_eq hsource protocol,
    Deployment.stackFault?]
  cases hfault : deployment.program.firstFault? with
  | some error =>
      have hparsed : (Program.parse deployment.source).firstFault? = some error := hfault
      rw [load, Program.ofProgram_eq, hparsed]
      rfl
  | none =>
      cases hfirst : deployment.program.firstExecutable? with
      | none =>
          have hparsed : (Program.parse deployment.source).firstFault? = none := hfault
          have hnone : (Program.parse deployment.source).firstExecutable? = none := hfirst
          simp only [load, Program.ofProgram_eq, hparsed, hnone]
          rfl
      | some first =>
          rw [load_of_firstFault?_eq_none hfault hfirst, Option.isSome_some, if_pos rfl]
          split_ifs
          all_goals rfl

theorem memory_ofDeployment (protocol : Protocol) (height : Word) (first : Nat)
    (hsound : deployment.program.firstFault? = none) :
    (ofDeployment deployment protocol height first).memory =
      Memory.ofNames (Memory.empty (deployment.value protocol .dataPages).toNat).limit
        deployment.cellNames (lastValue deployment.program.constants) := by
  have hnodup : deployment.cellNames.Nodup := nodup_eraseDups _
  have hconstants : ∀ entry ∈ deployment.program.constants, entry.1 ∈ deployment.cellNames := by
    intro entry hentry
    rw [Deployment.cellNames, List.mem_eraseDups]
    exact List.mem_append_left _ (Program.mem_declaredNames_of_constants hsound hentry)
  exact initialMemory_eq hnodup hconstants _

theorem loaded_ofDeployment (hsource : deployment.source.length < Word.modulus)
    (haccepted : deployment.refusal? protocol = none) :
    Loaded deployment protocol height
      (ofDeployment deployment protocol height (deployment.program.firstExecutable?.getD 0)) := by
  rw [Deployment.refusal?, Option.orElse_eq_none, Option.orElse_eq_none, Option.orElse_eq_none,
    Deployment.emptyFault?_eq, Deployment.dataFault?_eq hsource protocol] at haccepted
  obtain ⟨hsound, hempty, hdata, -⟩ := haccepted
  have hpages : deployment.neededPages ≤ (deployment.value protocol .dataPages).toNat := by
    by_contra hfew
    rw [if_pos (Nat.not_le.mp hfew)] at hdata
    cases hdata
  have hmemory := memory_ofDeployment protocol height
    (deployment.program.firstExecutable?.getD 0) hsound
  cases hfirst : deployment.program.firstExecutable? with
  | none =>
      rw [hfirst] at hempty
      cases hempty
  | some first =>
      rw [hfirst] at hmemory
      obtain ⟨hexecutable, hlands⟩ := Source.executable_of_nextExecutable? hfirst
      constructor
      · rw [hmemory]
        rfl
      · rw [hmemory]
        rfl
      · rw [hmemory, Nat.mul_comm]
        rfl
      · have hroom : deployment.cellNames.length ≤ 32 * deployment.neededPages := by
          unfold Deployment.neededPages
          omega
        exact Nat.le_trans hroom (Nat.mul_le_mul_left 32 hpages)
      · exact hexecutable
      · exact fun earlier hearlier => hlands.passed earlier (Nat.zero_le _) hearlier
      · rfl
      · intro setting
        cases setting with
        | contractId | creatorId | activationAmount | dataPages | userStackPages
        | codeStackPages => rfl
      · intro hnone
        have hvalue : deployment.value protocol .dataPages =
            UInt64.ofNat deployment.neededPages := by
          rw [Deployment.value, hnone]
          rfl
        exact (congrArg UInt64.toNat hvalue).trans (Deployment.toNat_neededPages hsource)
      · rfl

-- A deployment is refused for the first reason that there is, and otherwise loaded as its source,
-- its own wishes and the protocol say.
theorem loading_is_exact (deployment : Deployment) (protocol : Protocol) (height : Word)
    (hsource : deployment.source.length < Word.modulus) :
    (∀ error, load deployment protocol height = .error error ↔
      deployment.refusal? protocol = some error) ∧
    (deployment.refusal? protocol = none →
      ∃ contract, load deployment protocol height = .ok contract ∧
        Loaded deployment protocol height contract) := by
  rw [load_eq hsource]
  constructor
  · intro error
    cases deployment.refusal? protocol with
    | none => simp
    | some other => simp
  · intro haccepted
    rw [haccepted]
    exact ⟨_, rfl, loaded_ofDeployment hsource haccepted⟩

-- A source that gives a setting twice.
def repeating : Deployment where
  source := "^declare b\n^program dataPages 2\n^const SET @b #0000000000000007\nCLR @a\n" ++
    "^program dataPages 3"

-- A source in which two lines have a fault.
def faulty : Deployment where
  source := "^const SET @b #0000000000000005\n^bogus\nFIN"

theorem loading_is_exact_repeating :
    repeating.source.length < Word.modulus ∧ faulty.source.length < Word.modulus ∧
      (∃ contract, load repeating {} 1 = .ok contract ∧
        contract.memory.cells = [⟨some "b", 7⟩, ⟨some "a", 0⟩] ∧ contract.dataPages = 3) ∧
      load faulty {} 1 = .error (.undeclaredConstant 0 "b") := by
  have hrepeating : repeating.source.length < Word.modulus := by decide +kernel
  have hfaulty : faulty.source.length < Word.modulus := by decide +kernel
  have haccepted : repeating.refusal? {} = none := by decide +kernel
  have hrefused : faulty.refusal? {} = some (.undeclaredConstant 0 "b") := by decide +kernel
  have hcells : (repeating.cellNames.map fun name =>
      (⟨some name, lastValue repeating.program.constants name⟩ : Cell)) =
        [⟨some "b", 7⟩, ⟨some "a", 0⟩] := by decide +kernel
  have hpages : repeating.value {} .dataPages = 3 := by decide +kernel
  obtain ⟨contract, hload, hloaded⟩ := (loading_is_exact repeating {} 1 hrepeating).2 haccepted
  exact ⟨hrepeating, hfaulty,
    ⟨contract, hload, hloaded.cells.trans hcells, (hloaded.settings .dataPages).trans hpages⟩,
    ((loading_is_exact faulty {} 1 hfaulty).1 _).mpr hrefused⟩

end Contract

end ContractSim
