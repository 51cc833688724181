import ContractSim.Proofs.Assembly.Names
import ContractSim.Proofs.Machine.Frame

namespace ContractSim

namespace Machine

open ContractSim.Action

theorem memory_send (machine : Machine) (recipient amount : Word) (token : Option Holding)
    (page : Option Register) :
    ((send recipient amount token page).run machine).2.contract.memory =
      machine.contract.memory := by
  rw [run_send]
  split_ifs
  · rfl
  · rfl
  · obtain ⟨queue, hqueue⟩ := machine.contract.exists_enqueue_eq recipient amount token page
      (machine.withdrawn amount).height
    dsimp only
    rw [hqueue]

-- Built-in functions do not reach memory.
theorem memory_callEffect {machine after : Machine} (heffect : CallEffect machine after) :
    after.contract.memory = machine.contract.memory := by
  cases heffect with
  | registers | issue | mint | setMap => rfl
  | send recipient amount token page => exact memory_send machine recipient amount token page
  | sendUnits asset quantity recipient amount => exact memory_send _ _ _ _ _
  | distribute =>
      obtain ⟨shares, ledger, hrun, -⟩ := machine.exists_run_distribute
      obtain ⟨queue, hqueue⟩ := exists_queueShares_eq machine.contract machine.contract.a.w3
        machine.ledger.height shares
      rw [hrun]
      dsimp only
      rw [hqueue]

-- The result of a call goes to the cell that is named for it.
theorem stores_forM_writeCell (result : Option String) (value : Word) (machine : Machine) :
    ∃ memory, (result.forM (writeCell · value)).run machine =
        (.ok (), { machine with contract := { machine.contract with memory } }) ∧
      Memory.Stores result.toList machine.contract.memory memory := by
  cases result with
  | none => exact ⟨machine.contract.memory, rfl, .nothing⟩
  | some name =>
      exact ⟨_, run_writeCell name value machine, .named (List.mem_singleton.mpr rfl) value⟩

theorem stores_callNamed (machine : Machine) (protocol : Protocol) (function : ApiFunction)
    (result : Option String) (arguments : List String) :
    Memory.Stores result.toList machine.contract.memory
      ((callNamed protocol function result arguments).run machine).2.contract.memory := by
  let first := (arguments.map machine.contract.memory.read).getD 0 0
  let second := (arguments.map machine.contract.memory.read).getD 1 0
  obtain ⟨answer, called, hcall⟩ := answers_call protocol function first second machine
  have heffect := callEffect_call machine protocol function first second
  rw [hcall] at heffect
  have hmemory := memory_callEffect heffect
  rw [callNamed, run_bind_of_ok (run_get machine), run_bind_of_ok hcall, ← hmemory]
  cases answer with
  | value value =>
      obtain ⟨memory, hwrite, hstores⟩ := stores_forM_writeCell result value called
      dsimp only
      rw [run_bind_of_ok hwrite]
      exact hstores
  | sleep untilBlock =>
      obtain ⟨memory, hwrite, hstores⟩ := stores_forM_writeCell result 0 called
      dsimp only
      rw [run_bind_of_ok hwrite]
      exact hstores

-- An instruction stores at most one value: under a name that it mentions or at an address.
theorem stores_execute (machine : Machine) (protocol : Protocol) (line : Nat)
    (instruction : Instruction) :
    Memory.Stores instruction.cellNames machine.contract.memory
      ((execute protocol line instruction).run machine).2.contract.memory := by
  cases instruction
  all_goals
    simp only [execute, Action.run_bind, Action.run_get, Action.run_pure, run_storeNext,
      run_readCell, run_orFault, run_readAddress, run_writeAddress, run_resolve,
      run_modifyContract, Instruction.cellNames]
  case setValue | copy | clear | increment | decrement | complement =>
    exact .named List.mem_cons_self _
  case arith op target source =>
    cases op.eval (machine.contract.memory.read target) (machine.contract.memory.read source) with
    | ok value => exact .named List.mem_cons_self value
    | error fault => exact .nothing
  case mulDiv target multiplier divisor =>
    cases ContractSim.mulDiv (machine.contract.memory.read target)
        (machine.contract.memory.read multiplier) (machine.contract.memory.read divisor) with
    | ok value => exact .named List.mem_cons_self value
    | error fault => exact .nothing
  case load target pointer =>
    cases machine.contract.memory.readAt (machine.contract.memory.read pointer) with
    | ok value => exact .named List.mem_cons_self value
    | error fault => exact .nothing
  case loadIndexed target base offset =>
    cases machine.contract.memory.readAt
        (machine.contract.memory.read base + machine.contract.memory.read offset) with
    | ok value => exact .named List.mem_cons_self value
    | error fault => exact .nothing
  case store pointer source =>
    cases hwrite : machine.contract.memory.writeAt (machine.contract.memory.read pointer)
        (machine.contract.memory.read source) with
    | ok memory => exact .addressed hwrite
    | error fault => exact .nothing
  case storeIndexed base offset source =>
    cases hwrite : machine.contract.memory.writeAt
        (machine.contract.memory.read base + machine.contract.memory.read offset)
        (machine.contract.memory.read source) with
    | ok memory => exact .addressed hwrite
    | error fault => exact .nothing
  case push source =>
    cases machine.contract.userStack.push (machine.contract.memory.read source) with
    | ok userStack => exact .nothing
    | error fault => exact .nothing
  case pop target =>
    cases machine.contract.userStack.pop with
    | ok popped => exact .named List.mem_cons_self popped.1
    | error fault => exact .nothing
  case jumpSub label =>
    cases machine.contract.program.label? label with
    | none => exact .nothing
    | some target =>
        dsimp only
        cases machine.contract.codeStack.push (line + 1) with
        | ok codeStack => exact .nothing
        | error fault => exact .nothing
  case ret =>
    cases machine.contract.codeStack.pop with
    | ok popped => exact .nothing
    | error fault => exact .nothing
  case jump label | setHandler label =>
    cases machine.contract.program.label? label with
    | none => exact .nothing
    | some target => exact .nothing
  case branchZero | branchNotZero | branch =>
    rw [run_jumpIf_snd]
    exact .nothing
  case sleep blocks =>
    cases blocks with
    | none => exact .nothing
    | some name => exact .nothing
  case setRestart | nop | finishIfZero | stopIfZero | finish | stop => exact .nothing
  case call function result arguments =>
    refine (stores_callNamed machine protocol function result arguments).mono ?_
    intro name hmem
    exact List.mem_append_left arguments hmem

theorem memory_transfer (machine : Machine) (line : Nat) (flow : Flow) :
    (machine.transfer line flow).2.contract.memory = machine.contract.memory := by
  cases flow with
  | next | jump | stop | sleep | retry | finish => rfl

theorem memory_handle (machine : Machine) (fault : Fault) :
    (machine.handle fault).2.contract.memory = machine.contract.memory := by
  unfold handle
  split
  · split_ifs
    · rfl
    · rfl
  · rfl

end Machine

theorem Program.mem_cellNames_of_line? {program : Program} {line : Nat} {instruction : Instruction}
    (hline : program.line? line = some (.code instruction)) {name : String}
    (hname : name ∈ instruction.cellNames) : name ∈ program.cellNames := by
  obtain ⟨source, hsource, hcontent⟩ := Option.map_eq_some_iff.mp hline
  refine List.mem_flatMap.mpr ⟨source, List.mem_of_getElem? hsource, ?_⟩
  rw [hcontent]
  exact hname

-- The names of the code are all that a step can write to.
theorem Machine.stores_step (machine : Machine) (protocol : Protocol) (breakpoints : Breakpoints) :
    Memory.Stores machine.contract.program.cellNames machine.contract.memory
      (machine.step protocol breakpoints).2.contract.memory := by
  rw [← step_snd, step_nil]
  have hcases := advance_cases machine protocol
  generalize machine.advance protocol = result at hcases ⊢
  cases hcases with
  | rests | ends | stumbles | freezes => exact .nothing
  | @flows _ line instruction fee flow after _ hline _ _ hrun =>
      have hstores := stores_execute ((machine.arrived line).charged fee) protocol line instruction
      rw [hrun] at hstores
      rw [memory_transfer]
      exact hstores.mono fun name hname => Program.mem_cellNames_of_line? hline hname
  | @faults _ line _ fee fault =>
      rw [memory_handle]
      exact .nothing

namespace Contract

-- The states of a contract from its loading on. It steps on any ledger and under any protocol, and
-- whatever else happens to it leaves its program and its memory alone.
inductive Evolves (loaded : Contract) : Contract → Prop
  | loaded : Evolves loaded loaded
  | step {contract : Contract} (hfrom : Evolves loaded contract) (ledger : Ledger)
      (protocol : Protocol) (breakpoints : Breakpoints) :
      Evolves loaded ((Machine.mk contract ledger).step protocol breakpoints).2.contract
  | between {contract other : Contract} (hfrom : Evolves loaded contract)
      (hprogram : other.program = contract.program) (hmemory : other.memory = contract.memory) :
      Evolves loaded other

-- The memory of a contract has its names in front and stays within its limit.
structure Settled (names : List String) (limit : Nat) (contract : Contract) : Prop where
  names_eq : contract.program.names = names
  laidOut : contract.memory.LaidOut names
  limit_eq : contract.memory.limit = limit
  length_le : contract.memory.cells.length ≤ limit

variable {names : List String} {limit : Nat} {contract loaded : Contract}

-- The code only uses names that have cells.
theorem Settled.stores_step (hsettled : Settled names limit contract) (ledger : Ledger)
    (protocol : Protocol) (breakpoints : Breakpoints) :
    Memory.Stores names contract.memory
      ((Machine.mk contract ledger).step protocol breakpoints).2.contract.memory := by
  refine ((Machine.mk contract ledger).stores_step protocol breakpoints).mono ?_
  intro name hname
  rw [← hsettled.names_eq]
  exact Header.mem_foldl_addName_iff.mpr (.inr (List.mem_append_right _ hname))

theorem Settled.step (hsettled : Settled names limit contract) (ledger : Ledger)
    (protocol : Protocol) (breakpoints : Breakpoints) :
    Settled names limit
      ((Machine.mk contract ledger).step protocol breakpoints).2.contract := by
  have hstores := hsettled.stores_step ledger protocol breakpoints
  have hterms := ((Machine.mk contract ledger).works_step protocol breakpoints).terms
  have hlimit := hsettled.laidOut.limit_of_stores hstores
  constructor
  · rw [← hsettled.names_eq]
    exact congrArg (fun terms => terms.program.names) hterms
  · exact hsettled.laidOut.of_stores hstores
  · exact hlimit.trans hsettled.limit_eq
  · have hlength := hsettled.laidOut.length_le_limit_of_stores hstores
      (by rw [hsettled.limit_eq]; exact hsettled.length_le)
    rw [hlimit, hsettled.limit_eq] at hlength
    exact hlength

theorem Settled.evolves (hsettled : Settled names limit loaded)
    (hevolves : Evolves loaded contract) : Settled names limit contract := by
  induction hevolves with
  | loaded => exact hsettled
  | step _ ledger protocol breakpoints ih => exact ih.step ledger protocol breakpoints
  | between _ hprogram hmemory ih =>
      constructor
      · rw [hprogram]
        exact ih.names_eq
      · rw [hmemory]
        exact ih.laidOut
      · rw [hmemory]
        exact ih.limit_eq
      · rw [hmemory]
        exact ih.length_le

theorem nodup_names (program : Program) : program.names.Nodup :=
  Header.nodup_foldl_addName List.nodup_nil _

-- Loading finds room for every name.
theorem names_of_load {deployment : Deployment} {protocol : Protocol} {height : Word}
    (hload : load deployment protocol height = .ok loaded) :
    loaded.program = Program.parse deployment.source ∧
      loaded.memory.cells.map Cell.name = loaded.program.names.map some ∧
      loaded.memory.index = loaded.program.names.zipIdx ∧
      loaded.memory.limit =
        min (loaded.dataPages.toNat * Memory.pageCells) (Word.modulus - 1) ∧
      loaded.program.names.length ≤ loaded.dataPages.toNat * Memory.pageCells := by
  obtain ⟨header, first, id, creator, activationAmount, dataPages, userStackPages,
    codeStackPages, hheader, -, hpages, rfl⟩ := exists_load_eq hload
  obtain ⟨hdeclared, hproper⟩ := Header.ofProgram_eq_ok hheader
  have hconstants : ∀ entry ∈ header.constants,
      entry.1 ∈ (Program.parse deployment.source).names := by
    intro entry hentry
    have hmem := hproper entry hentry
    rw [hdeclared, Header.mem_foldl_addName_iff] at hmem
    rw [Program.names, Header.mem_foldl_addName_iff, List.mem_append]
    exact hmem.imp_right .inl
  obtain ⟨hcells, hindex, hlimit⟩ := initialMemory_names (nodup_names _) hconstants dataPages
  exact ⟨rfl, hcells, hindex, hlimit, length_le_of_pagesFor hpages⟩

-- A source that is shorter than the largest word has no more names than words can number.
theorem settled_of_load {deployment : Deployment} {protocol : Protocol} {height : Word}
    (hload : load deployment protocol height = .ok loaded)
    (hsource : deployment.source.length < Word.modulus) :
    Settled loaded.program.names loaded.memory.limit loaded := by
  obtain ⟨hprogram, hcells, hindex, hlimit, hroom⟩ := names_of_load hload
  have hnames := Program.length_names_parse_le deployment.source
  have hlength := congrArg List.length hcells
  rw [List.length_map, List.length_map] at hlength
  rw [← hprogram] at hnames
  exact ⟨rfl, .of_map_name hcells hindex, rfl, by omega⟩

-- The layout of memory is fixed when a contract is loaded, and access by name and by address
-- always agree.
theorem layout_is_fixed {deployment : Deployment} {protocol : Protocol} {height : Word}
    (hload : load deployment protocol height = .ok loaded)
    (hsource : deployment.source.length < Word.modulus) :
    loaded.program.names.Nodup ∧
    (∀ name, name ∈ loaded.program.names ↔
      name ∈ loaded.program.declaredNames ∨ name ∈ loaded.program.cellNames) ∧
    loaded.memory.cells.map Cell.name = loaded.program.names.map some ∧
    loaded.memory.index = loaded.program.names.zipIdx ∧
    ∀ contract, Evolves loaded contract →
      contract.memory.cells.map Cell.name =
        loaded.program.names.map some ++
          List.replicate (contract.memory.cells.length - loaded.program.names.length) none ∧
      contract.memory.index = loaded.program.names.zipIdx ∧
      (∀ name, contract.memory.address? name = loaded.program.names.idxOf? name) ∧
      contract.memory.cells.length ≤ contract.memory.limit ∧
      contract.memory.limit = min (32 * loaded.dataPages.toNat) (Word.modulus - 1) ∧
      (∀ name ∈ loaded.program.names,
        (∀ value, (contract.memory.write name value).cells.length =
            contract.memory.cells.length ∧
          (contract.memory.write name value).index = contract.memory.index) ∧
        ∃ address : Word, contract.memory.address? name = some address.toNat ∧
          contract.memory.cells[address.toNat]? =
            some ⟨some name, contract.memory.read name⟩ ∧
          contract.memory.readAt address = .ok (contract.memory.read name)) ∧
      ∀ ledger protocol breakpoints, ∃ address : Word, ∀ other, other ≠ address →
        ((Machine.mk contract ledger).step protocol breakpoints).2.contract.memory.readAt other =
          contract.memory.readAt other := by
  obtain ⟨-, hcells, hindex, hlimit, -⟩ := names_of_load hload
  refine ⟨nodup_names _, ?_, hcells, hindex, ?_⟩
  · intro name
    rw [Program.names, Header.mem_foldl_addName_iff, List.mem_append]
    simp only [List.not_mem_nil, false_or]
  · intro contract hevolves
    have hsettled := (settled_of_load hload hsource).evolves hevolves
    have hlaid := hsettled.laidOut
    have hlength : contract.memory.cells.length ≤ contract.memory.limit := by
      rw [hsettled.limit_eq]
      exact hsettled.length_le
    have hword : contract.memory.limit < Word.modulus := by
      rw [hsettled.limit_eq, hlimit]
      exact Nat.lt_of_le_of_lt (Nat.min_le_right _ _) (by decide)
    refine ⟨hlaid.cells, hlaid.index, hlaid.address?_eq, hlength, ?_, ?_, ?_⟩
    · rw [hsettled.limit_eq, hlimit, Nat.mul_comm]
      rfl
    · intro name hname
      exact ⟨hlaid.write_keeps hname,
        hlaid.access hname (Nat.le_trans hlaid.length_le hlength) hword⟩
    · intro ledger protocol breakpoints
      exact hlaid.readAt_of_stores (hsettled.stores_step ledger protocol breakpoints)

-- A contract that stores at an address behind its names.
def pointing : Deployment where
  source := "^declare b\nSET @a #0000000000000005\nSET @($a) $b\nFIN"

theorem layout_is_fixed_pointing :
    pointing.source.length < Word.modulus ∧
      ∃ loaded, load pointing {} 1 = .ok loaded ∧
        ∀ contract, Evolves loaded contract →
          contract.memory.address? "b" = some 0 ∧ contract.memory.address? "a" = some 1 := by
  have hsource : pointing.source.length < Word.modulus := by decide +kernel
  have hnames : (Program.parse pointing.source).names = ["b", "a"] := by decide +kernel
  have hloads : (load pointing {} 1).isOk = true := by decide +kernel
  refine ⟨hsource, ?_⟩
  cases hload : load pointing {} 1 with
  | error error =>
      rw [hload] at hloads
      cases hloads
  | ok loaded =>
      refine ⟨loaded, rfl, ?_⟩
      intro contract hevolves
      obtain ⟨-, -, -, -, hall⟩ := layout_is_fixed hload hsource
      obtain ⟨-, -, haddress, -⟩ := hall contract hevolves
      rw [(names_of_load hload).1, hnames] at haddress
      exact ⟨haddress "b", haddress "a"⟩

end Contract

end ContractSim
