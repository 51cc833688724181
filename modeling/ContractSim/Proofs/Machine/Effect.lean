import ContractSim.Machine.Step
import ContractSim.Proofs.Action
import ContractSim.Proofs.Word

namespace ContractSim.Machine

-- What a call can do to the machine. Most functions work on the registers alone; the others
-- change the ledger or pay.
inductive CallEffect (machine : Machine) : Machine → Prop
  | registers (a b : Register) :
      CallEffect machine { machine with contract := { machine.contract with a, b } }
  | issue (name1 name2 decimals : Word) :
      CallEffect machine
        { contract :=
            { machine.contract with
              issuedAssets := machine.contract.issuedAssets ++
                [(machine.ledger.issueAsset machine.contract.id name1 name2 decimals).1] },
          ledger := (machine.ledger.issueAsset machine.contract.id name1 name2 decimals).2 }
  | mint (asset quantity : Word) :
      CallEffect machine
        { machine with
          ledger := ((Ledger.mintAsset machine.contract.id asset quantity).run machine.ledger).2 }
  | setMap (key1 key2 value : Word) :
      CallEffect machine
        { machine with
          ledger := machine.ledger.setMapValue machine.contract.id key1 key2 value }
  | send (recipient amount : Word) (token : Option Holding) (page : Option Register) :
      CallEffect machine ((Machine.send recipient amount token page).run machine).2
  | sendUnits (asset quantity recipient amount : Word) :
      CallEffect machine
        ((Machine.send recipient amount
            (some ⟨asset, (machine.ledger.debitAsset machine.contract.id asset quantity).1⟩)
            none).run
          { machine with
            ledger := (machine.ledger.debitAsset machine.contract.id asset quantity).2 }).2
  | distribute : CallEffect machine (Machine.distribute.run machine).2

-- What a call of each function can do to the machine. Only four functions reach the ledger other
-- than by a payment, and only a payment within the balance takes units along.
inductive Called (machine : Machine) : ApiFunction → Machine → Prop
  | registers (function : ApiFunction) (a b : Register) :
      Called machine function { machine with contract := { machine.contract with a, b } }
  | issue (name1 name2 decimals : Word) :
      Called machine .issueAsset
        { contract :=
            { machine.contract with
              issuedAssets := machine.contract.issuedAssets ++
                [(machine.ledger.issueAsset machine.contract.id name1 name2 decimals).1] },
          ledger := (machine.ledger.issueAsset machine.contract.id name1 name2 decimals).2 }
  | mint :
      Called machine .mintAsset
        { machine with
          ledger := ((Ledger.mintAsset machine.contract.id machine.contract.b.w2
            machine.contract.b.w1).run machine.ledger).2 }
  | setMap (key1 key2 value : Word) :
      Called machine .setMapValue
        { machine with
          ledger := machine.ledger.setMapValue machine.contract.id key1 key2 value }
  | send (function : ApiFunction) (recipient amount : Word) (page : Option Register) :
      Called machine function ((Machine.send recipient amount none page).run machine).2
  | sendUnits (asset quantity recipient : Word) {amount : Word} (hle : amount ≤ machine.balance) :
      Called machine .send
        ((Machine.send recipient amount
            (some ⟨asset, (machine.ledger.debitAsset machine.contract.id asset quantity).1⟩)
            none).run
          { machine with
            ledger := (machine.ledger.debitAsset machine.contract.id asset quantity).2 }).2
  | distribute : Called machine .distribute (Machine.distribute.run machine).2

theorem Called.effect {machine after : Machine} {function : ApiFunction}
    (hcalled : Called machine function after) : CallEffect machine after := by
  cases hcalled with
  | registers function a b => exact .registers a b
  | issue name1 name2 decimals => exact .issue name1 name2 decimals
  | mint => exact .mint _ _
  | setMap key1 key2 value => exact .setMap key1 key2 value
  | send function recipient amount page => exact .send recipient amount none page
  | sendUnits asset quantity recipient => exact .sendUnits asset quantity recipient _
  | distribute => exact .distribute

@[simp]
theorem run_modifyContract (change : Contract → Contract) (machine : Machine) :
    (modifyContract change).run machine =
      (.ok (), { machine with contract := change machine.contract }) := rfl

@[simp]
theorem run_modifyLedger (change : Ledger → Ledger) (machine : Machine) :
    (modifyLedger change).run machine =
      (.ok (), { machine with ledger := change machine.ledger }) := rfl

@[simp]
theorem run_askLedger {α : Type} (change : Ledger → α × Ledger) (machine : Machine) :
    (askLedger change).run machine =
      (.ok (change machine.ledger).1, { machine with ledger := (change machine.ledger).2 }) := rfl

@[simp]
theorem run_setRegister (name : RegisterName) (value : Register) (machine : Machine) :
    (setRegister name value).run machine =
      (.ok .done, { machine with contract := machine.contract.setRegister value name }) := rfl

@[simp]
theorem run_askTransaction (question : Transaction → Word) (machine : Machine) :
    (askTransaction question).run machine =
      (.ok (.value ((machine.incoming?.map question).getD Word.top)), machine) := rfl

-- Units leave the account before the payment is sent.
theorem run_sendToAddress (machine : Machine) (quantity : Word) :
    (sendToAddress quantity).run machine =
      if machine.contract.b.w2 = 0 then
        (send machine.contract.b.w1 (min quantity machine.balance) none none).run machine
      else
        (send machine.contract.b.w1 (min machine.contract.b.w3 machine.balance)
            (some ⟨machine.contract.b.w2,
              (machine.ledger.debitAsset machine.contract.id machine.contract.b.w2 quantity).1⟩)
            none).run
          { machine with
            ledger := (machine.ledger.debitAsset machine.contract.id machine.contract.b.w2
              quantity).2 } := by
  rw [sendToAddress, Action.run_bind_of_ok (Action.run_get machine)]
  dsimp only
  split_ifs
  · rfl
  · rw [Action.run_bind_of_ok (run_askLedger _ machine)]

theorem called_sendToAddress (machine : Machine) (quantity : Word) :
    Called machine .send ((sendToAddress quantity).run machine).2 := by
  rw [run_sendToAddress]
  split_ifs
  · exact .send _ _ _ _
  · exact .sendUnits _ _ _ (Word.min_le_right _ _)

-- Looking at a ticket changes nothing.
theorem run_readTicket_snd (machine : Machine) (protocol : Protocol) :
    ((readTicket protocol).run machine).2 = machine := by
  simp only [readTicket, Action.run_bind, Action.run_get]
  split
  · rfl
  · split_ifs
    · rfl
    · rfl

-- The functions are taken together by what they change.
theorem called_call (machine : Machine) (protocol : Protocol) (function : ApiFunction)
    (first second : Word) :
    Called machine function ((call protocol function first second).run machine).2 := by
  have hidle : ∀ function, Called machine function machine :=
    fun function => .registers function machine.contract.a machine.contract.b
  have hset : ∀ function name value,
      Called machine function
        { machine with contract := machine.contract.setRegister value name } := by
    intro function name value
    cases name with
    | a => exact .registers function value machine.contract.b
    | b => exact .registers function machine.contract.a value
  cases function
  all_goals
    simp only [call, Action.run_bind, Action.run_get, Action.run_pure, run_setRegister,
      run_askTransaction, run_modifyContract, run_modifyLedger, run_askLedger]
  case setLane | setLowLanes | setHighLanes | clear | copyTo | bitwise | wide | hash |
      lastBlockHash | lastBlockSignature | nextTransaction | transactionMessage |
      transactionSender | creator | transactionAssets => exact hset _ _ _
  case clearBoth | swap => exact .registers _ _ _
  case getLane | isZero | areEqual | checkHash | checkSignature | blockTimestamp |
      creationTimestamp | lastBlockTimestamp | transactionKind | transactionAmount |
      transactionTimestamp | currentBalance | previousBalance | addMinutes | holderCount |
      circulating | codeHash | mapValue => exact hidle _
  case activationFee =>
    split_ifs
    · exact hidle _
    · exact hidle _
  case transactionTicket =>
    rw [run_readTicket_snd]
    exact hidle _
  case send => exact called_sendToAddress machine first
  case sendAll | sendPrevious | sendMessage => exact .send _ _ _ _
  case issueAsset => exact .issue _ _ _
  case mintAsset => exact .mint
  case distribute => exact .distribute
  case setMapValue => exact .setMap _ _ _

theorem callEffect_call (machine : Machine) (protocol : Protocol) (function : ApiFunction)
    (first second : Word) :
    CallEffect machine ((call protocol function first second).run machine).2 :=
  (called_call machine protocol function first second).effect

-- What an instruction can do to the machine. Only a call reaches beyond what the contract computes
-- with; the result of a call goes to memory.
inductive Effect (machine : Machine) : Machine → Prop
  | work (memory : Memory) (userStack : Stack Word) (codeStack : Stack Nat) (err : Option Nat)
      (pcs : Nat) :
      Effect machine
        { machine with
          contract := { machine.contract with memory, userStack, codeStack, err, pcs } }
  | call {after : Machine} (hcall : CallEffect machine after) (memory : Memory) :
      Effect machine { after with contract := { after.contract with memory } }

-- What each instruction can do to the machine.
inductive Executed (machine : Machine) : Instruction → Machine → Prop
  | work (instruction : Instruction) (memory : Memory) (userStack : Stack Word)
      (codeStack : Stack Nat) (err : Option Nat) (pcs : Nat) :
      Executed machine instruction
        { machine with
          contract := { machine.contract with memory, userStack, codeStack, err, pcs } }
  | call {function : ApiFunction} {after : Machine} (hcalled : Called machine function after)
      (result : Option String) (arguments : List String) (memory : Memory) :
      Executed machine (.call function result arguments)
        { after with contract := { after.contract with memory } }

theorem Executed.effect {machine after : Machine} {instruction : Instruction}
    (hexecuted : Executed machine instruction after) : Effect machine after := by
  cases hexecuted with
  | work instruction memory userStack codeStack err pcs =>
      exact .work memory userStack codeStack err pcs
  | call hcalled result arguments memory => exact .call hcalled.effect memory

theorem Executed.idle (machine : Machine) (instruction : Instruction) :
    Executed machine instruction machine :=
  .work instruction machine.contract.memory machine.contract.userStack machine.contract.codeStack
    machine.contract.err machine.contract.pcs

@[simp]
theorem run_readCell (name : String) (machine : Machine) :
    (readCell name).run machine = (.ok (machine.contract.memory.read name), machine) := rfl

@[simp]
theorem run_writeCell (name : String) (value : Word) (machine : Machine) :
    (writeCell name value).run machine =
      (.ok (), { machine with
        contract :=
          { machine.contract with memory := machine.contract.memory.write name value } }) := rfl

@[simp]
theorem run_storeNext (target : String) (value : Word) (machine : Machine) :
    (storeNext target value).run machine =
      (.ok .next, { machine with
        contract :=
          { machine.contract with memory := machine.contract.memory.write target value } }) := rfl

@[simp]
theorem run_orFault {α : Type} (result : Except Fault α) (machine : Machine) :
    (orFault result).run machine = (result, machine) := by
  cases result with
  | ok value => rfl
  | error fault => rfl

@[simp]
theorem run_readAddress (address : Word) (machine : Machine) :
    (readAddress address).run machine = (machine.contract.memory.readAt address, machine) := by
  simp only [readAddress, Action.run_bind, Action.run_get, run_orFault]

@[simp]
theorem run_writeAddress (address value : Word) (machine : Machine) :
    (writeAddress address value).run machine =
      match machine.contract.memory.writeAt address value with
      | .ok memory => (.ok (), { machine with contract := { machine.contract with memory } })
      | .error fault => (.error fault, machine) := by
  simp only [writeAddress, Action.run_bind, Action.run_get, run_orFault]
  cases machine.contract.memory.writeAt address value with
  | ok memory => rfl
  | error fault => rfl

@[simp]
theorem run_resolve (label : String) (machine : Machine) :
    (resolve label).run machine =
      match machine.contract.program.label? label with
      | some line => (.ok line, machine)
      | none => (.error (.unknownLabel label), machine) := by
  simp only [resolve, Action.run_bind, Action.run_get]
  cases machine.contract.program.label? label with
  | some line => rfl
  | none => rfl

-- A jump is a matter of control, which is not carried out here.
theorem run_jumpIf_snd (condition : Bool) (label : String) (machine : Machine) :
    ((jumpIf condition label).run machine).2 = machine := by
  unfold jumpIf
  split_ifs
  · rw [Action.run_bind, run_resolve]
    cases machine.contract.program.label? label with
    | some line => rfl
    | none => rfl
  · rfl

theorem run_forM_writeCell (result : Option String) (value : Word) (machine : Machine) :
    ∃ memory, (result.forM (writeCell · value)).run machine =
      (.ok (), { machine with contract := { machine.contract with memory } }) := by
  cases result with
  | none => exact ⟨machine.contract.memory, rfl⟩
  | some name => exact ⟨_, run_writeCell name value machine⟩

theorem executed_callNamed (machine : Machine) (protocol : Protocol) (function : ApiFunction)
    (result : Option String) (arguments : List String) :
    Executed machine (.call function result arguments)
      ((callNamed protocol function result arguments).run machine).2 := by
  simp only [callNamed, Action.run_bind, Action.run_get]
  have hcalled := called_call machine protocol function
    ((arguments.map machine.contract.memory.read).getD 0 0)
    ((arguments.map machine.contract.memory.read).getD 1 0)
  rcases hcall : (call protocol function ((arguments.map machine.contract.memory.read).getD 0 0)
    ((arguments.map machine.contract.memory.read).getD 1 0)).run machine with ⟨answer, after⟩
  rw [hcall] at hcalled
  cases answer with
  | error fault => exact .call hcalled _ _ after.contract.memory
  | ok answer =>
      cases answer with
      | value value =>
          obtain ⟨memory, hwrite⟩ := run_forM_writeCell result value after
          simp only [Action.run_bind, hwrite, Action.run_pure]
          exact .call hcalled _ _ memory
      | sleep untilBlock =>
          obtain ⟨memory, hwrite⟩ := run_forM_writeCell result 0 after
          simp only [Action.run_bind, hwrite, Action.run_pure]
          exact .call hcalled _ _ memory

-- The instructions are taken together by what they change. Where an instruction can raise a fault,
-- the fault comes first.
theorem executed_execute (machine : Machine) (protocol : Protocol) (line : Nat)
    (instruction : Instruction) :
    Executed machine instruction ((execute protocol line instruction).run machine).2 := by
  have hmemory : ∀ instruction memory,
      Executed machine instruction
        { machine with contract := { machine.contract with memory } } :=
    fun instruction memory => .work instruction memory machine.contract.userStack
      machine.contract.codeStack machine.contract.err machine.contract.pcs
  cases instruction
  all_goals
    simp only [execute, Action.run_bind, Action.run_get, Action.run_pure, run_storeNext,
      run_readCell, run_orFault, run_readAddress, run_writeAddress, run_resolve,
      run_modifyContract]
  case setValue | copy | clear | increment | decrement | complement => exact hmemory _ _
  case arith op target source =>
    cases op.eval (machine.contract.memory.read target) (machine.contract.memory.read source) with
    | ok value => exact hmemory _ _
    | error fault => exact .idle machine _
  case mulDiv target multiplier divisor =>
    cases ContractSim.mulDiv (machine.contract.memory.read target)
        (machine.contract.memory.read multiplier) (machine.contract.memory.read divisor) with
    | ok value => exact hmemory _ _
    | error fault => exact .idle machine _
  case load target pointer =>
    cases machine.contract.memory.readAt (machine.contract.memory.read pointer) with
    | ok value => exact hmemory _ _
    | error fault => exact .idle machine _
  case loadIndexed target base offset =>
    cases machine.contract.memory.readAt
        (machine.contract.memory.read base + machine.contract.memory.read offset) with
    | ok value => exact hmemory _ _
    | error fault => exact .idle machine _
  case store pointer source =>
    cases machine.contract.memory.writeAt (machine.contract.memory.read pointer)
        (machine.contract.memory.read source) with
    | ok memory => exact hmemory _ _
    | error fault => exact .idle machine _
  case storeIndexed base offset source =>
    cases machine.contract.memory.writeAt
        (machine.contract.memory.read base + machine.contract.memory.read offset)
        (machine.contract.memory.read source) with
    | ok memory => exact hmemory _ _
    | error fault => exact .idle machine _
  case push source =>
    cases machine.contract.userStack.push (machine.contract.memory.read source) with
    | ok userStack =>
        exact .work _ machine.contract.memory userStack machine.contract.codeStack
          machine.contract.err machine.contract.pcs
    | error fault => exact .idle machine _
  case pop target =>
    cases machine.contract.userStack.pop with
    | ok popped =>
        exact .work _ _ popped.2 machine.contract.codeStack machine.contract.err
          machine.contract.pcs
    | error fault => exact .idle machine _
  case jumpSub label =>
    cases machine.contract.program.label? label with
    | none => exact .idle machine _
    | some target =>
        dsimp only
        cases machine.contract.codeStack.push (line + 1) with
        | ok codeStack =>
            exact .work _ machine.contract.memory machine.contract.userStack codeStack
              machine.contract.err machine.contract.pcs
        | error fault => exact .idle machine _
  case ret =>
    cases machine.contract.codeStack.pop with
    | ok popped =>
        exact .work _ machine.contract.memory machine.contract.userStack popped.2
          machine.contract.err machine.contract.pcs
    | error fault => exact .idle machine _
  case jump label =>
    cases machine.contract.program.label? label with
    | none => exact .idle machine _
    | some target => exact .idle machine _
  case setHandler label =>
    cases machine.contract.program.label? label with
    | none => exact .idle machine _
    | some target =>
        exact .work _ machine.contract.memory machine.contract.userStack machine.contract.codeStack
          (some target) machine.contract.pcs
  case setRestart =>
    exact .work _ machine.contract.memory machine.contract.userStack machine.contract.codeStack
      machine.contract.err _
  case branchZero | branchNotZero | branch =>
    rw [run_jumpIf_snd]
    exact .idle machine _
  case sleep blocks =>
    cases blocks with
    | none => exact .idle machine _
    | some name => exact .idle machine _
  case nop | finishIfZero | stopIfZero | finish | stop => exact .idle machine _
  case call function result arguments =>
    exact executed_callNamed machine protocol function result arguments

theorem effect_execute (machine : Machine) (protocol : Protocol) (line : Nat)
    (instruction : Instruction) :
    Effect machine ((execute protocol line instruction).run machine).2 :=
  (executed_execute machine protocol line instruction).effect

end ContractSim.Machine
