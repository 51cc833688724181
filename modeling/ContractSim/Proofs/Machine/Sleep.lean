import ContractSim.Proofs.Machine.Lifecycle

namespace ContractSim

-- An answer that is a value.
def Answer.IsValue : Answer → Prop
  | .value _ => True
  | .sleep _ => False

-- Control that puts nobody to sleep.
def Flow.Awake : Flow → Prop
  | .sleep _ | .retry _ => False
  | .next | .jump _ | .stop | .finish => True

namespace Machine

open ContractSim.Action

theorem yields_send (recipient amount : Word) (token : Option Holding) (page : Option Register) :
    Yields Answer.IsValue (send recipient amount token page) := by
  unfold send
  split_ifs
  · exact yields_pure trivial
  · refine yields_bind fun _ => yields_bind fun _ => yields_bind fun _ => yields_bind fun _ => ?_
    exact yields_pure trivial

theorem yields_sendToAddress (quantity : Word) :
    Yields Answer.IsValue (sendToAddress quantity) := by
  refine yields_bind fun machine => ?_
  dsimp only
  split_ifs
  · exact yields_send _ _ _ _
  · exact yields_bind fun _ => yields_send _ _ _ _

theorem yields_distribute : Yields Answer.IsValue distribute := by
  refine yields_bind fun machine => ?_
  dsimp only
  split_ifs
  · exact yields_pure trivial
  all_goals
    refine yields_bind fun _ => yields_bind fun _ => yields_bind fun _ => ?_
    exact yields_pure trivial

-- Tickets are the only thing that a contract can be told to wait for.
theorem yields_call (protocol : Protocol) {function : ApiFunction}
    (hfunction : function ≠ .transactionTicket) (first second : Word) :
    Yields Answer.IsValue (call protocol function first second) := by
  have hset : ∀ name value, Yields Answer.IsValue (setRegister name value) :=
    fun _ _ => yields_bind fun _ => yields_pure trivial
  have hask : ∀ question, Yields Answer.IsValue (askTransaction question) :=
    fun _ => yields_bind fun _ => yields_pure trivial
  refine yields_bind fun machine => ?_
  cases function
  case transactionTicket => exact absurd rfl hfunction
  case send => exact yields_sendToAddress first
  case sendAll | sendPrevious | sendMessage => exact yields_send _ _ _ _
  case distribute => exact yields_distribute
  case setLane | setLowLanes | setHighLanes | clear | copyTo | bitwise | wide | hash |
      lastBlockHash | lastBlockSignature | nextTransaction | transactionMessage |
      transactionSender | creator | transactionAssets => exact hset _ _
  case transactionKind | transactionAmount | transactionTimestamp => exact hask _
  case clearBoth | swap | setMapValue | mintAsset => exact yields_bind fun _ => yields_pure trivial
  case issueAsset => exact yields_bind fun _ => yields_bind fun _ => yields_pure trivial
  case activationFee =>
    dsimp only
    split_ifs
    · exact yields_pure trivial
    · exact yields_pure trivial
  case getLane | isZero | areEqual | checkHash | checkSignature | blockTimestamp |
      creationTimestamp | lastBlockTimestamp | currentBalance | previousBalance | addMinutes |
      holderCount | circulating | codeHash | mapValue => exact yields_pure trivial

theorem yields_callNamed (protocol : Protocol) {function : ApiFunction}
    (hfunction : function ≠ .transactionTicket) (result : Option String)
    (arguments : List String) :
    Yields Flow.Awake (callNamed protocol function result arguments) := by
  refine yields_bind fun machine => ?_
  intro before flow after hrun
  let values := arguments.map machine.contract.memory.read
  rcases hcall : (call protocol function (values.getD 0 0) (values.getD 1 0)).run before with
    ⟨answer, called⟩
  dsimp only at hrun
  rw [run_bind, hcall] at hrun
  cases answer with
  | error fault => cases hrun
  | ok answer =>
      have hvalue := yields_call protocol hfunction _ _ _ _ _ hcall
      cases answer with
      | value value =>
          have hrest : Yields Flow.Awake (do
              result.forM (writeCell · value)
              return .next : Action Flow) := yields_bind fun _ => yields_pure trivial
          exact hrest _ _ _ hrun
      | sleep untilBlock => exact absurd hvalue id

theorem yields_jumpIf (condition : Bool) (label : String) :
    Yields Flow.Awake (jumpIf condition label) := by
  unfold jumpIf
  split_ifs
  · exact yields_bind fun _ => yields_pure trivial
  · exact yields_pure trivial

-- Two instructions can put a contract to sleep.
theorem yields_execute (protocol : Protocol) (line : Nat) {instruction : Instruction}
    (hsleep : ∀ blocks, instruction ≠ .sleep blocks)
    (hticket : ∀ result arguments, instruction ≠ .call .transactionTicket result arguments) :
    Yields Flow.Awake (execute protocol line instruction) := by
  have hstore : ∀ target value, Yields Flow.Awake (storeNext target value) :=
    fun _ _ => yields_bind fun _ => yields_pure trivial
  cases instruction with
  | setValue | clear => exact hstore _ _
  | copy | increment | decrement | complement => exact yields_bind fun _ => hstore _ _
  | load => exact yields_bind fun _ => yields_bind fun _ => hstore _ _
  | arith | loadIndexed =>
      exact yields_bind fun _ => yields_bind fun _ => yields_bind fun _ => hstore _ _
  | mulDiv =>
      refine yields_bind fun _ => yields_bind fun _ => yields_bind fun _ => ?_
      exact yields_bind fun _ => hstore _ _
  | store =>
      refine yields_bind fun _ => yields_bind fun _ => yields_bind fun _ => ?_
      exact yields_pure trivial
  | storeIndexed =>
      refine yields_bind fun _ => yields_bind fun _ => yields_bind fun _ => ?_
      exact yields_bind fun _ => yields_pure trivial
  | push =>
      refine yields_bind fun _ => yields_bind fun _ => yields_bind fun _ => ?_
      exact yields_bind fun _ => yields_pure trivial
  | pop =>
      refine yields_bind fun _ => yields_bind fun _ => ?_
      exact yields_bind fun _ => hstore _ _
  | jumpSub =>
      refine yields_bind fun _ => yields_bind fun _ => yields_bind fun _ => ?_
      exact yields_bind fun _ => yields_pure trivial
  | ret =>
      refine yields_bind fun _ => yields_bind fun _ => ?_
      exact yields_bind fun _ => yields_pure trivial
  | jump | setRestart => exact yields_bind fun _ => yields_pure trivial
  | setHandler => exact yields_bind fun _ => yields_bind fun _ => yields_pure trivial
  | branchZero | branchNotZero => exact yields_bind fun _ => yields_jumpIf _ _
  | branch => exact yields_bind fun _ => yields_bind fun _ => yields_jumpIf _ _
  | finishIfZero | stopIfZero =>
      refine yields_bind fun _ => yields_pure ?_
      split_ifs
      · trivial
      · trivial
  | nop | finish | stop => exact yields_pure trivial
  | sleep blocks => exact absurd rfl (hsleep blocks)
  | call function result arguments =>
      refine yields_callNamed protocol ?_ result arguments
      rintro rfl
      exact hticket result arguments rfl

-- The answer for the ticket of the transaction in A.
def ticketAnswer (machine : Machine) (protocol : Protocol) : Answer :=
  match machine.incoming? with
  | none => .value Word.top
  | some tx =>
      if machine.ledger.height < Word.saturatingAdd tx.blockheight protocol.randomSleepBlocks then
        .sleep (Word.saturatingAdd tx.blockheight protocol.randomSleepBlocks)
      else .value (ticket tx machine.contract.id)

theorem run_readTicket (machine : Machine) (protocol : Protocol) :
    (readTicket protocol).run machine = (.ok (machine.ticketAnswer protocol), machine) := by
  simp only [readTicket, run_bind, run_get, ticketAnswer]
  cases machine.incoming? with
  | none => rfl
  | some tx =>
      dsimp only
      split_ifs
      · rfl
      · rfl

-- The machine with the result of a call in its memory.
def stored (machine : Machine) (result : Option String) (value : Word) : Machine :=
  { machine with
    contract :=
      { machine.contract with
        memory := (result.map (machine.contract.memory.write · value)).getD
          machine.contract.memory } }

theorem run_forM_writeCell_eq (result : Option String) (value : Word) (machine : Machine) :
    (result.forM (writeCell · value)).run machine = (.ok (), machine.stored result value) := by
  cases result with
  | none => rfl
  | some name => rfl

theorem run_callTicket (machine : Machine) (protocol : Protocol) (line : Nat)
    (result : Option String) (arguments : List String) :
    (execute protocol line (.call .transactionTicket result arguments)).run machine =
      match machine.ticketAnswer protocol with
      | .value value => (.ok .next, machine.stored result value)
      | .sleep untilBlock => (.ok (.retry untilBlock), machine.stored result 0) := by
  simp only [execute, callNamed, call, run_bind, run_get, run_readTicket]
  cases machine.ticketAnswer protocol with
  | value value => simp only [run_bind, run_forM_writeCell_eq, run_pure]
  | sleep untilBlock => simp only [run_bind, run_forM_writeCell_eq, run_pure]

-- The number of blocks that a sleep is to last.
def nap (machine : Machine) (blocks : Option String) : Word :=
  max ((blocks.map machine.contract.memory.read).getD 1) 1

theorem toNat_nap (machine : Machine) (blocks : Option String) :
    (machine.nap blocks).toNat =
      max ((blocks.map machine.contract.memory.read).getD 1).toNat 1 :=
  Word.toNat_max _ _

theorem nap_ne_zero (machine : Machine) (blocks : Option String) : machine.nap blocks ≠ 0 := by
  intro hzero
  have hnap := machine.toNat_nap blocks
  rw [hzero] at hnap
  have hpos := Nat.le_max_right ((blocks.map machine.contract.memory.read).getD 1).toNat 1
  rw [← hnap] at hpos
  exact absurd hpos (by decide)

theorem run_sleep (machine : Machine) (protocol : Protocol) (line : Nat)
    (blocks : Option String) :
    (execute protocol line (.sleep blocks)).run machine =
      (.ok (.sleep (Word.saturatingAdd machine.ledger.height (machine.nap blocks))), machine) := by
  cases blocks with
  | none => rfl
  | some name => rfl

theorem ticketAnswer_eq_sleep {machine : Machine} {protocol : Protocol} {untilBlock : Word}
    (hanswer : machine.ticketAnswer protocol = .sleep untilBlock) :
    ∃ tx, machine.incoming? = some tx ∧ machine.ledger.height < untilBlock ∧
      untilBlock = Word.saturatingAdd tx.blockheight protocol.randomSleepBlocks := by
  unfold ticketAnswer at hanswer
  cases hincoming : machine.incoming? with
  | none =>
      rw [hincoming] at hanswer
      cases hanswer
  | some tx =>
      simp only [hincoming] at hanswer
      split_ifs at hanswer with hyoung
      cases hanswer
      exact ⟨tx, rfl, hyoung, rfl⟩

-- An instruction that puts the contract to sleep asks for it, or for a ticket that is not ready.
theorem sleeping_of_transfer {machine after next : Machine} {protocol : Protocol} {line : Nat}
    {instruction : Instruction} {flow : Flow} {untilBlock : Word}
    (hrun : (execute protocol line instruction).run machine = (.ok flow, after))
    (htransfer : after.transfer line flow = (.halted (.sleeping untilBlock), next)) :
    (∃ blocks, instruction = .sleep blocks ∧
      untilBlock = Word.saturatingAdd machine.ledger.height (machine.nap blocks) ∧
      next = ((machine.goto (line + 1)).fallAsleep untilBlock).2) ∨
    (∃ result arguments, instruction = .call .transactionTicket result arguments ∧
      machine.ticketAnswer protocol = .sleep untilBlock ∧
      next = ((machine.stored result 0).fallAsleep untilBlock).2) := by
  by_cases hsleep : ∃ blocks, instruction = .sleep blocks
  · obtain ⟨blocks, rfl⟩ := hsleep
    rw [run_sleep] at hrun
    cases hrun
    cases htransfer
    exact .inl ⟨blocks, rfl, rfl, rfl⟩
  · by_cases hticket : ∃ result arguments, instruction = .call .transactionTicket result arguments
    · obtain ⟨result, arguments, rfl⟩ := hticket
      rw [run_callTicket] at hrun
      cases hanswer : machine.ticketAnswer protocol with
      | value value =>
          rw [hanswer] at hrun
          cases hrun
          cases htransfer
      | sleep ripe =>
          rw [hanswer] at hrun
          cases hrun
          cases htransfer
          exact .inr ⟨result, arguments, rfl, rfl, rfl⟩
    · have hawake := yields_execute protocol line (fun blocks heq => hsleep ⟨blocks, heq⟩)
        (fun result arguments heq => hticket ⟨result, arguments, heq⟩) _ _ _ hrun
      cases flow with
      | sleep | retry => exact absurd hawake id
      | next | jump | stop | finish => cases htransfer

theorem handle_ne_sleeping (machine : Machine) (fault : Fault) (untilBlock : Word) :
    (machine.handle fault).1 ≠ .halted (.sleeping untilBlock) := by
  unfold handle
  split
  · split_ifs
    · exact Outcome.noConfusion
    · nofun
  · nofun

theorem height_charged (machine : Machine) (line : Nat) (fee : Word) :
    ((machine.arrived line).charged fee).ledger.height = machine.ledger.height :=
  Ledger.height_setBalance _ _ _

theorem incoming?_of_transactions_eq {machine other : Machine}
    (hid : other.contract.id = machine.contract.id) (ha : other.contract.a = machine.contract.a)
    (htransactions : other.ledger.transactions = machine.ledger.transactions) :
    other.incoming? = machine.incoming? := by
  rw [incoming?, Ledger.transaction?, hid, ha, htransactions, incoming?, Ledger.transaction?]

-- Paying for an instruction does not change what a ticket is.
theorem ticketAnswer_charged (machine : Machine) (protocol : Protocol) (line : Nat) (fee : Word) :
    ((machine.arrived line).charged fee).ticketAnswer protocol = machine.ticketAnswer protocol := by
  have hincoming : ((machine.arrived line).charged fee).incoming? = machine.incoming? :=
    incoming?_of_transactions_eq rfl rfl (transactions_withdrawn _ _)
  rw [ticketAnswer, hincoming, height_charged, ticketAnswer]
  rfl

-- All the ways in which a step can put the contract to sleep, with the machine that is left.
inductive Dozes (machine : Machine) (protocol : Protocol) : Word → Machine → Prop
  | sleeps {line : Nat} {fee : Word} {blocks : Option String}
      (hnext : machine.contract.program.nextExecutable? machine.contract.ip = some line)
      (hline : machine.contract.program.line? line = some (.code (.sleep blocks))) :
      Dozes machine protocol (Word.saturatingAdd machine.ledger.height (machine.nap blocks))
        ((((machine.arrived line).charged fee).goto (line + 1)).fallAsleep
          (Word.saturatingAdd machine.ledger.height (machine.nap blocks))).2
  | waits {line : Nat} {fee : Word} {result : Option String} {arguments : List String}
      {untilBlock : Word}
      (hnext : machine.contract.program.nextExecutable? machine.contract.ip = some line)
      (hline : machine.contract.program.line? line =
        some (.code (.call .transactionTicket result arguments)))
      (hanswer : machine.ticketAnswer protocol = .sleep untilBlock) :
      Dozes machine protocol untilBlock
        ((((machine.arrived line).charged fee).stored result 0).fallAsleep untilBlock).2

theorem dozes_of_step {machine next : Machine} {protocol : Protocol} {breakpoints : Breakpoints}
    {untilBlock : Word}
    (hstep : machine.step protocol breakpoints = (.halted (.sleeping untilBlock), next)) :
    Dozes machine protocol untilBlock next := by
  have hcases := advance_cases machine protocol
  rw [step_eq_halted_iff.mp hstep] at hcases
  generalize hresult : (Outcome.halted (.sleeping untilBlock), next) = result at hcases
  cases hcases with
  | rests | ends | stumbles | freezes => cases hresult
  | @flows _ line _ fee _ _ hnext hline _ _ hrun =>
      rcases sleeping_of_transfer hrun hresult.symm with
        ⟨blocks, rfl, hblock, hasleep⟩ | ⟨result, arguments, rfl, hanswer, hasleep⟩
      · have hnap : ((machine.arrived line).charged fee).nap blocks = machine.nap blocks := rfl
        rw [height_charged, hnap] at hblock
        subst hblock
        rw [hasleep]
        exact .sleeps hnext hline
      · rw [ticketAnswer_charged] at hanswer
        rw [hasleep]
        exact .waits hnext hline hanswer
  | faults => exact absurd (congrArg Prod.fst hresult).symm (handle_ne_sleeping _ _ _)

theorem Dozes.eq_of_sleep {machine asleep : Machine} {protocol : Protocol} {untilBlock : Word}
    (hdozes : Dozes machine protocol untilBlock asleep) {blocks : Option String}
    (hinstruction : machine.instruction? = some (.sleep blocks)) :
    untilBlock = Word.saturatingAdd machine.ledger.height (machine.nap blocks) := by
  cases hdozes with
  | sleeps hnext hline =>
      rw [instruction?_eq_some hnext hline] at hinstruction
      cases hinstruction
      rfl
  | waits hnext hline =>
      rw [instruction?_eq_some hnext hline] at hinstruction
      cases hinstruction

-- The block at which a sleeper rises is ahead of it, unless there is no block ahead.
theorem Dozes.height_lt {machine asleep : Machine} {protocol : Protocol} {untilBlock : Word}
    (hdozes : Dozes machine protocol untilBlock asleep)
    (hheight : machine.ledger.height ≠ Word.top) :
    machine.ledger.height < untilBlock := by
  cases hdozes with
  | sleeps => exact Word.lt_saturatingAdd hheight (nap_ne_zero machine _)
  | waits _ _ hanswer =>
      obtain ⟨-, -, hyoung, -⟩ := ticketAnswer_eq_sleep hanswer
      exact hyoung

end Machine

end ContractSim
