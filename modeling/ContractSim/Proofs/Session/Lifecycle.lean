import ContractSim.Proofs.Session.Conservation
import ContractSim.Proofs.Simulation.Lifecycle

namespace ContractSim

-- The outcome that a debugger reports.
def DebugStatus.outcome : DebugStatus → Outcome
  | .paused _ _ => .running
  | .breakpoint line _ => .breakpoint line
  | .halted _ _ reason => .halted reason

theorem Debugger.outcome_statusOf (line steps : Nat) (outcome : Outcome) :
    (statusOf line steps outcome).outcome = outcome := by
  cases outcome with
  | running | breakpoint | halted => rfl

namespace Simulation

variable {simulation : Simulation} {id : Word}

-- Work on a contract is found where the contract was.
theorem agrees_onMachine {α : Type} {work : Machine → α × Machine} (told : α → Outcome)
    (hlawful : ∀ contract ∈ simulation.contracts, contract.Lawful)
    (hterms : ∀ machine : Machine, (work machine).2.contract.terms = machine.contract.terms)
    (hleaves : ∀ machine : Machine, machine.contract.Lawful →
      Machine.Leaves (told (work machine).1, (work machine).2))
    {answer : α} {next : Simulation} (hwork : simulation.onMachine id work = .ok (answer, next)) :
    ∃ contract, next.contract? id = some contract ∧ (told answer).Agrees contract := by
  obtain ⟨target, hfound, rfl, rfl⟩ := onMachine_eq_ok hwork
  have htarget := hlawful target (List.mem_of_find?_eq_some hfound)
  have hid := congrArg Terms.id (hterms (simulation.machine target))
  exact ⟨_, contract?_install hfound (hid.trans (id_of_contract? hfound)),
    (hleaves (simulation.machine target) htarget).agrees⟩

theorem agrees_debugCommand (hlawful : ∀ contract ∈ simulation.contracts, contract.Lawful)
    {command : DebugCommand} {status : DebugStatus} {next : Simulation}
    (hperform : command.perform simulation id = .ok (status, next)) :
    ∃ contract, next.contract? id = some contract ∧ status.outcome.Agrees contract := by
  cases hfound : simulation.contract? id with
  | none =>
      obtain ⟨error, herror⟩ := DebugCommand.perform_eq_error hfound command
      rw [herror] at hperform
      cases hperform
  | some target =>
      have htarget := hlawful target (List.mem_of_find?_eq_some hfound)
      obtain rfl := id_of_contract? hfound
      let final := (simulation.machine target).slice simulation.protocol
        (command.debugger.breakpoints target.id)
        fun machine => command.goOn target machine.contract.codeStack.depth
      have hid : final.2.contract.id = target.id :=
        congrArg Terms.id ((simulation.machine target).works_slice _ _ _).terms
      have hleaves : Machine.Leaves final := Machine.leaves_slice htarget
      rw [DebugCommand.perform_eq_ok hfound] at hperform
      cases hperform
      refine ⟨final.2.contract, contract?_install hfound hid, ?_⟩
      rw [Debugger.outcome_statusOf]
      exact hleaves.agrees

theorem Treats.debug {turns lives : Contract → Contract → Prop} {session : Session}
    (htreats : Treats session.simulation.protocol turns lives) {id : Word}
    (command : DebugCommand)
    {act : Debugger → Simulation → Word → Except DebugError (DebugStatus × Simulation)}
    (hact : act session.debugger session.simulation id = command.perform session.simulation id) :
    List.Forall₂ turns session.simulation.contracts
      (session.debug id act).2.simulation.contracts := by
  cases hfound : session.simulation.contract? id with
  | none =>
      obtain ⟨error, hperform⟩ := DebugCommand.perform_eq_error hfound command
      rw [Session.debug, hact, hperform]
      exact List.forall₂_same.mpr fun contract _ => htreats.refl contract
  | some target =>
      obtain rfl := id_of_contract? hfound
      rw [Session.debug, hact, DebugCommand.perform_eq_ok hfound]
      exact forall₂_updateFirst _ _ htreats.refl hfound
        (htreats.slice (session.simulation.machine target) _ _)

-- Contracts keep their places. Commands that forge no block let one contract run at most, and new
-- contracts come last.
theorem Treats.perform {turns lives : Contract → Contract → Prop} {session : Session}
    (htreats : Treats session.simulation.protocol turns lives) (command : SessionCommand) :
    ∃ kept new, (session.perform command).simulation.contracts = kept ++ new ∧
      (∀ contract ∈ new, contract.Fresh) ∧
      (List.Forall₂ turns session.simulation.contracts kept ∨
        (command = .forge ∧ List.Forall₂ lives session.simulation.contracts kept)) := by
  have hsame : List.Forall₂ turns session.simulation.contracts session.simulation.contracts :=
    List.forall₂_same.mpr fun contract _ => htreats.refl contract
  have hnone : ∀ contract ∈ ([] : List Contract), contract.Fresh := List.forall_mem_nil _
  cases command with
  | deploy deployment =>
      rcases session.simulation.contracts_deploy deployment with
        hcontracts | ⟨deployed, hfresh, hcontracts⟩
      · exact ⟨_, [], hcontracts.trans (List.append_nil _).symm, hnone, .inl hsame⟩
      · exact ⟨_, [deployed], hcontracts, (List.forall_mem_singleton).mpr hfresh, .inl hsame⟩
  | loadScenario text =>
      refine ⟨session.simulation.contracts, [], ?_, hnone, .inl hsame⟩
      rw [List.append_nil, Session.perform, Session.simulation_loadScenario]
  | toggleBreakpoint contract line =>
      refine ⟨session.simulation.contracts, [], ?_, hnone, .inl hsame⟩
      rw [List.append_nil, Session.perform, Session.simulation_toggleBreakpoint]
  | addTransaction | clearBreakpoints =>
      exact ⟨session.simulation.contracts, [], (List.append_nil _).symm, hnone, .inl hsame⟩
  | run contract =>
      exact ⟨_, [], (List.append_nil _).symm, hnone,
        .inl (htreats.debug (.run session.debugger) rfl)⟩
  | stepInto contract =>
      exact ⟨_, [], (List.append_nil _).symm, hnone,
        .inl (htreats.debug (.stepInto session.debugger) rfl)⟩
  | stepOver contract =>
      exact ⟨_, [], (List.append_nil _).symm, hnone,
        .inl (htreats.debug (.stepOver session.debugger) rfl)⟩
  | stepOut contract =>
      exact ⟨_, [], (List.append_nil _).symm, hnone,
        .inl (htreats.debug (.stepOut session.debugger) rfl)⟩
  | forge =>
      rcases forge_cases session.simulation session.due session.debugger.table with
        ⟨-, error, hforge⟩ | ⟨-, report, paid, settled, hforge, -⟩
      · refine ⟨session.simulation.contracts, [], ?_, hnone, .inl hsame⟩
        rw [List.append_nil, Session.perform, Session.forge, hforge]
      · refine ⟨_, [], ?_, hnone, .inr ⟨rfl, htreats.activate session.debugger.table settled⟩⟩
        rw [List.append_nil, Session.perform, Session.forge, hforge]

end Simulation

namespace Session

open Simulation

theorem contracts_perform (session : Session) (command : SessionCommand) :
    ∃ kept new, (session.perform command).simulation.contracts = kept ++ new ∧
      (∀ contract ∈ new, contract.Fresh) ∧
      (List.Forall₂ Contract.Turns session.simulation.contracts kept ∨
        (command = .forge ∧ List.Forall₂ Contract.Lives session.simulation.contracts kept)) :=
  (treats_lives session.simulation.protocol).perform command

theorem lawful_perform {session : Session}
    (hlawful : ∀ contract ∈ session.simulation.contracts, contract.Lawful)
    (command : SessionCommand) :
    ∀ contract ∈ (session.perform command).simulation.contracts, contract.Lawful := by
  obtain ⟨kept, new, hcontracts, hnew, hkept⟩ := session.contracts_perform command
  rw [hcontracts]
  intro contract hmem
  rcases List.mem_append.mp hmem with hold | hmem
  · rcases hkept with hturns | ⟨-, hlives⟩
    · exact forall_mem_of_forall₂ hturns (fun _ _ hturns => hturns.lawful) hlawful contract hold
    · exact forall_mem_of_forall₂ hlives (fun _ _ hlives => hlives.lawful) hlawful contract hold
  · have hruns := (hnew contract hmem).runs
    exact ⟨⟨.running, hruns.stands⟩, hruns.told⟩

theorem lawful_after {session : Session}
    (hlawful : ∀ contract ∈ session.simulation.contracts, contract.Lawful)
    (commands : List SessionCommand) :
    ∀ contract ∈ (after commands session).simulation.contracts, contract.Lawful := by
  induction commands generalizing session with
  | nil => exact hlawful
  | cons command rest ih => exact ih (lawful_perform hlawful command)

-- Whoever does not run is left alone, but for what a block does.
theorem rests_perform {session : Session} (command : SessionCommand) {index : Nat}
    {contract : Contract} (hcontract : session.simulation.contracts[index]? = some contract)
    (hrunning : contract.running = false) :
    ∃ later, (session.perform command).simulation.contracts[index]? = some later ∧
      (later = contract ∨
        (command = .forge ∧
          (later = { contract with queue := [] } ∨
            (contract.dead = false ∧ later = { contract with queue := [] }.reactivate)))) := by
  obtain ⟨kept, new, hcontracts, -, hkept⟩ := session.contracts_perform command
  have hplace : ∀ later, kept[index]? = some later →
      (session.perform command).simulation.contracts[index]? = some later := by
    intro later hlater
    rw [hcontracts, List.getElem?_append_left (List.getElem?_eq_some_iff.mp hlater).1]
    exact hlater
  rcases hkept with hturns | ⟨hforge, hlives⟩
  · obtain ⟨later, hlater, hturn⟩ := exists_getElem?_of_forall₂ hturns hcontract
    exact ⟨later, hplace later hlater, .inl (hturn.rests hrunning)⟩
  · obtain ⟨later, hlater, hlive⟩ := exists_getElem?_of_forall₂ hlives hcontract
    exact ⟨later, hplace later hlater, .inr ⟨hforge, hlive.rests hrunning⟩⟩

-- Nothing brings a dead contract back.
theorem dead_after {session : Session} (commands : List SessionCommand) {index : Nat}
    {contract : Contract} (hcontract : session.simulation.contracts[index]? = some contract)
    (hdead : contract.Stands .dead) :
    ∃ later, (after commands session).simulation.contracts[index]? = some later ∧
      later.Stands .dead ∧ later.exception = contract.exception := by
  induction commands generalizing session contract with
  | nil => exact ⟨contract, hcontract, hdead, rfl⟩
  | cons command rest ih =>
      have hflag : contract.dead = true := congrArg Flags.dead hdead
      obtain ⟨next, hnext, hcases⟩ := rests_perform command hcontract hdead.running_eq
      have hsame : next.Stands .dead ∧ next.exception = contract.exception := by
        rcases hcases with rfl | ⟨-, rfl | ⟨halive, -⟩⟩
        · exact ⟨hdead, rfl⟩
        · exact ⟨hdead, rfl⟩
        · rw [hflag] at halive
          cases halive
      obtain ⟨later, hlater, hstill, hexception⟩ := ih hnext hsame.1
      exact ⟨later, hlater, hstill, hexception.trans hsame.2⟩

-- The life of contracts in a session, as it stands and with whatever is done to it next.
structure LifeInOrder (session : Session) : Prop where
  -- The marks are one of six combinations, the status names it, and the dead alone have something
  -- to say, which is never empty.
  marks : ∀ contract ∈ session.simulation.contracts,
    (∃! status : Status, contract.flags = status.flags) ∧
    contract.flags = contract.status.flags ∧
    contract.exception.isSome = contract.dead ∧
    (contract.exception.isSome = true ↔ contract.status = .dead) ∧
    contract.exception ≠ some ""
  -- Steps, runs and debugger commands tell where they leave the contract.
  step : ∀ id breakpoints outcome next,
    session.simulation.stepContract id breakpoints = .ok (outcome, next) →
    ∃ contract, next.contract? id = some contract ∧ outcome.Agrees contract
  run : ∀ id breakpoints result next,
    session.simulation.runContract id breakpoints = .ok (result, next) →
    ∃ contract, next.contract? id = some contract ∧ result.outcome.Agrees contract
  debug : ∀ (command : DebugCommand) id status next,
    command.perform session.simulation id = .ok (status, next) →
    ∃ contract, next.contract? id = some contract ∧ status.outcome.Agrees contract
  -- So do the runs of a block, for the contracts that ran and before any of them wakes up.
  block : ∀ report, session.forge.1 = .ok report →
    List.Forall₂
      (fun run contract => run.contract = contract.id ∧ run.result.outcome.Agrees contract)
      report.executed
      (((session.simulation.contracts.zip
        (session.simulation.ran session.debugger.table).contracts).filter
          (·.1.running)).map Prod.snd)
  -- A contract that does not run can only lose its queue and wake up, and only in a block. What
  -- it has worked out stays.
  rests : ∀ (command : SessionCommand) (index : Nat) (contract : Contract),
    session.simulation.contracts[index]? = some contract → contract.running = false →
    ∃ later, (session.perform command).simulation.contracts[index]? = some later ∧
      contract.Untouched later ∧
      (later = contract ∨
        (command = .forge ∧
          (later = { contract with queue := [] } ∨
            (contract.dead = false ∧
              later = { contract with
                queue := [], running := true, stopped := false, finished := false,
                frozen := false, sleepUntil := none }))))
  dead : ∀ (commands : List SessionCommand) (index : Nat) (contract : Contract),
    session.simulation.contracts[index]? = some contract → contract.dead = true →
    ∃ later, (after commands session).simulation.contracts[index]? = some later ∧
      later.status = .dead ∧ later.exception = contract.exception

-- The life of a contract is a state machine, whatever is done to the session.
theorem life_in_order (settings : Settings) (commands : List SessionCommand) :
    LifeInOrder (reached settings commands) := by
  have hlawful : ∀ contract ∈ (reached settings commands).simulation.contracts,
      contract.Lawful :=
    lawful_after (fun _ hmem => absurd hmem List.not_mem_nil) commands
  generalize reached settings commands = session at hlawful
  constructor
  · intro contract hmem
    have hcontract := hlawful contract hmem
    exact ⟨hcontract.existsUnique_stands, hcontract.stands_status, hcontract.told.1,
      hcontract.exception_isSome, hcontract.told.2⟩
  · intro id breakpoints outcome next hstep
    refine agrees_onMachine (fun outcome => outcome) hlawful ?_ ?_ hstep
    · exact fun machine => (machine.works_step session.simulation.protocol breakpoints).terms
    · exact fun _ hmachine => Machine.leaves_step hmachine session.simulation.protocol breakpoints
  · intro id breakpoints result next hrun
    refine agrees_onMachine RunResult.outcome hlawful ?_ ?_ hrun
    · exact fun machine => (machine.works_slice session.simulation.protocol breakpoints _).terms
    · exact fun _ hmachine => Machine.leaves_run hmachine
  · intro command id status next hperform
    exact agrees_debugCommand hlawful hperform
  · intro report hok
    rcases forge_cases session.simulation session.due session.debugger.table with
      ⟨-, error, hforge⟩ | ⟨-, _, paid, settled, hforge, -, -, hexecuted, -⟩
    · rw [forge, hforge] at hok
      cases hok
    · rw [forge, hforge] at hok
      cases hok
      rw [hexecuted]
      exact agrees_runContracts session.simulation.protocol session.debugger.table
        session.simulation.ledger hlawful
  · intro command index contract hcontract hrunning
    obtain ⟨later, hlater, hcases⟩ := rests_perform command hcontract hrunning
    refine ⟨later, hlater, ?_, hcases⟩
    rcases hcases with rfl | ⟨-, rfl | ⟨-, rfl⟩⟩
    · exact Contract.untouched_refl later
    · exact contract.untouched_cleared
    · exact contract.untouched_reactivate
  · intro more index contract hcontract hdead
    have hstands := (hlawful contract (List.mem_of_getElem? hcontract)).stands_status
    have hstatus : contract.status = .dead := by
      simp only [Contract.status, hdead, ite_true]
    rw [hstatus] at hstands
    obtain ⟨later, hlater, hstill, hexception⟩ := dead_after more hcontract hstands
    exact ⟨later, hlater, hstill.status_eq, hexception⟩

end Session

end ContractSim
