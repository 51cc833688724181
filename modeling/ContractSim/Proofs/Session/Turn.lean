import ContractSim.Proofs.Session.History
import ContractSim.Proofs.Simulation.Sleep

namespace ContractSim

open Relation

namespace Machine

-- A step of a slice that is not its last.
def GoesOn (protocol : Protocol) (breakpoints : Breakpoints) (goOn : Machine → Bool)
    (machine next : Machine) : Prop :=
  machine.step protocol breakpoints = (.running, next) ∧ goOn next = true

variable {protocol : Protocol} {breakpoints : Breakpoints} {goOn : Machine → Bool}

-- What every step keeps is kept by the steps of a slice.
theorem forall_of_goesOn {property : Machine → Prop}
    (hstep : ∀ machine, property machine → property (machine.step protocol breakpoints).2)
    {first last : Machine} (hsteps : ReflTransGen (GoesOn protocol breakpoints goOn) first last)
    (hfirst : property first) : property last := by
  induction hsteps with
  | refl => exact hfirst
  | @tail middle last _ hlast ih =>
      have hnext := hstep middle ih
      rw [hlast.1] at hnext
      exact hnext

theorem slice_of_goesOn {first machine next : Machine} {outcome : Outcome}
    (hsteps : ReflTransGen (GoesOn protocol breakpoints goOn) first machine)
    (hstep : machine.step protocol breakpoints = (outcome, next))
    (hend : outcome = .running → goOn next = false) :
    first.slice protocol breakpoints goOn = (outcome, next) := by
  have hloop : ∃ count, Loop protocol breakpoints goOn count first outcome next := by
    induction hsteps using ReflTransGen.head_induction_on with
    | refl => exact ⟨1, .last hstep hend⟩
    | head hfirst _ ih =>
        obtain ⟨count, hloop⟩ := ih
        exact ⟨count + 1, .more hfirst.1 hfirst.2 hloop⟩
  obtain ⟨count, hloop⟩ := hloop
  rw [slice, hloop.stepWhile_eq]
  rfl

theorem height_step (machine : Machine) (protocol : Protocol) (breakpoints : Breakpoints) :
    (machine.step protocol breakpoints).2.ledger.height = machine.ledger.height := by
  rw [← step_snd, step_nil]
  rcases machine.spends_advance protocol with ⟨hspends, -⟩ | ⟨_, -, hspends⟩
  · exact hspends.height
  · exact hspends.height

end Machine

namespace Session

open Machine Simulation

-- The debugger command that a command carries out, and its contract.
def debugs (session : Session) : SessionCommand → Option (Word × DebugCommand)
  | .run id => some (id, .run session.debugger)
  | .stepInto id => some (id, .stepInto session.debugger)
  | .stepOver id => some (id, .stepOver session.debugger)
  | .stepOut id => some (id, .stepOut session.debugger)
  | _ => none

-- A command gives a contract its turn: steps from a machine on, as long as a test is passed. The
-- turns of a block that is refused do not count.
inductive Gives (session : Session) :
    SessionCommand → Machine → Breakpoints → (Machine → Bool) → Prop
  | debug {command : SessionCommand} {id : Word} {kind : DebugCommand} {contract : Contract}
      (hdebugs : session.debugs command = some (id, kind))
      (hfound : session.simulation.contract? id = some contract) :
      Gives session command (session.simulation.machine contract)
        (session.debugger.breakpoints contract.id)
        fun machine => kind.goOn contract machine.contract.codeStack.depth
  | forge {report : ForgeReport} {before after : List Contract} {contract : Contract}
      (hok : session.forge.1 = .ok report)
      (hcontracts : session.simulation.contracts = before ++ contract :: after)
      (hrunning : contract.running = true) :
      Gives session .forge
        ⟨contract, (runContracts session.simulation.protocol session.debugger.table
          session.simulation.ledger before).2.1⟩
        (session.debugger.table.of contract.id) fun _ => true

-- A command takes a step of a contract.
def Takes (session : Session) (command : SessionCommand) (machine : Machine) (outcome : Outcome)
    (next : Machine) : Prop :=
  ∃ first breakpoints goOn, Gives session command first breakpoints goOn ∧
    ReflTransGen (GoesOn session.simulation.protocol breakpoints goOn) first machine ∧
    machine.step session.simulation.protocol breakpoints = (outcome, next)

variable {session : Session} {command : SessionCommand} {machine next : Machine}
  {outcome : Outcome}

theorem Gives.height {breakpoints : Breakpoints} {goOn : Machine → Bool}
    (hgives : Gives session command machine breakpoints goOn) :
    machine.ledger.height = session.height := by
  cases hgives with
  | debug => rfl
  | forge => exact height_runContracts _ _ _ _

theorem Gives.transactions {breakpoints : Breakpoints} {goOn : Machine → Bool}
    (hgives : Gives session command machine breakpoints goOn) :
    machine.ledger.transactions = session.simulation.ledger.transactions := by
  cases hgives with
  | debug => rfl
  | forge => exact transactions_runContracts _ _ _ _

theorem Gives.mem {breakpoints : Breakpoints} {goOn : Machine → Bool}
    (hgives : Gives session command machine breakpoints goOn) :
    machine.contract ∈ session.simulation.contracts := by
  cases hgives with
  | debug _ hfound => exact List.mem_of_find?_eq_some hfound
  | forge _ hcontracts =>
      rw [hcontracts]
      exact List.mem_append_right _ List.mem_cons_self

theorem Takes.height (htakes : Takes session command machine outcome next) :
    machine.ledger.height = session.height := by
  obtain ⟨first, breakpoints, goOn, hgives, hsteps, -⟩ := htakes
  have hkeep : ∀ machine : Machine, machine.ledger.height = session.height →
      (machine.step session.simulation.protocol breakpoints).2.ledger.height = session.height :=
    fun machine hmachine => (machine.height_step _ _).trans hmachine
  exact forall_of_goesOn hkeep hsteps hgives.height

theorem Takes.transactions (htakes : Takes session command machine outcome next) :
    machine.ledger.transactions = session.simulation.ledger.transactions := by
  obtain ⟨first, breakpoints, goOn, hgives, hsteps, -⟩ := htakes
  have hkeep : ∀ machine : Machine,
      machine.ledger.transactions = session.simulation.ledger.transactions →
      (machine.step session.simulation.protocol breakpoints).2.ledger.transactions =
        session.simulation.ledger.transactions :=
    fun machine hmachine => (machine.works_step _ _).transactions.trans hmachine
  exact forall_of_goesOn hkeep hsteps hgives.transactions

theorem Takes.leaves (htakes : Takes session command machine outcome next)
    (hlawful : ∀ contract ∈ session.simulation.contracts, contract.Lawful) :
    Leaves (outcome, next) := by
  obtain ⟨first, breakpoints, goOn, hgives, hsteps, hstep⟩ := htakes
  have hkeep : ∀ machine : Machine, machine.contract.Lawful →
      (machine.step session.simulation.protocol breakpoints).2.contract.Lawful :=
    fun machine hmachine => (leaves_step hmachine _ _).lawful
  have hmachine := forall_of_goesOn hkeep hsteps (hlawful _ hgives.mem)
  rw [← hstep]
  exact leaves_step hmachine _ _

-- A debugger command takes the machine back that its slice ends with.
theorem simulation_of_debugs {id : Word} {kind : DebugCommand} {contract : Contract}
    (hdebugs : session.debugs command = some (id, kind))
    (hfound : session.simulation.contract? id = some contract) :
    (session.perform command).simulation =
      session.simulation.install contract.id
        ((session.simulation.machine contract).slice session.simulation.protocol
          (session.debugger.breakpoints contract.id)
          fun machine => kind.goOn contract machine.contract.codeStack.depth).2 := by
  have hperform := DebugCommand.perform_eq_ok hfound kind
  cases command with
  | run | stepInto | stepOver | stepOut =>
      cases hdebugs
      simp only [perform, run, stepInto, stepOver, stepOut, debug]
      rw [DebugCommand.perform] at hperform
      rw [hperform]
      rfl
  | _ => cases hdebugs

theorem simulation_of_not_found {id : Word} {kind : DebugCommand}
    (hdebugs : session.debugs command = some (id, kind))
    (hfound : session.simulation.contract? id = none) :
    (session.perform command).simulation = session.simulation := by
  obtain ⟨error, hperform⟩ := DebugCommand.perform_eq_error hfound kind
  cases command with
  | run | stepInto | stepOver | stepOut =>
      cases hdebugs
      simp only [perform, run, stepInto, stepOver, stepOut, debug]
      rw [DebugCommand.perform] at hperform
      rw [hperform]
  | _ => cases hdebugs

-- A step that halts is the last of its turn: the machine that it leaves is where the contract was.
-- In a block that is before the payments are moved.
theorem Takes.halts {reason : HaltReason}
    (htakes : Takes session command machine (.halted reason) next) :
    (command ≠ .forge ∧ next.contract ∈ (session.perform command).simulation.contracts) ∨
    (command = .forge ∧ (∃ report, session.forge.1 = .ok report) ∧
      next.contract ∈ (session.simulation.ran session.debugger.table).contracts) := by
  obtain ⟨first, breakpoints, goOn, hgives, hsteps, hstep⟩ := htakes
  have hslice := slice_of_goesOn hsteps hstep nofun
  cases hgives with
  | @debug _ id kind contract hdebugs hfound =>
      have hforge : command ≠ .forge := by
        rintro rfl
        cases hdebugs
      obtain rfl := id_of_contract? hfound
      have hworks := (session.simulation.machine contract).works_slice session.simulation.protocol
        (session.debugger.breakpoints contract.id)
        fun machine => kind.goOn contract machine.contract.codeStack.depth
      have hinstall := contract?_install hfound (congrArg Terms.id hworks.terms)
      rw [hslice] at hinstall
      rw [simulation_of_debugs hdebugs hfound, hslice]
      exact .inl ⟨hforge, List.mem_of_find?_eq_some hinstall⟩
  | @forge report before after contract hok hcontracts hrunning =>
      have hran := getElem?_runContracts session.simulation.protocol session.debugger.table before
        after hrunning session.simulation.ledger
      rw [← hcontracts, Machine.run, hslice] at hran
      exact .inr ⟨rfl, ⟨report, hok⟩, List.mem_of_getElem? hran⟩

-- Whoever does not run takes no step when it gets a turn.
theorem Takes.rests (htakes : Takes session command machine outcome next) {contract : Contract}
    (hnodup : (session.simulation.contracts.map Contract.id).Nodup)
    (hmem : contract ∈ session.simulation.contracts) (hrunning : contract.running = false)
    (hid : machine.contract.id = contract.id) :
    outcome = .halted .notRunning ∧ next = machine ∧ machine.contract = contract := by
  obtain ⟨first, breakpoints, goOn, hgives, hsteps, hstep⟩ := htakes
  have hkeep : ∀ machine : Machine, machine.contract.id = first.contract.id →
      (machine.step session.simulation.protocol breakpoints).2.contract.id = first.contract.id :=
    fun machine hmachine => (congrArg Terms.id (machine.works_step _ _).terms).trans hmachine
  have hfirst : first.contract = contract := by
    have hsame := forall_of_goesOn hkeep hsteps rfl
    exact List.inj_on_of_nodup_map hnodup hgives.mem hmem (hsame.symm.trans hid)
  rw [← hfirst] at hrunning
  rcases ReflTransGen.cases_head hsteps with rfl | ⟨second, hsecond, -⟩
  · rw [step_of_not_running hrunning] at hstep
    cases hstep
    exact ⟨rfl, rfl, hfirst⟩
  · have hgoes := hsecond.1
    rw [step_of_not_running hrunning] at hgoes
    cases hgoes

end Session

end ContractSim
