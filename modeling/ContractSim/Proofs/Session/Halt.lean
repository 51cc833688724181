import ContractSim.Proofs.Session.Sleep

namespace ContractSim

open Relation

namespace Machine

-- A halt that a result tells of is one of its own step, and the contract has taken note of the
-- balance that it is left with.
def Notes (result : Outcome × Machine) : Prop :=
  ∀ reason, result.1 = .halted reason →
    reason ≠ .notRunning ∧ result.2.contract.running = false ∧
      result.2.contract.previousBalance = result.2.balance

theorem notes_die (machine : Machine) (fault : Fault) : Notes (machine.die fault) := by
  rintro _ ⟨⟩
  exact ⟨nofun, rfl, rfl⟩

theorem notes_transfer (machine : Machine) (line : Nat) (flow : Flow) :
    Notes (machine.transfer line flow) := by
  cases flow with
  | next | jump => exact nofun
  | stop | sleep | retry | finish =>
      rintro _ ⟨⟩
      exact ⟨nofun, rfl, rfl⟩

theorem notes_handle (machine : Machine) (fault : Fault) : Notes (machine.handle fault) := by
  unfold handle
  split
  · split_ifs
    · exact nofun
    · exact notes_die machine fault
  · exact notes_die machine fault

variable {machine next : Machine} {protocol : Protocol} {breakpoints : Breakpoints}
  {goOn : Machine → Bool}

theorem notes_advance (hrunning : machine.contract.running = true) (protocol : Protocol) :
    Notes (machine.advance protocol) := by
  have hcases := advance_cases machine protocol
  generalize machine.advance protocol = result at hcases ⊢
  cases hcases with
  | rests hrests =>
      rw [hrunning] at hrests
      cases hrests
  | ends | stumbles => exact notes_die _ _
  | freezes =>
      rintro _ ⟨⟩
      exact ⟨nofun, rfl, rfl⟩
  | flows => exact notes_transfer _ _ _
  | faults => exact notes_handle _ _

-- Whoever is found resting has not been halted just now.
theorem notes_of_step {reason : HaltReason}
    (hstep : machine.step protocol breakpoints = (.halted reason, next))
    (hreason : reason ≠ .notRunning) :
    next.contract.running = false ∧ next.contract.previousBalance = next.balance := by
  cases hrunning : machine.contract.running with
  | false =>
      rw [step_of_not_running hrunning] at hstep
      cases hstep
      exact absurd rfl hreason
  | true =>
      have hnotes := notes_advance hrunning protocol
      rw [step_eq_halted_iff.mp hstep] at hnotes
      exact (hnotes reason rfl).2

-- Steps that bring a running contract to rest end with one that halts it.
theorem Loop.exists_halt {count : Nat} {final : Machine} {outcome : Outcome}
    (hloop : Loop protocol breakpoints goOn count machine outcome final)
    (hlawful : machine.contract.Lawful) (hrunning : machine.contract.running = true)
    (hrests : final.contract.running = false) :
    ∃ last reason, ReflTransGen (GoesOn protocol breakpoints goOn) machine last ∧
      last.step protocol breakpoints = (.halted reason, final) ∧ reason ≠ .notRunning := by
  induction hloop with
  | @last machine next outcome hstep _ =>
      have hleaves := leaves_step hlawful protocol breakpoints
      rw [hstep] at hleaves
      have hstatus := status_ne_running hleaves.lawful hrests
      cases outcome with
      | running => exact absurd hleaves.agrees hstatus
      | breakpoint => exact absurd hleaves.agrees.1 hstatus
      | halted reason =>
          have hnotes := notes_advance hrunning protocol
          rw [step_eq_halted_iff.mp hstep] at hnotes
          exact ⟨machine, reason, .refl, hstep, (hnotes reason rfl).1⟩
  | @more count machine next final outcome hstep hon _ ih =>
      have hleaves := leaves_step hlawful protocol breakpoints
      rw [hstep] at hleaves
      have hstatus : next.contract.status = .running := hleaves.agrees
      have hstands := hleaves.lawful.stands_status
      rw [hstatus] at hstands
      obtain ⟨last, reason, hsteps, hlast, hreason⟩ :=
        ih hleaves.lawful hstands.running_eq hrests
      exact ⟨last, reason, .head ⟨hstep, hon⟩ hsteps, hlast, hreason⟩

theorem exists_halt_of_slice (hlawful : machine.contract.Lawful)
    (hrunning : machine.contract.running = true)
    (hrests : (machine.slice protocol breakpoints goOn).2.contract.running = false) :
    ∃ last reason, ReflTransGen (GoesOn protocol breakpoints goOn) machine last ∧
      last.step protocol breakpoints =
        (.halted reason, (machine.slice protocol breakpoints goOn).2) ∧
      reason ≠ .notRunning := by
  cases hresult : stepWhile protocol breakpoints goOn machine with
  | none =>
      -- Steps without an end leave the contract running.
      rw [slice, hresult] at hrests
      rw [Option.getD_none, hrunning] at hrests
      cases hrests
  | some result =>
      obtain ⟨count, hloop⟩ := Loop.of_stepWhile hresult
      rw [slice, hresult] at hrests ⊢
      exact hloop.exists_halt hlawful hrunning hrests

end Machine

namespace Session

open Machine Simulation

variable {session : Session} {command : SessionCommand} {machine halted : Machine}
  {reason : HaltReason} {contract : Contract}

theorem Takes.notes (htakes : Takes session command machine (.halted reason) halted)
    (hreason : reason ≠ .notRunning) :
    halted.contract.running = false ∧ halted.contract.previousBalance = halted.balance := by
  obtain ⟨_, _, _, -, -, hstep⟩ := htakes
  exact notes_of_step hstep hreason

-- Commands that give no turns keep the contracts, and new ones come last.
theorem exists_contracts_append (hdebugs : session.debugs command = none)
    (hforge : command ≠ .forge) :
    ∃ new, (session.perform command).simulation.contracts =
      session.simulation.contracts ++ new := by
  cases command with
  | deploy deployment =>
      rcases session.simulation.contracts_deploy deployment with
        hcontracts | ⟨deployed, -, hcontracts⟩
      · exact ⟨[], hcontracts.trans (List.append_nil _).symm⟩
      · exact ⟨[deployed], hcontracts⟩
  | loadScenario text =>
      exact ⟨[], by rw [perform, simulation_loadScenario, List.append_nil]⟩
  | toggleBreakpoint contract line =>
      exact ⟨[], by rw [perform, simulation_toggleBreakpoint, List.append_nil]⟩
  | addTransaction | clearBreakpoints => exact ⟨[], (List.append_nil _).symm⟩
  | run | stepInto | stepOver | stepOut => cases hdebugs
  | forge => exact absurd rfl hforge

-- A block puts no contract to rest that its run has left running.
theorem slice_rests_of_forge {report : ForgeReport} (hok : session.forge.1 = .ok report)
    {before after : List Contract} {old new : Contract}
    (hcontracts : session.simulation.contracts = before ++ old :: after)
    (hrunning : old.running = true)
    (hnew : (session.perform .forge).simulation.contracts[before.length]? = some new)
    (hrests : new.running = false) :
    (slice ⟨old, (runContracts session.simulation.protocol session.debugger.table
        session.simulation.ledger before).2.1⟩ session.simulation.protocol
      (session.debugger.table.of old.id) fun _ => true).2.contract.running = false := by
  obtain ⟨ran, hran, hcases⟩ :=
    exists_getElem?_of_forall₂ (wakes_forge (forge_of_ok hok)).flip hnew
  have hself := getElem?_runContracts session.simulation.protocol session.debugger.table before
    after hrunning session.simulation.ledger
  rw [← hcontracts, Machine.run] at hself
  rw [Option.some.inj (hself.symm.trans hran)]
  rcases hcases with rfl | rfl
  · exact hrests
  · cases hrests

section Turn

variable {index : Nat} {old new : Contract}
  (hold : session.simulation.contracts[index]? = some old)
  (hnew : (session.perform command).simulation.contracts[index]? = some new)
  (hrunning : old.running = true) (hrests : new.running = false)

include hold hnew hrunning hrests

-- A debugger command changes no other contract than the one that it lets run.
theorem slice_rests_of_debugs {id : Word} {kind : DebugCommand} {target : Contract}
    (hdebugs : session.debugs command = some (id, kind))
    (hfound : session.simulation.contract? id = some target) :
    target = old ∧
      ((session.simulation.machine target).slice session.simulation.protocol
        (session.debugger.breakpoints target.id)
        fun machine => kind.goOn target machine.contract.codeStack.depth).2.contract.running =
          false := by
  obtain rfl := id_of_contract? hfound
  rw [simulation_of_debugs hdebugs hfound] at hnew
  generalize (session.simulation.machine target).slice _ _ _ = final at hnew ⊢
  have hinstall : List.Forall₂
      (fun before after => after = before ∨ (before = target ∧ after = final.2.contract))
      session.simulation.contracts (session.simulation.install target.id final.2).contracts :=
    forall₂_updateFirst _ _ (fun _ => .inl rfl) hfound (.inr ⟨rfl, rfl⟩)
  obtain ⟨later, hlater, hcases⟩ := exists_getElem?_of_forall₂ hinstall hold
  obtain rfl : later = new := Option.some.inj (hlater.symm.trans hnew)
  rcases hcases with rfl | ⟨rfl, rfl⟩
  · rw [hrunning] at hrests
    cases hrests
  · exact ⟨rfl, hrests⟩

-- A running contract that a command brings to rest has had a turn.
theorem exists_gives_of_rests :
    ∃ first breakpoints goOn, Gives session command first breakpoints goOn ∧
      first.contract = old ∧
      (first.slice session.simulation.protocol breakpoints goOn).2.contract.running = false := by
  have hmoved : session.simulation.contracts[index]? ≠ some new := by
    intro hsame
    rw [hold] at hsame
    cases hsame
    rw [hrunning] at hrests
    cases hrests
  cases hdebugs : session.debugs command with
  | some turn =>
      cases hfound : session.simulation.contract? turn.1 with
      | none =>
          rw [simulation_of_not_found hdebugs hfound] at hnew
          exact absurd hnew hmoved
      | some target =>
          exact ⟨_, _, _, .debug hdebugs hfound,
            slice_rests_of_debugs hold hnew hrunning hrests hdebugs hfound⟩
  | none =>
      by_cases hforge : command = .forge
      · subst hforge
        cases hok : session.forge.1 with
        | error error =>
            rw [perform, forge_of_error hok] at hnew
            exact absurd hnew hmoved
        | ok report =>
            obtain ⟨hlength, rfl⟩ := List.getElem?_eq_some_iff.mp hold
            have hcontracts := (List.take_append_drop index session.simulation.contracts).symm
            rw [List.drop_eq_getElem_cons hlength] at hcontracts
            rw [← List.length_take_of_le (Nat.le_of_lt hlength)] at hnew
            exact ⟨_, _, _, .forge hok hcontracts hrunning, rfl,
              slice_rests_of_forge hok hcontracts hrunning hnew hrests⟩
      · obtain ⟨more, hcontracts⟩ := exists_contracts_append hdebugs hforge
        rw [hcontracts,
          List.getElem?_append_left (List.getElem?_eq_some_iff.mp hold).1] at hnew
        exact absurd hnew hmoved

-- It has taken a step that halts it.
theorem exists_takes_of_rests
    (hlawful : ∀ contract ∈ session.simulation.contracts, contract.Lawful) :
    ∃ machine reason halted, Takes session command machine (.halted reason) halted ∧
      reason ≠ .notRunning ∧ halted.contract.id = old.id := by
  obtain ⟨first, breakpoints, goOn, hgives, rfl, hslice⟩ :=
    exists_gives_of_rests hold hnew hrunning hrests
  obtain ⟨last, reason, hsteps, hlast, hreason⟩ :=
    exists_halt_of_slice (hlawful _ hgives.mem) hrunning hslice
  exact ⟨last, reason, _, ⟨_, _, _, hgives, hsteps, hlast⟩, hreason,
    congrArg Terms.id (first.works_slice _ _ _).terms⟩

end Turn

-- A contract is there and does not run.
def Rests (session : Session) (id : Word) : Prop :=
  ∃ contract ∈ session.simulation.contracts, contract.id = id ∧ contract.running = false

-- A step of a command has halted a contract, which has been at rest since.
def HaltedBy (settings : Settings) (commands : List SessionCommand) (reason : HaltReason)
    (halted : Machine) : Prop :=
  ∃ earlier command later machine, commands = earlier ++ command :: later ∧
    Takes (reached settings earlier) command machine (.halted reason) halted ∧
    reason ≠ .notRunning ∧
    Along (fun session _ => session.Rests halted.contract.id) later
      (reached settings (earlier ++ [command]))

theorem HaltedBy.concat {settings : Settings} {commands : List SessionCommand}
    (hhalted : HaltedBy settings commands reason halted) (command : SessionCommand)
    (hrests : (reached settings commands).Rests halted.contract.id) :
    HaltedBy settings (commands ++ [command]) reason halted := by
  obtain ⟨earlier, first, later, machine, rfl, htakes, hreason, halong⟩ := hhalted
  rw [reached_append_cons] at hrests
  exact ⟨earlier, first, later ++ [command], machine, List.append_assoc _ _ _, htakes, hreason,
    along_append.mpr ⟨halong, hrests, trivial⟩⟩

-- Contracts start out running, so whoever rests has been halted.
theorem exists_haltedBy (settings : Settings) (commands : List SessionCommand)
    (hmem : contract ∈ (reached settings commands).simulation.contracts)
    (hrests : contract.running = false) :
    ∃ reason halted, HaltedBy settings commands reason halted ∧
      halted.contract.id = contract.id := by
  induction commands using List.reverseRecOn generalizing contract with
  | nil => cases hmem
  | append_singleton commands command ih =>
      rw [reached_concat] at hmem
      obtain ⟨kept, new, hcontracts, hnew, hterms⟩ :=
        (reached settings commands).terms_perform command
      rw [hcontracts, List.mem_append] at hmem
      rcases hmem with hmem | hmem
      · obtain ⟨index, hindex⟩ := List.getElem?_of_mem hmem
        obtain ⟨old, hold, hsame⟩ := exists_getElem?_of_forall₂ hterms.flip hindex
        have hid : contract.id = old.id := congrArg Terms.id hsame
        cases hrunning : old.running with
        | false =>
            have hplace := List.mem_of_getElem? hold
            obtain ⟨reason, halted, hhalted, hself⟩ := ih hplace hrunning
            exact ⟨reason, halted, hhalted.concat command ⟨old, hplace, hself.symm, hrunning⟩,
              hself.trans hid.symm⟩
        | true =>
            have hlater : ((reached settings commands).perform
                command).simulation.contracts[index]? = some contract := by
              rw [hcontracts, List.getElem?_append_left (List.getElem?_eq_some_iff.mp hindex).1]
              exact hindex
            obtain ⟨machine, reason, halted, htakes, hreason, hself⟩ :=
              exists_takes_of_rests hold hlater hrunning hrests (lawful_reached settings commands)
            exact ⟨reason, halted, ⟨commands, command, [], machine, rfl, htakes, hreason, trivial⟩,
              hself.trans hid.symm⟩
      · have hflag := (hnew contract hmem).running_eq
        rw [hrests] at hflag
        cases hflag

end Session

end ContractSim
