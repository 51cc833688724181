import ContractSim.Proofs.Session.Halt
import ContractSim.Proofs.Simulation.Receipt

namespace ContractSim.Session

open Ledger Machine Simulation Transaction

variable {session : Session} {command : SessionCommand} {machine halted : Machine}
  {reason : HaltReason} {contract : Contract}

section Rests

variable (hnodup : (session.simulation.contracts.map Contract.id).Nodup)
  (hmem : contract ∈ session.simulation.contracts) (hrunning : contract.running = false)

include hnodup hmem hrunning

-- The debugger spends what belongs to the contract that it lets run.
theorem receives_debug {id : Word} (command : DebugCommand)
    {act : Debugger → Simulation → Word → Except DebugError (DebugStatus × Simulation)}
    (hact : act session.debugger session.simulation id = command.perform session.simulation id) :
    Receives contract.id session.simulation.ledger
      (session.debug id act).2.simulation.ledger := by
  refine .of_eq (transactions_debug command hact) ?_
  cases hfound : session.simulation.contract? id with
  | none =>
      obtain ⟨error, hperform⟩ := DebugCommand.perform_eq_error hfound command
      rw [debug, hact, hperform]
  | some target =>
      rw [debug, hact, DebugCommand.perform_eq_ok hfound]
      by_cases hid : contract.id = target.id
      · obtain rfl :=
          List.inj_on_of_nodup_map hnodup hmem (List.mem_of_find?_eq_some hfound) hid
        have hslice : (session.simulation.machine contract).slice session.simulation.protocol
            (command.debugger.breakpoints contract.id)
            (fun machine => command.goOn contract machine.contract.codeStack.depth) =
              (.halted .notRunning, session.simulation.machine contract) :=
          slice_of_not_running hrunning
        exact congrArg (fun result => result.2.ledger.balance contract.id) hslice
      · obtain ⟨fees, steps, -, hspends⟩ := spends_slice (session.simulation.machine target)
          session.simulation.protocol (command.debugger.breakpoints target.id)
          fun machine => command.goOn target machine.contract.codeStack.depth
        exact hspends.others contract.id hid

-- While a contract rests its balance grows by what is recorded for it.
theorem receives_perform (hhas : session.simulation.ledger.hasAccount contract.id = true)
    (hreturns : session.Returns command) :
    Receives contract.id session.simulation.ledger
      (session.perform command).simulation.ledger := by
  cases command with
  | deploy deployment => exact receives_deploy deployment hreturns hhas
  | loadScenario text =>
      rw [perform, simulation_loadScenario]
      exact .refl _ _
  | toggleBreakpoint contract line =>
      rw [perform, simulation_toggleBreakpoint]
      exact .refl _ _
  | addTransaction | clearBreakpoints => exact .refl _ _
  | run id => exact receives_debug hnodup hmem hrunning (.run session.debugger) rfl
  | stepInto id => exact receives_debug hnodup hmem hrunning (.stepInto session.debugger) rfl
  | stepOver id => exact receives_debug hnodup hmem hrunning (.stepOver session.debugger) rfl
  | stepOut id => exact receives_debug hnodup hmem hrunning (.stepOut session.debugger) rfl
  | forge =>
      cases hforge : session.forge.1 with
      | error error =>
          rw [perform, forge_of_error hforge]
          exact .refl _ _
      | ok report =>
          have hself : ∀ other ∈ session.simulation.contracts, other.id = contract.id →
              other.running = false := by
            intro other hother hid
            rw [List.inj_on_of_nodup_map hnodup hother hmem hid]
            exact hrunning
          have hran : Receives contract.id session.simulation.ledger
              (session.simulation.ran session.debugger.table).ledger :=
            .of_eq (transactions_runContracts _ _ _ _) (balance_runContracts _ _ hself _)
          exact hran.trans (receives_forge (forge_of_ok hforge) contract.id)

end Rests

-- The rest of the command in which a contract is halted. Contracts behind it in a block spend
-- nothing of its balance, and then the block moves the payments.
theorem Takes.receives (htakes : Takes session command machine (.halted reason) halted)
    (hnodup : (session.simulation.contracts.map Contract.id).Nodup) :
    Receives halted.contract.id halted.ledger (session.perform command).simulation.ledger := by
  obtain ⟨first, breakpoints, goOn, hgives, hsteps, hstep⟩ := htakes
  have hslice := slice_of_goesOn hsteps hstep nofun
  cases hgives with
  | debug hdebugs hfound =>
      rw [simulation_of_debugs hdebugs hfound, hslice]
      exact .refl _ _
  | @forge report before after contract hok hcontracts hrunning =>
      have hid : halted.contract.id = contract.id := by
        have hworks := works_slice ⟨contract, (runContracts session.simulation.protocol
          session.debugger.table session.simulation.ledger before).2.1⟩
          session.simulation.protocol (session.debugger.table.of contract.id) fun _ => true
        rw [hslice] at hworks
        exact congrArg Terms.id hworks.terms
      have hbehind : ∀ other ∈ after, other.id = halted.contract.id → other.running = false := by
        intro other hmem hsame
        rw [hcontracts, List.map_append, List.map_cons] at hnodup
        have hothers := (List.nodup_cons.mp (List.nodup_append.mp hnodup).2.1).1
        exact absurd (List.mem_map.mpr ⟨other, hmem, hsame.trans hid⟩) hothers
      have hledger : (session.simulation.ran session.debugger.table).ledger =
          (runContracts session.simulation.protocol session.debugger.table halted.ledger
            after).2.1 := by
        have hran := ledger_runContracts session.simulation.protocol session.debugger.table before
          after hrunning session.simulation.ledger
        rw [← hcontracts, Machine.run, hslice] at hran
        exact hran
      have hran : Receives halted.contract.id halted.ledger
          (session.simulation.ran session.debugger.table).ledger := by
        rw [hledger]
        exact .of_eq (transactions_runContracts _ _ _ _) (balance_runContracts _ _ hbehind _)
      exact hran.trans (receives_forge (forge_of_ok hok) halted.contract.id)

-- A session after a step that has halted a contract: the contract has kept note of the balance
-- that the step has left it, and has got what is new on the ledger.
structure Banked (session : Session) (halted : Machine) : Prop where
  receives : Receives halted.contract.id halted.ledger session.simulation.ledger
  noted : ∃ contract ∈ session.simulation.contracts,
    contract.id = halted.contract.id ∧ contract.previousBalance = halted.balance

theorem banked_of_takes (htakes : Takes session command machine (.halted reason) halted)
    (hreason : reason ≠ .notRunning)
    (hnodup : (session.simulation.contracts.map Contract.id).Nodup) :
    Banked (session.perform command) halted := by
  refine ⟨htakes.receives hnodup, ?_⟩
  have hnoted := (htakes.notes hreason).2
  rcases htakes.halts with ⟨-, hmem⟩ | ⟨rfl, ⟨report, hok⟩, hmem⟩
  · exact ⟨halted.contract, hmem, rfl, hnoted⟩
  · obtain ⟨index, hindex⟩ := List.getElem?_of_mem hmem
    obtain ⟨later, hlater, hcases⟩ :=
      exists_getElem?_of_forall₂ (wakes_forge (forge_of_ok hok)) hindex
    refine ⟨later, List.mem_of_getElem? hlater, ?_⟩
    rcases hcases with rfl | rfl
    · exact ⟨rfl, hnoted⟩
    · exact ⟨rfl, hnoted⟩

theorem Banked.perform (hbanked : Banked session halted)
    (hsound : Sound session.simulation.ledger session.simulation.contracts)
    (hreturns : session.Returns command) (hrests : session.Rests halted.contract.id) :
    Banked (session.perform command) halted := by
  obtain ⟨contract, hmem, hid, hrunning⟩ := hrests
  obtain ⟨other, hother, hsame, hnoted⟩ := hbanked.noted
  obtain rfl := List.inj_on_of_nodup_map hsound.nodup hother hmem (hsame.trans hid.symm)
  have hmore := receives_perform hsound.nodup hmem hrunning (hsound.hasAccount _ hmem) hreturns
  rw [hid] at hmore
  refine ⟨hbanked.receives.trans hmore, ?_⟩
  obtain ⟨index, hindex⟩ := List.getElem?_of_mem hmem
  obtain ⟨later, hlater, hcases⟩ := rests_perform command hindex hrunning
  refine ⟨later, List.mem_of_getElem? hlater, ?_⟩
  rcases hcases with rfl | ⟨-, rfl | ⟨-, rfl⟩⟩
  · exact ⟨hid, hnoted⟩
  · exact ⟨hid, hnoted⟩
  · exact ⟨hid, hnoted⟩

theorem Banked.after {commands : List SessionCommand} (hbanked : Banked session halted)
    (hsound : Sound session.simulation.ledger session.simulation.contracts)
    (hreturns : Along Returns commands session)
    (hrests : Along (fun session _ => session.Rests halted.contract.id) commands session) :
    Banked (after commands session) halted := by
  induction commands generalizing session with
  | nil => exact hbanked
  | cons command rest ih =>
      exact ih (hbanked.perform hsound hreturns.1 hrests.1)
        (keeps_perform command hreturns.1 hsound).sound hreturns.2 hrests.2

theorem banked_reached {settings : Settings} {commands : List SessionCommand}
    (hreturns : Along Returns commands (start settings))
    (hhalted : HaltedBy settings commands reason halted) :
    Banked (reached settings commands) halted := by
  obtain ⟨earlier, command, later, machine, rfl, htakes, hreason, halong⟩ := hhalted
  obtain ⟨hearlier, hcommand, hlater⟩ := along_append.mp hreturns
  have hsound := sound_reached hearlier
  have hbanked := banked_of_takes htakes hreason hsound.nodup
  rw [reached_append_cons]
  rw [reached_concat] at halong ⊢
  exact hbanked.after (keeps_perform command hcommand hsound).sound hlater halong

theorem receives_of_haltedBy {settings : Settings} {commands : List SessionCommand}
    (hreturns : Along Returns commands (start settings))
    (hmem : contract ∈ (reached settings commands).simulation.contracts)
    (hhalted : HaltedBy settings commands reason halted)
    (hid : halted.contract.id = contract.id) :
    contract.previousBalance = halted.balance ∧
      Receives contract.id halted.ledger (reached settings commands).simulation.ledger := by
  have hbanked := banked_reached hreturns hhalted
  obtain ⟨other, hother, hsame, hnoted⟩ := hbanked.noted
  obtain rfl := List.inj_on_of_nodup_map (sound_reached hreturns).nodup hother hmem
    (hsame.trans hid)
  have hreceives := hbanked.receives
  rw [hid] at hreceives
  exact ⟨hnoted, hreceives⟩

-- What a contract that rests has gained since its last turn.
structure GainIsReceipt (settings : Settings) (commands : List SessionCommand) : Prop where
  -- Whatever halts a contract, the balance that it notes is the one that it is left with.
  noted : ∀ command machine reason halted,
    Takes (reached settings commands) command machine (.halted reason) halted →
    reason ≠ .notRunning →
    halted.contract.running = false ∧ halted.contract.previousBalance = halted.balance
  -- Every contract that rests has been halted by a step.
  halted : ∀ contract ∈ (reached settings commands).simulation.contracts,
    contract.running = false →
    ∃ reason halted, HaltedBy settings commands reason halted ∧ halted.contract.id = contract.id
  -- The balance is the one that was noted then, together with what the transactions have brought
  -- that have been recorded since. That also holds if the contract has just woken up again.
  gained : ∀ contract ∈ (reached settings commands).simulation.contracts,
    ∀ reason halted, HaltedBy settings commands reason halted →
      halted.contract.id = contract.id →
      contract.previousBalance = halted.balance ∧
      ∃ kept new,
        (reached settings commands).simulation.ledger.transactions = kept ++ new ∧
        List.Forall₂ Ages halted.ledger.transactions kept ∧
        ((reached settings commands).simulation.ledger.balance contract.id).toNat =
          contract.previousBalance.toNat + totalTo new contract.id
  atLeast : ∀ contract ∈ (reached settings commands).simulation.contracts,
    contract.running = false →
    contract.previousBalance ≤ (reached settings commands).simulation.ledger.balance contract.id

-- The balance that a contract has gained since its last turn is what it has received.
theorem gain_is_receipt (settings : Settings) (commands : List SessionCommand)
    (hreturns : Along Returns commands (start settings)) : GainIsReceipt settings commands := by
  constructor
  · intro command machine reason halted htakes hreason
    exact htakes.notes hreason
  · intro contract hmem hrests
    exact exists_haltedBy settings commands hmem hrests
  · intro contract hmem reason halted hhalted hid
    obtain ⟨hnoted, kept, new, hlist, hkept, hbalance⟩ :=
      receives_of_haltedBy hreturns hmem hhalted hid
    refine ⟨hnoted, kept, new, hlist, hkept, ?_⟩
    rw [hbalance, hnoted, Machine.balance, hid]
  · intro contract hmem hrests
    obtain ⟨reason, halted, hhalted, hid⟩ := exists_haltedBy settings commands hmem hrests
    obtain ⟨hnoted, kept, new, -, -, hbalance⟩ := receives_of_haltedBy hreturns hmem hhalted hid
    rw [UInt64.le_iff_toNat_le, hbalance, hnoted, Machine.balance, hid]
    exact Nat.le_add_right _ _

-- A contract pays itself and stops. Neither that nor a payment from outside is enough to wake it.
def savings : List SessionCommand :=
  [.deploy
      { source := "SET @x #00000000000003e7\nFUN set_B1 $x\nFUN send_to_Address_in_B $x\nSTP",
        activationAmount := some 1000 },
    .stepInto 999, .stepInto 999, .stepInto 999, .stepInto 999,
    .addTransaction ⟨1, 999, 7, 1, [], []⟩, .forge]

theorem gain_is_receipt_savings :
    Along Returns savings (start {}) ∧
      ∃ contract ∈ (reached {} savings).simulation.contracts, contract.running = false ∧
        ∃ reason halted, HaltedBy {} savings reason halted ∧
          contract.previousBalance = halted.balance ∧
          ∃ kept new, (reached {} savings).simulation.ledger.transactions = kept ++ new ∧
            List.Forall₂ Ages halted.ledger.transactions kept ∧
            totalTo new contract.id = 999 + 7 := by
  have hreturns : Along Returns savings (start {}) :=
    ⟨⟨0, by decide +kernel⟩, trivial, trivial, trivial, trivial, trivial, trivial, trivial⟩
  have hcontracts : ((reached {} savings).simulation.contracts.map fun contract =>
      (contract.running, contract.previousBalance,
        (reached {} savings).simulation.ledger.balance contract.id)) =
      [(false, 983829001, 983830007)] := by
    simp only [reached, savings, after, perform_stepInto]
    decide +kernel
  obtain ⟨contract, hsingle, hfields⟩ := List.map_eq_singleton_iff.mp hcontracts
  obtain ⟨hrests, hamounts⟩ := Prod.mk.inj hfields
  obtain ⟨hprevious, hbalance⟩ := Prod.mk.inj hamounts
  have hmem : contract ∈ (reached {} savings).simulation.contracts := by
    rw [hsingle]
    exact List.mem_cons_self
  have hreceipt := gain_is_receipt {} savings hreturns
  obtain ⟨reason, halted, hhalted, hid⟩ := hreceipt.halted contract hmem hrests
  obtain ⟨hnoted, kept, new, hlist, hkept, hgain⟩ :=
    hreceipt.gained contract hmem reason halted hhalted hid
  rw [hprevious, hbalance] at hgain
  exact ⟨hreturns, contract, hmem, hrests, reason, halted, hhalted, hnoted, kept, new, hlist, hkept,
    (Nat.add_left_cancel hgain).symm⟩

end ContractSim.Session
