import ContractSim.Proofs.Machine.Frame
import ContractSim.Proofs.Simulation.Deploy
import Mathlib.Logic.Relation

namespace ContractSim.Simulation

open Relation

-- The simulation with a machine between other contracts.
def placed (simulation : Simulation) (before : List Contract) (machine : Machine)
    (after : List Contract) : Simulation :=
  { simulation with ledger := machine.ledger, contracts := before ++ machine.contract :: after }

-- The single things that can happen to a simulation. A contract runs one instruction, a batch of
-- payments lands, the height goes up, contracts wake up, or a contract is deployed.
inductive Move : Simulation → Simulation → Prop
  | step (simulation : Simulation) (before : List Contract) (machine : Machine)
      (after : List Contract) :
      Move (simulation.placed before machine after)
        (simulation.placed before (machine.advance simulation.protocol).2 after)
  | dispatch {simulation next : Simulation} {ids : List Word}
      (hrun : Simulation.dispatch.run simulation = (.ok ids, next)) : Move simulation next
  | receive {simulation next : Simulation} {external : List Transaction} {ids : List Word}
      (hrun : (applyExternal external).run simulation = (.ok ids, next)) : Move simulation next
  | advance (simulation : Simulation) : Move simulation simulation.advanceHeight
  | activate (simulation : Simulation) : Move simulation simulation.activate.2
  | deploy (simulation : Simulation) (deployment : Deployment) :
      Move simulation (simulation.deploy deployment).2

-- The moves that a simulation makes by itself.
inductive Proceeds : Simulation → Simulation → Prop
  | step (simulation : Simulation) (before : List Contract) (machine : Machine)
      (after : List Contract) :
      Proceeds (simulation.placed before machine after)
        (simulation.placed before (machine.advance simulation.protocol).2 after)
  | dispatch {simulation next : Simulation} {ids : List Word}
      (hrun : Simulation.dispatch.run simulation = (.ok ids, next)) : Proceeds simulation next
  | receive {simulation next : Simulation} {external : List Transaction} {ids : List Word}
      (hrun : (applyExternal external).run simulation = (.ok ids, next)) :
      Proceeds simulation next
  | advance (simulation : Simulation) : Proceeds simulation simulation.advanceHeight
  | activate (simulation : Simulation) : Proceeds simulation simulation.activate.2

theorem Proceeds.move {before after : Simulation} (hproceeds : Proceeds before after) :
    Move before after := by
  cases hproceeds with
  | step simulation left machine right => exact .step simulation left machine right
  | dispatch hrun => exact .dispatch hrun
  | receive hrun => exact .receive hrun
  | advance => exact .advance before
  | activate => exact .activate before

theorem exists_placed {simulation : Simulation} {id : Word} {contract : Contract}
    (hfound : simulation.contract? id = some contract) :
    ∃ before after, simulation.contracts = before ++ contract :: after ∧
      ∀ machine, simulation.install id machine = simulation.placed before machine after := by
  obtain ⟨before, after, hsplit, hbefore, htest⟩ := exists_split_of_find? hfound
  refine ⟨before, after, hsplit, ?_⟩
  intro machine
  have hupdate := updateFirst_append_cons (fun contract : Contract => contract.id == id)
    (fun _ => machine.contract) before after contract hbefore htest
  rw [← hsplit] at hupdate
  simp only [install, updateContract, hupdate, placed]

theorem proceeds_walk (simulation : Simulation) (before after : List Contract) (count : Nat)
    (machine : Machine) :
    ReflTransGen Proceeds (simulation.placed before machine after)
      (simulation.placed before (Machine.walk simulation.protocol count machine) after) := by
  induction count generalizing machine with
  | zero => exact .refl
  | succ count ih =>
      rw [Machine.walk_succ, Machine.step_nil]
      exact .head (.step simulation before machine after) (ih _)

theorem proceeds_slice (simulation : Simulation) (before after : List Contract) (machine : Machine)
    (breakpoints : Breakpoints) (goOn : Machine → Bool) :
    ReflTransGen Proceeds (simulation.placed before machine after)
      (simulation.placed before (machine.slice simulation.protocol breakpoints goOn).2 after) := by
  obtain ⟨count, hwalk⟩ := machine.slice_eq_walk simulation.protocol breakpoints goOn
  rw [hwalk]
  exact proceeds_walk simulation before after count machine

theorem proceeds_install {simulation : Simulation} {id : Word} {contract : Contract}
    (hfound : simulation.contract? id = some contract) (breakpoints : Breakpoints)
    (goOn : Machine → Bool) :
    ReflTransGen Proceeds simulation
      (simulation.install id
        ((simulation.machine contract).slice simulation.protocol breakpoints goOn).2) := by
  obtain ⟨before, after, hsplit, hinstall⟩ := exists_placed hfound
  have hself := install_self hfound
  have hslice := proceeds_slice simulation before after (simulation.machine contract) breakpoints
    goOn
  rw [hinstall] at hself ⊢
  rw [hself] at hslice
  exact hslice

-- Contracts that run one after another, behind others that do not, take steps in turn.
theorem proceeds_runContracts (simulation : Simulation) (table : BreakpointTable)
    (before : List Contract) (ledger : Ledger) (rest : List Contract) :
    ReflTransGen Proceeds { simulation with ledger, contracts := before ++ rest }
      { simulation with
        ledger := (runContracts simulation.protocol table ledger rest).2.1,
        contracts := before ++ (runContracts simulation.protocol table ledger rest).2.2 } := by
  induction rest generalizing before ledger with
  | nil => exact .refl
  | cons contract rest ih =>
      simp only [runContracts]
      split_ifs
      · have hslice := proceeds_slice simulation before rest ⟨contract, ledger⟩
          (table.of contract.id) fun _ => true
        have hrest := ih (before ++ [(Machine.run ⟨contract, ledger⟩ simulation.protocol
          (table.of contract.id)).2.contract]) (Machine.run ⟨contract, ledger⟩
            simulation.protocol (table.of contract.id)).2.ledger
        rw [← List.append_cons, ← List.append_cons] at hrest
        exact hslice.trans hrest
      · have hrest := ih (before ++ [contract]) ledger
        rw [← List.append_cons, ← List.append_cons] at hrest
        exact hrest

-- A block that is forged has moved both batches.
theorem exists_settled_of_forge {simulation next : Simulation} {external : List Transaction}
    {table : BreakpointTable} {report : ForgeReport}
    (hforge : simulation.forge external table = (.ok report, next)) :
    ∃ paid settled, Simulation.dispatch.run (simulation.ran table) = (.ok report.dispatched, paid) ∧
      (applyExternal external).run paid = (.ok report.applied, settled) ∧
      next = (activate settled.advanceHeight).2 := by
  have hran : (modifyGet (·.runAll table) : Change (List ContractRun)).run simulation =
      (.ok (simulation.runAll table).1, simulation.ran table) := rfl
  rw [forge, forgeSteps, Action.run_bind_of_ok (Action.run_get simulation),
    Action.run_bind_of_ok hran] at hforge
  rcases hdispatch : Simulation.dispatch.run (simulation.ran table) with ⟨dispatched, paid⟩
  cases dispatched with
  | error error =>
      rw [Action.run_bind_of_error hdispatch] at hforge
      cases hforge
  | ok dispatched =>
      rw [Action.run_bind_of_ok hdispatch] at hforge
      rcases happly : (applyExternal external).run paid with ⟨applied, settled⟩
      cases applied with
      | error error =>
          rw [Action.run_bind_of_error happly] at hforge
          cases hforge
      | ok applied =>
          rw [Action.run_bind_of_ok happly] at hforge
          cases hforge
          exact ⟨paid, settled, rfl, happly, rfl⟩

theorem proceeds_forge (simulation : Simulation) (external : List Transaction)
    (table : BreakpointTable) :
    ReflTransGen Proceeds simulation (simulation.forge external table).2 := by
  rcases hforge : simulation.forge external table with ⟨result, next⟩
  cases result with
  | error error =>
      rcases forge_cases simulation external table with ⟨-, _, hsame⟩ | ⟨-, _, _, _, hok, -⟩
      · rw [hforge] at hsame
        cases hsame
        exact .refl
      · rw [hforge] at hok
        cases hok
  | ok report =>
      obtain ⟨paid, settled, hdispatch, happly, rfl⟩ := exists_settled_of_forge hforge
      have hruns := proceeds_runContracts simulation table [] simulation.ledger simulation.contracts
      exact (((hruns.tail (.dispatch hdispatch)).tail (.receive happly)).tail
        (.advance settled)).tail (.activate _)

theorem exists_posted_of_dispatch {simulation next : Simulation} {ids : List Word}
    (hrun : Simulation.dispatch.run simulation = (.ok ids, next)) :
    ∃ ledger, next = simulation.cleared ledger ∧
      Ledger.Posted simulation.ledger (simulation.queued.map Transaction.classified) ids
        ledger := by
  rcases run_dispatch_cases simulation with ⟨-, _, herror⟩ | ⟨-, _, ledger, hok, hposted⟩
  · rw [hrun] at herror
    cases herror
  · rw [hrun] at hok
    cases hok
    exact ⟨ledger, rfl, hposted⟩

theorem exists_posted_of_receive {simulation next : Simulation} {external : List Transaction}
    {ids : List Word} (hrun : (applyExternal external).run simulation = (.ok ids, next)) :
    ∃ ledger, next = { simulation with ledger } ∧
      Ledger.Posted simulation.ledger (simulation.due external) ids ledger := by
  rcases run_applyExternal_cases simulation external with
    ⟨-, _, herror⟩ | ⟨-, _, ledger, hok, hposted⟩
  · rw [hrun] at herror
    cases herror
  · rw [hrun] at hok
    cases hok
    exact ⟨ledger, rfl, hposted⟩

-- A deployment leaves the contracts alone and opens an account at most, or adds a contract that has
-- one.
theorem deploy_outcomes (simulation : Simulation) (deployment : Deployment) :
    (simulation.deploy deployment).2 = simulation ∨
    (∃ id, (simulation.deploy deployment).2 =
      { simulation with ledger := simulation.ledger.touch id }) ∨
    ∃ (deployed : Contract) (balance : Word) (record : ContractRecord),
      deployed.queue = [] ∧
      (simulation.deploy deployment).2 =
        { simulation with
          ledger := (simulation.ledger.setBalance deployed.id balance).register record,
          contracts := simulation.contracts ++ [deployed] } := by
  unfold Simulation.deploy
  cases hload : Contract.load deployment simulation.protocol simulation.ledger.height with
  | error error => exact .inl rfl
  | ok contract =>
      have hqueue := (Contract.load_eq_ok hload).1
      let id := freeId simulation.ledger contract.id
      have hcredit := Ledger.run_credit simulation.ledger id
        (deployment.initialBalance.getD simulation.protocol.defaultDeployBalance)
      cases hsum : Word.checkedAdd (simulation.ledger.balance id)
          (deployment.initialBalance.getD simulation.protocol.defaultDeployBalance) with
      | none =>
          rw [hsum] at hcredit
          simp only [id] at hcredit
          simp only [hcredit]
          exact .inr (.inl ⟨id, rfl⟩)
      | some balance =>
          rw [hsum] at hcredit
          simp only [id] at hcredit
          simp only [hcredit]
          let record : ContractRecord :=
            ⟨id, contract.activationAmount, sha256Word (Message.utf8Bytes deployment.source)⟩
          let deployed : Contract :=
            { contract with
              id,
              previousBalance :=
                ((simulation.ledger.setBalance id balance).register record).balance id }
          exact .inr (.inr ⟨deployed, balance, record, hqueue, rfl⟩)

theorem Move.protocol_eq {before after : Simulation} (hmove : Move before after) :
    after.protocol = before.protocol := by
  cases hmove with
  | step | advance | activate => rfl
  | dispatch hrun =>
      obtain ⟨ledger, rfl, -⟩ := exists_posted_of_dispatch hrun
      rfl
  | receive hrun =>
      obtain ⟨ledger, rfl, -⟩ := exists_posted_of_receive hrun
      rfl
  | deploy _ deployment =>
      rcases before.deploy_outcomes deployment with hsame | ⟨_, htouch⟩ | ⟨_, _, _, -, hnew⟩
      · rw [hsame]
      · rw [htouch]
      · rw [hnew]

-- Every contract has an account.
def Housed (simulation : Simulation) : Prop :=
  ∀ contract ∈ simulation.contracts, simulation.ledger.hasAccount contract.id = true

theorem Move.housed {before after : Simulation} (hmove : Move before after)
    (hhoused : before.Housed) : after.Housed := by
  cases hmove with
  | step simulation left machine right =>
      have hhas : ∀ id, machine.ledger.hasAccount id = true →
          (machine.advance simulation.protocol).2.ledger.hasAccount id = true := by
        rcases machine.spends_advance simulation.protocol with ⟨hspends, -⟩ | ⟨_, -, hspends⟩
        · exact hspends.hasAccount
        · exact hspends.hasAccount
      have hid : (machine.advance simulation.protocol).2.contract.id = machine.contract.id :=
        congrArg Terms.id (machine.works_advance simulation.protocol).terms
      intro contract hmem
      simp only [placed, List.mem_append, List.mem_cons] at hmem
      refine hhas contract.id ?_
      rcases hmem with hleft | rfl | hright
      · exact hhoused contract (by simp [placed, hleft])
      · rw [hid]
        exact hhoused machine.contract (by simp [placed])
      · exact hhoused contract (by simp [placed, hright])
  | dispatch hrun =>
      obtain ⟨ledger, rfl, hposted⟩ := exists_posted_of_dispatch hrun
      intro contract hmem
      obtain ⟨full, hfull, rfl⟩ := List.mem_map.mp hmem
      exact hposted.hasAccount _ (hhoused full hfull)
  | receive hrun =>
      obtain ⟨ledger, rfl, hposted⟩ := exists_posted_of_receive hrun
      exact fun contract hmem => hposted.hasAccount _ (hhoused contract hmem)
  | advance => exact hhoused
  | activate =>
      intro contract hmem
      obtain ⟨same, hsame, hbooks⟩ := exists_same_books
        (books_activateContracts before.ledger before.contracts) hmem
      have hid : same.id = contract.id := congrArg Prod.fst hbooks
      have hactivate := sameBalances_activateContracts before.ledger before.contracts
      rw [← hid]
      exact hactivate.hasAccount _ (hhoused same hsame)
  | deploy _ deployment =>
      rcases before.deploy_outcomes deployment with
        hsame | ⟨id, htouch⟩ | ⟨deployed, balance, record, -, hnew⟩
      · rw [hsame]
        exact hhoused
      · rw [htouch]
        exact fun contract hmem =>
          (Ledger.sameBalances_touch before.ledger id).hasAccount _ (hhoused contract hmem)
      · rw [hnew]
        intro contract hmem
        refine Ledger.hasAccount_setBalance before.ledger deployed.id balance contract.id ?_
        rcases List.mem_append.mp hmem with hold | hlast
        · exact .inr (hhoused contract hold)
        · exact .inl (congrArg Contract.id (List.mem_singleton.mp hlast))

end ContractSim.Simulation
