import ContractSim.Proofs.Ledger.Timestamp
import ContractSim.Proofs.Machine.Share
import ContractSim.Proofs.Simulation.History

namespace ContractSim

namespace Machine

-- Contracts record nothing, so their steps take up no place in the block.
theorem sequence_walk {machine : Machine}
    (hhas : machine.ledger.hasAccount machine.contract.id = true) (protocol : Protocol)
    (count : Nat) :
    (walk protocol count machine).ledger.sequence = machine.ledger.sequence := by
  induction count generalizing machine with
  | zero => rfl
  | succ count ih =>
      have hid : (machine.advance protocol).2.contract.id = machine.contract.id :=
        congrArg Terms.id (machine.works_advance protocol).terms
      have hstill : (machine.advance protocol).2.ledger.hasAccount machine.contract.id = true := by
        rcases machine.spends_advance protocol with ⟨hspends, -⟩ | ⟨_, -, hspends⟩
        · exact hspends.hasAccount _ hhas
        · exact hspends.hasAccount _ hhas
      rw [walk_succ, step_nil]
      exact (ih (by rw [hid]; exact hstill)).trans (ownShare_advance hhas protocol).sequence

theorem sequence_slice {machine : Machine}
    (hhas : machine.ledger.hasAccount machine.contract.id = true) (protocol : Protocol)
    (breakpoints : Breakpoints) (goOn : Machine → Bool) :
    (machine.slice protocol breakpoints goOn).2.ledger.sequence = machine.ledger.sequence := by
  obtain ⟨count, hwalk⟩ := machine.slice_eq_walk protocol breakpoints goOn
  rw [hwalk]
  exact sequence_walk hhas protocol count

end Machine

namespace Simulation

open Ledger Transaction

theorem sequence_runContracts (protocol : Protocol) (table : BreakpointTable) {ledger : Ledger}
    {contracts : List Contract}
    (hhoused : ∀ contract ∈ contracts, ledger.hasAccount contract.id = true) :
    (runContracts protocol table ledger contracts).2.1.sequence = ledger.sequence := by
  induction contracts generalizing ledger with
  | nil => rfl
  | cons contract rest ih =>
      obtain ⟨hhas, hrest⟩ := List.forall_mem_cons.mp hhoused
      simp only [runContracts]
      split_ifs
      · have hslice := @Machine.sequence_slice ⟨contract, ledger⟩ hhas protocol
          (table.of contract.id) fun _ => true
        have hspends := Machine.spends_run ⟨contract, ledger⟩ protocol (table.of contract.id)
        exact (ih fun other hmem => hspends.2.hasAccount _ (hrest other hmem)).trans hslice
      · exact ih hrest

theorem sequence_activateContracts (ledger : Ledger) (contracts : List Contract) :
    (activateContracts ledger contracts).2.1.sequence = ledger.sequence := by
  obtain ⟨transactions, hledger⟩ := exists_activateContracts_eq ledger contracts
  rw [hledger]

theorem recorded_applyAll {ledger after : Ledger} {transactions : List Transaction}
    {ids : List Word} (hrun : (applyAll transactions).run ledger = (.ok ids, after)) :
    Recorded ledger transactions ids after := by
  induction transactions generalizing ledger ids with
  | nil =>
      cases hrun
      exact Recorded.nil _
  | cons tx rest ih =>
      rw [applyAll] at hrun
      rcases happly : (Ledger.apply tx).run ledger with ⟨result, next⟩
      cases result with
      | error error =>
          rw [Action.run_bind_of_error happly] at hrun
          cases hrun
      | ok id =>
          rw [Action.run_bind_of_ok happly] at hrun
          rcases hrest : (applyAll rest).run next with ⟨others, final⟩
          cases others with
          | error error =>
              rw [Action.run_bind_of_error hrest] at hrun
              cases hrun
          | ok others =>
              rw [Action.run_bind_of_ok hrest] at hrun
              cases hrun
              exact (recorded_apply happly).append (ih hrest)

theorem recorded_applyExternal {simulation next : Simulation} {external : List Transaction}
    {ids : List Word} (hrun : (applyExternal external).run simulation = (.ok ids, next)) :
    Recorded simulation.ledger (simulation.due external) ids next.ledger := by
  rw [applyExternal, Action.run_bind_of_ok (Action.run_get simulation)] at hrun
  cases hcheck : simulation.ledger.checkCredits (credits (simulation.due external)) with
  | error error =>
      rw [due] at hcheck
      simp only [hcheck] at hrun
      cases hrun
  | ok =>
      rcases hall : (applyAll (simulation.due external)).run simulation.ledger with ⟨result, ledger⟩
      rw [due] at hcheck hall
      simp only [hcheck, hall] at hrun
      cases hrun
      exact recorded_applyAll hall

-- A block gets its heights and places from one count, and the next block counts again.
theorem exists_stampedAt_forge {simulation next : Simulation} {external : List Transaction}
    {table : BreakpointTable} {report : ForgeReport} (hhoused : simulation.Housed)
    (hsequence : simulation.ledger.sequence = 1)
    (hforge : simulation.forge external table = (.ok report, next)) :
    next.ledger.sequence = 1 ∧ ∃ kept block, next.ledger.transactions = kept ++ block ∧
      List.Forall₂ Ages simulation.ledger.transactions kept ∧
      StampedAt simulation.ledger.height block := by
  obtain ⟨paid, settled, hdispatch, happly, rfl⟩ := exists_settled_of_forge hforge
  have hran : (simulation.ran table).ledger.transactions = simulation.ledger.transactions :=
    transactions_runContracts _ _ _ _
  have hheight : (simulation.ran table).ledger.height = simulation.ledger.height :=
    height_runContracts _ _ _ _
  have hfirst : (simulation.ran table).ledger.sequence = 1 :=
    (sequence_runContracts simulation.protocol table hhoused).trans hsequence
  obtain ⟨block, hlist, hstamped⟩ :=
    ((recorded_dispatch hdispatch).append (recorded_applyExternal happly)).exists_stampedAt hfirst
  have hages : List.Forall₂ Ages settled.ledger.transactions
      settled.advanceHeight.activate.2.ledger.transactions :=
    (rouses_activateContracts settled.ledger.advance _).imp fun _ _ hrouses => hrouses.ages
  rw [hlist, hran] at hages
  rw [hheight] at hstamped
  obtain ⟨kept, later, hafter, hkept, hlater⟩ := exists_append_of_forall₂ hages
  refine ⟨?_, kept, later, hafter, hkept, hstamped.ages hlater⟩
  exact sequence_activateContracts settled.ledger.advance settled.contracts

end Simulation

end ContractSim
