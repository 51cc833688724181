import ContractSim.Proofs.Ledger.Posting
import ContractSim.Proofs.Machine.Loop

namespace ContractSim.Simulation

open Ledger Transaction

-- All payments that wait, contract by contract.
def queued (simulation : Simulation) : List Transaction :=
  simulation.contracts.flatMap Contract.queue

-- The transactions from outside that belong to the current height.
def due (simulation : Simulation) (external : List Transaction) : List Transaction :=
  external.filter (·.blockheight == simulation.ledger.height)

-- The simulation when the contracts have run and nothing has been moved yet.
def ran (simulation : Simulation) (table : BreakpointTable) : Simulation :=
  (simulation.runAll table).2

-- The simulation with all queues empty, on another ledger.
def cleared (simulation : Simulation) (ledger : Ledger) : Simulation :=
  { simulation with ledger, contracts := simulation.contracts.map ({ · with queue := [] }) }

-- A check that passes leaves no payment to refuse.
theorem exists_dispatchQueues_eq_ok {simulation : Simulation}
    (hcheck : simulation.ledger.checkCredits (credits simulation.queued) = .ok ()) :
    ∃ ids ledger, dispatchQueues simulation.ledger simulation.contracts =
        (.ok ids, ledger, (simulation.cleared ledger).contracts) ∧
      Posted simulation.ledger (simulation.queued.map classified) ids ledger :=
  exists_posted_dispatchQueues _ _ ((checkCredits_eq_ok_iff _ _).mp hcheck)

theorem exists_applyAll_eq_ok {simulation : Simulation} {external : List Transaction}
    (hcheck : simulation.ledger.checkCredits (credits (simulation.due external)) = .ok ()) :
    ∃ ids ledger, (applyAll (simulation.due external)).run simulation.ledger = (.ok ids, ledger) ∧
      Posted simulation.ledger (simulation.due external) ids ledger :=
  exists_posted_applyAll _ _ ((checkCredits_eq_ok_iff _ _).mp hcheck)

-- A batch is refused as a whole, and exactly when some account would get more than it can hold.
theorem run_dispatch_cases (simulation : Simulation) :
    (simulation.ledger.Overflows simulation.queued ∧
      ∃ error, dispatch.run simulation = (.error error, simulation)) ∨
    (¬simulation.ledger.Overflows simulation.queued ∧
      ∃ ids ledger, dispatch.run simulation = (.ok ids, simulation.cleared ledger) ∧
        Posted simulation.ledger (simulation.queued.map classified) ids ledger) := by
  rw [dispatch, Action.run_bind_of_ok (Action.run_get simulation)]
  cases hcheck : simulation.ledger.checkCredits (credits simulation.queued) with
  | error error =>
      left
      refine ⟨overflows_of_checkCredits hcheck, error, ?_⟩
      rw [queued] at hcheck
      rw [hcheck]
      rfl
  | ok =>
      right
      obtain ⟨ids, ledger, hrun, hposted⟩ := exists_dispatchQueues_eq_ok hcheck
      refine ⟨(checkCredits_eq_ok_iff _ _).mp hcheck, ids, ledger, ?_, hposted⟩
      rw [queued] at hcheck
      rw [hcheck]
      simp only [hrun]
      rfl

theorem run_applyExternal_cases (simulation : Simulation) (external : List Transaction) :
    (simulation.ledger.Overflows (simulation.due external) ∧
      ∃ error, (applyExternal external).run simulation = (.error error, simulation)) ∨
    (¬simulation.ledger.Overflows (simulation.due external) ∧
      ∃ ids ledger,
        (applyExternal external).run simulation = (.ok ids, { simulation with ledger }) ∧
        Posted simulation.ledger (simulation.due external) ids ledger) := by
  rw [applyExternal, Action.run_bind_of_ok (Action.run_get simulation)]
  cases hcheck : simulation.ledger.checkCredits (credits (simulation.due external)) with
  | error error =>
      left
      refine ⟨overflows_of_checkCredits hcheck, error, ?_⟩
      rw [due] at hcheck
      simp only [hcheck]
      rfl
  | ok =>
      right
      obtain ⟨ids, ledger, hrun, hposted⟩ := exists_applyAll_eq_ok hcheck
      refine ⟨(checkCredits_eq_ok_iff _ _).mp hcheck, ids, ledger, ?_, hposted⟩
      rw [due] at hcheck hrun
      simp only [hcheck, hrun]
      rfl

-- Running contracts leaves the height as it is.
theorem height_runContracts (protocol : Protocol) (table : BreakpointTable) (ledger : Ledger)
    (contracts : List Contract) :
    (runContracts protocol table ledger contracts).2.1.height = ledger.height := by
  induction contracts generalizing ledger with
  | nil => rfl
  | cons contract rest ih =>
      simp only [runContracts]
      split_ifs
      · have hspends := Machine.spends_run ⟨contract, ledger⟩ protocol (table.of contract.id)
        exact (ih _).trans hspends.2.height
      · exact ih ledger

-- Waking a contract may use up a transaction, which is money that has long arrived.
theorem sameBalances_wakes (ledger : Ledger) (contract : Contract) :
    SameBalances ledger (wakes ledger contract).2 := by
  unfold wakes
  split
  · exact SameBalances.refl ledger
  · split_ifs
    · exact SameBalances.refl ledger
    · simp only [consumeActivation]
      split
      · exact SameBalances.refl ledger
      · exact SameBalances.of_accounts_eq rfl rfl
          (map_updateFirst_of_eq _ _ Transaction.amount _ fun _ _ => rfl)

theorem sameBalances_activateContracts (ledger : Ledger) (contracts : List Contract) :
    SameBalances ledger (activateContracts ledger contracts).2.1 := by
  induction contracts generalizing ledger with
  | nil => exact SameBalances.refl ledger
  | cons contract rest ih =>
      simp only [activateContracts]
      split_ifs
      · exact ih ledger
      · have hwakes := sameBalances_wakes ledger contract
        split
        all_goals
          rename_i next hnext
          rw [hnext] at hwakes
          exact hwakes.trans (ih next)

-- A block after the contracts have run: refused when one of the two batches does not fit, and
-- otherwise both batches are on the ledger.
theorem forge_cases (simulation : Simulation) (external : List Transaction)
    (table : BreakpointTable) :
    ((simulation.ran table).ledger.Overflows
        ((simulation.ran table).queued ++ (simulation.ran table).due external) ∧
      ∃ error, simulation.forge external table = (.error error, simulation)) ∨
    (¬(simulation.ran table).ledger.Overflows
        ((simulation.ran table).queued ++ (simulation.ran table).due external) ∧
      ∃ report paid settled,
        simulation.forge external table =
          (.ok report, (activate ((simulation.ran table).cleared settled).advanceHeight).2) ∧
        Posted (simulation.ran table).ledger ((simulation.ran table).queued.map classified)
          report.dispatched paid ∧
        Posted paid ((simulation.ran table).due external) report.applied settled ∧
        report.executed = (simulation.runAll table).1 ∧
        report.activated =
          (activate ((simulation.ran table).cleared settled).advanceHeight).1) := by
  let ran := simulation.ran table
  have hran : (modifyGet (·.runAll table) : Change (List ContractRun)).run simulation =
      (.ok (simulation.runAll table).1, ran) := rfl
  have hclassified : ran.ledger.Overflows (ran.queued.map classified ++ ran.due external) ↔
      ran.ledger.Overflows (ran.queued ++ ran.due external) := by
    simp only [Overflows, totalTo_append, totalTo_map_classified]
  rw [forge, forgeSteps, Action.run_bind_of_ok (Action.run_get simulation),
    Action.run_bind_of_ok hran]
  rcases run_dispatch_cases ran with ⟨hover, error, hrun⟩ | ⟨hfits, ids, paid, hrun, hposted⟩
  · left
    refine ⟨?_, error, ?_⟩
    · by_contra hall
      exact not_overflows_of_append hall hover
    · rw [Action.run_bind_of_error hrun]
  · have hdue : (ran.cleared paid).due external = ran.due external := by
      rw [due, cleared, hposted.height, due]
    rw [Action.run_bind_of_ok hrun]
    rcases run_applyExternal_cases (ran.cleared paid) external with
      ⟨hover, error, happly⟩ | ⟨hfitsDue, applied, settled, happly, hpostedDue⟩
    · left
      refine ⟨?_, error, ?_⟩
      · rw [hdue] at hover
        exact hclassified.mp ((hposted.overflows_append_iff _).mpr hover)
      · rw [Action.run_bind_of_error happly]
    · right
      rw [hdue] at hfitsDue hpostedDue
      let report : ForgeReport :=
        { height := simulation.ledger.height, executed := (simulation.runAll table).1,
          dispatched := ids, applied,
          activated := (activate (ran.cleared settled).advanceHeight).1 }
      refine ⟨fun hall => hfitsDue ((hposted.overflows_append_iff _).mp (hclassified.mpr hall)),
        report, paid, settled, ?_, hposted, hpostedDue, rfl, rfl⟩
      rw [Action.run_bind_of_ok happly]
      rfl

-- What becomes of a batch of payments, given what stays of the contracts if it is moved: it lands
-- on the ledger as a whole, or nothing changes at all.
structure WholeOrNot (before : Simulation) (batch records : List Transaction)
    (left : List Contract) (result : Except LedgerError (List Word) × Simulation) : Prop where
  -- Refused exactly when some account would get more than it can hold.
  error_iff : (∃ error, result.1 = .error error) ↔
    ∃ recipient,
      Word.modulus ≤ (before.ledger.balance recipient).toNat + totalTo batch recipient
  unchanged : ∀ error, result.1 = .error error → result.2 = before
  contracts : ∀ ids, result.1 = .ok ids → result.2.contracts = left
  balance : ∀ ids, result.1 = .ok ids → ∀ recipient,
    (result.2.ledger.balance recipient).toNat =
      (before.ledger.balance recipient).toNat + totalTo batch recipient
  -- One record a payment, in order, under the ids that are told.
  recorded : ∀ ids, result.1 = .ok ids → ∃ recorded,
    result.2.ledger.transactions = before.ledger.transactions ++ recorded ∧
      recorded.map Transaction.id = ids ∧
      List.Forall₂ (RecordedAt before.ledger.height) records recorded

theorem WholeOrNot.of_error {before : Simulation} {batch : List Transaction}
    (hover : before.ledger.Overflows batch) (records : List Transaction) (left : List Contract)
    (error : LedgerError) : WholeOrNot before batch records left (.error error, before) := by
  constructor
  · exact ⟨fun _ => hover, fun _ => ⟨error, rfl⟩⟩
  · exact fun _ _ => rfl
  · rintro ids ⟨⟩
  · rintro ids ⟨⟩
  · rintro ids ⟨⟩

theorem WholeOrNot.of_posted {before : Simulation} (after : Simulation)
    {batch records : List Transaction} {ids : List Word} (hfits : ¬before.ledger.Overflows batch)
    (htotal : ∀ recipient, totalTo records recipient = totalTo batch recipient)
    (hposted : Posted before.ledger records ids after.ledger) :
    WholeOrNot before batch records after.contracts (.ok ids, after) := by
  constructor
  · constructor
    · rintro ⟨error, ⟨⟩⟩
    · exact fun hover => absurd hover hfits
  · rintro error ⟨⟩
  · exact fun _ _ => rfl
  · intro _ _ recipient
    rw [hposted.balance, htotal]
  · rintro _ ⟨⟩
    exact hposted.recorded

theorem wholeOrNot_dispatch (simulation : Simulation) :
    WholeOrNot simulation simulation.queued (simulation.queued.map classified)
      (simulation.contracts.map ({ · with queue := [] })) (dispatch.run simulation) := by
  rcases run_dispatch_cases simulation with
    ⟨hover, error, hrun⟩ | ⟨hfits, ids, ledger, hrun, hposted⟩
  · rw [hrun]
    exact .of_error hover _ _ error
  · rw [hrun]
    exact .of_posted (simulation.cleared ledger) hfits
      (totalTo_map_classified simulation.queued) hposted

theorem wholeOrNot_applyExternal (simulation : Simulation) (external : List Transaction) :
    WholeOrNot simulation (simulation.due external) (simulation.due external)
      simulation.contracts ((applyExternal external).run simulation) := by
  rcases run_applyExternal_cases simulation external with
    ⟨hover, error, hrun⟩ | ⟨hfits, ids, ledger, hrun, hposted⟩
  · rw [hrun]
    exact .of_error hover _ _ error
  · rw [hrun]
    exact .of_posted { simulation with ledger } hfits (fun _ => rfl) hposted

theorem height_forge {simulation : Simulation} {external : List Transaction}
    {table : BreakpointTable} {report : ForgeReport}
    (hok : (simulation.forge external table).1 = .ok report) :
    (simulation.forge external table).2.ledger.height = simulation.ledger.height + 1 := by
  rcases forge_cases simulation external table with
    ⟨-, error, hforge⟩ | ⟨-, _, paid, settled, hforge, hpaid, hsettled, -⟩
  · rw [hforge] at hok
    cases hok
  · rw [hforge]
    have hactivate := sameBalances_activateContracts settled.advance
      ((simulation.ran table).cleared settled).contracts
    have hran : (simulation.ran table).ledger.height = simulation.ledger.height :=
      height_runContracts _ _ _ _
    calc (activate ((simulation.ran table).cleared settled).advanceHeight).2.ledger.height
        = settled.height + 1 := hactivate.height
      _ = simulation.ledger.height + 1 := by rw [hsettled.height, hpaid.height, hran]

-- The payments from outside come on top of those of the contracts.
theorem forge_eq_error_iff (simulation : Simulation) (external : List Transaction)
    (table : BreakpointTable) :
    (∃ error, (simulation.forge external table).1 = .error error) ↔
      (∃ recipient, Word.modulus ≤ ((simulation.ran table).ledger.balance recipient).toNat +
        totalTo (simulation.ran table).queued recipient) ∨
      ∃ recipient, Word.modulus ≤ ((simulation.ran table).ledger.balance recipient).toNat +
        totalTo (simulation.ran table).queued recipient +
        totalTo ((simulation.ran table).due external) recipient := by
  rcases forge_cases simulation external table with
    ⟨hover, error, hforge⟩ | ⟨hfits, _, _, _, hforge, -, -⟩
  · simp only [Overflows, totalTo_append, ← Nat.add_assoc] at hover
    rw [hforge]
    exact ⟨fun _ => .inr hover, fun _ => ⟨error, rfl⟩⟩
  · rw [not_overflows_iff] at hfits
    simp only [totalTo_append] at hfits
    rw [hforge]
    constructor
    · rintro ⟨error, ⟨⟩⟩
    · rintro (⟨recipient, hover⟩ | ⟨recipient, hover⟩)
      · have hsum := hfits recipient
        omega
      · have hsum := hfits recipient
        omega

-- Money that leaves the queues or comes from outside lands as a whole or not at all. Behind the
-- check no payment is refused, so a block fails exactly when one of its two batches does not fit.
theorem batches_land_whole_or_not (simulation : Simulation) (external : List Transaction)
    (table : BreakpointTable) :
    WholeOrNot simulation simulation.queued (simulation.queued.map classified)
        (simulation.contracts.map ({ · with queue := [] })) (dispatch.run simulation) ∧
      WholeOrNot simulation (simulation.due external) (simulation.due external)
        simulation.contracts ((applyExternal external).run simulation) ∧
      (simulation.ledger.checkCredits (credits simulation.queued) = .ok () →
        ∃ ids, (dispatchQueues simulation.ledger simulation.contracts).1 = .ok ids) ∧
      (simulation.ledger.checkCredits (credits (simulation.due external)) = .ok () →
        ∃ ids, ((applyAll (simulation.due external)).run simulation.ledger).1 = .ok ids) ∧
      ((∃ error, (simulation.forge external table).1 = .error error) ↔
        (∃ recipient, Word.modulus ≤ ((simulation.ran table).ledger.balance recipient).toNat +
          totalTo (simulation.ran table).queued recipient) ∨
        ∃ recipient, Word.modulus ≤ ((simulation.ran table).ledger.balance recipient).toNat +
          totalTo (simulation.ran table).queued recipient +
          totalTo ((simulation.ran table).due external) recipient) ∧
      (∀ error, (simulation.forge external table).1 = .error error →
        (simulation.forge external table).2 = simulation) ∧
      ∀ report, (simulation.forge external table).1 = .ok report →
        (simulation.forge external table).2.ledger.height = simulation.ledger.height + 1 := by
  refine ⟨wholeOrNot_dispatch simulation, wholeOrNot_applyExternal simulation external, ?_, ?_,
    ?_, ?_, fun _ => height_forge⟩
  · intro hcheck
    obtain ⟨ids, ledger, hrun, -⟩ := exists_dispatchQueues_eq_ok hcheck
    exact ⟨ids, congrArg Prod.fst hrun⟩
  · intro hcheck
    obtain ⟨ids, ledger, hrun, -⟩ := exists_applyAll_eq_ok hcheck
    exact ⟨ids, congrArg Prod.fst hrun⟩
  · exact forge_eq_error_iff simulation external table
  · intro error herror
    rcases forge_cases simulation external table with ⟨-, _, hforge⟩ | ⟨-, _, _, _, hforge, -, -⟩
    · rw [hforge]
    · rw [hforge] at herror
      cases herror

end ContractSim.Simulation
