import ContractSim.Proofs.Simulation.Activation

namespace ContractSim

-- A contract whose queue has been moved to the ledger.
def Contract.unqueued (contract : Contract) : Contract := { contract with queue := [] }

-- What a block at a height leaves of a sleeper.
def Contract.wokenAt (contract : Contract) (untilBlock height : Word) : Contract :=
  if untilBlock ≤ height then contract.reactivate else contract

theorem Contract.id_wokenAt (contract : Contract) (untilBlock height : Word) :
    (contract.wokenAt untilBlock height).id = contract.id := by
  unfold wokenAt
  split_ifs
  · rfl
  · rfl

namespace Simulation

open Ledger

variable {untilBlock : Word}

theorem height_stirs (ledger : Ledger) (contract : Contract) :
    (stirs ledger contract).2.height = ledger.height := by
  unfold stirs
  split_ifs
  · rfl
  · exact (sameBalances_wakes ledger contract).height

theorem stirs_of_sleeping {contract : Contract} (hsleeps : contract.Stands (.sleeping untilBlock))
    (ledger : Ledger) : stirs ledger contract = (decide (untilBlock ≤ ledger.height), ledger) := by
  have hdead : contract.dead = false := congrArg Flags.dead hsleeps
  have hrunning : contract.running = false := congrArg Flags.running hsleeps
  have hsleep : contract.sleepUntil = some untilBlock := congrArg Flags.sleepUntil hsleeps
  simp only [stirs, wakes, hdead, hrunning, hsleep, Bool.or_self, Bool.false_eq_true, ite_false]

-- A sleeper wakes up at its block, whatever happens to the other contracts.
theorem sleeper_activateContracts {contracts : List Contract}
    (hnodup : (contracts.map Contract.id).Nodup) (ledger : Ledger) {index : Nat}
    {contract : Contract} (hcontract : contracts[index]? = some contract)
    (hsleeps : contract.Stands (.sleeping untilBlock)) :
    (contract.id ∈ (activateContracts ledger contracts).1 ↔ untilBlock ≤ ledger.height) ∧
      (activateContracts ledger contracts).2.2[index]? =
        some (contract.wokenAt untilBlock ledger.height) := by
  induction contracts generalizing ledger index with
  | nil => cases hcontract
  | cons first rest ih =>
      rw [List.map_cons, List.nodup_cons] at hnodup
      obtain ⟨hfirst, hrest⟩ := hnodup
      rw [mem_activateContracts_cons]
      rcases hstirs : stirs ledger first with ⟨woken, next⟩
      have hheight : next.height = ledger.height := by
        rw [← height_stirs ledger first, hstirs]
      cases index with
      | zero =>
          obtain rfl : first = contract := Option.some.inj hcontract
          have habsent : first.id ∉ (activateContracts next rest).1 :=
            fun hwoken => hfirst ((sublist_activateContracts _ rest).subset hwoken)
          have hsleeper := stirs_of_sleeping hsleeps ledger
          rw [hstirs] at hsleeper
          cases hsleeper
          simp only [habsent, or_false, and_true, decide_eq_true_eq, true_and]
          by_cases hripe : untilBlock ≤ ledger.height
          · rw [decide_eq_true hripe] at hstirs
            rw [activateContracts_of_woken rest hstirs, Contract.wokenAt, if_pos hripe]
            rfl
          · rw [decide_eq_false hripe] at hstirs
            rw [activateContracts_of_passed rest hstirs, Contract.wokenAt, if_neg hripe]
            rfl
      | succ index =>
          have hne : contract.id ≠ first.id :=
            fun hid => hfirst (hid ▸ List.mem_map_of_mem (List.mem_of_getElem? hcontract))
          have hlater := ih hrest next hcontract
          rw [hheight] at hlater
          simp only [hne, and_false, false_or]
          refine ⟨hlater.1, ?_⟩
          cases woken with
          | true =>
              rw [activateContracts_of_woken rest hstirs]
              exact hlater.2
          | false =>
              rw [activateContracts_of_passed rest hstirs]
              exact hlater.2

-- A block finds a sleeper where its run has left it, empties its queue, and wakes it up if the next
-- height is that of its block.
theorem sleeper_forge {simulation : Simulation} {external : List Transaction}
    {table : BreakpointTable} {report : ForgeReport}
    (hok : (simulation.forge external table).1 = .ok report)
    (hnodup : (simulation.contracts.map Contract.id).Nodup) {index : Nat} {contract : Contract}
    (hcontract : (simulation.ran table).contracts[index]? = some contract)
    (hsleeps : contract.Stands (.sleeping untilBlock)) :
    (contract.id ∈ report.activated ↔ untilBlock ≤ simulation.ledger.height + 1) ∧
      (simulation.forge external table).2.contracts[index]? =
        some (contract.unqueued.wokenAt untilBlock (simulation.ledger.height + 1)) := by
  rcases forge_cases simulation external table with
    ⟨-, error, hforge⟩ | ⟨-, _, paid, settled, hforge, hpaid, hsettled, -, hactivated⟩
  · rw [hforge] at hok
    cases hok
  · rw [hforge] at hok ⊢
    cases hok
    have hran : (simulation.ran table).ledger.height = simulation.ledger.height :=
      height_runContracts _ _ _ _
    have hheight : settled.advance.height = simulation.ledger.height + 1 := by
      rw [advance, hsettled.height, hpaid.height, hran]
    have hids : (((simulation.ran table).cleared settled).contracts.map Contract.id).Nodup := by
      rw [cleared, List.map_map, ← map_id_ran simulation table] at *
      exact hnodup
    have hcleared : ((simulation.ran table).cleared settled).contracts[index]? =
        some contract.unqueued := by
      rw [cleared, List.getElem?_map, hcontract]
      rfl
    have hsleeper := sleeper_activateContracts hids settled.advance hcleared
      (hsleeps : contract.unqueued.Stands (.sleeping untilBlock))
    rw [hheight] at hsleeper
    rw [hactivated]
    exact hsleeper

-- What a block does to contracts that have run: their queues are emptied, and some wake up.
theorem wakes_forge {simulation : Simulation} {external : List Transaction}
    {table : BreakpointTable} {report : ForgeReport}
    (hok : (simulation.forge external table).1 = .ok report) :
    List.Forall₂
      (fun before after => after = before.unqueued ∨ after = before.unqueued.reactivate)
      (simulation.ran table).contracts (simulation.forge external table).2.contracts := by
  rcases forge_cases simulation external table with
    ⟨-, error, hforge⟩ | ⟨-, _, paid, settled, hforge, -⟩
  · rw [hforge] at hok
    cases hok
  · have hwakes := wakes_activateContracts settled.advance
      ((simulation.ran table).cleared settled).contracts
    rw [cleared, List.forall₂_map_left_iff] at hwakes
    rw [hforge]
    exact hwakes.imp fun _ _ hafter => hafter.imp_right fun hwoken => hwoken.2.2

-- Contracts that run one after another: each finds the ledger that those before it have left.
theorem getElem?_runContracts (protocol : Protocol) (table : BreakpointTable)
    (before after : List Contract) {contract : Contract} (hrunning : contract.running = true)
    (ledger : Ledger) :
    (runContracts protocol table ledger (before ++ contract :: after)).2.2[before.length]? =
      some (Machine.run ⟨contract, (runContracts protocol table ledger before).2.1⟩ protocol
        (table.of contract.id)).2.contract := by
  induction before generalizing ledger with
  | nil => simp only [runContracts, List.nil_append, hrunning, ite_true, List.length_nil,
      List.getElem?_cons_zero]
  | cons first rest ih =>
      simp only [runContracts, List.cons_append]
      split_ifs
      · exact ih _
      · exact ih ledger

end Simulation

end ContractSim
