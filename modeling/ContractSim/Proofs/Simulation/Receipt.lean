import ContractSim.Proofs.Simulation.Activation

namespace ContractSim

namespace Transaction

-- What transactions bring depends on their recipients and amounts alone.
theorem totalTo_of_forall₂ {related : Transaction → Transaction → Prop}
    (hsame : ∀ tx other, related tx other →
      other.recipient = tx.recipient ∧ other.amount = tx.amount)
    {transactions others : List Transaction}
    (hrelated : List.Forall₂ related transactions others) (id : Word) :
    totalTo others id = totalTo transactions id := by
  have hfiltered := forall₂_filter (·.recipient == id) (·.recipient == id)
    (fun tx other hboth => congrArg (· == id) (hsame tx other hboth).1) hrelated
  rw [totalTo, totalTo, totalAmount, totalAmount]
  refine congrArg List.sum (map_eq_of_forall₂ _ _ ?_ hfiltered)
  rintro tx other ⟨-, hboth⟩
  rw [(hsame tx other hboth).2]

theorem totalTo_of_ages {before after : List Transaction}
    (hages : List.Forall₂ Ages before after) (id : Word) :
    totalTo after id = totalTo before id := by
  refine totalTo_of_forall₂ ?_ hages id
  rintro tx _ (rfl | ⟨-, rfl⟩)
  · exact ⟨rfl, rfl⟩
  · exact ⟨rfl, rfl⟩

theorem totalTo_of_recordedAt {height : Word} {transactions recorded : List Transaction}
    (hrecorded : List.Forall₂ (RecordedAt height) transactions recorded) (id : Word) :
    totalTo recorded id = totalTo transactions id := by
  refine totalTo_of_forall₂ ?_ hrecorded id
  intro tx record hrecord
  rw [hrecord]
  exact ⟨rfl, rfl⟩

end Transaction

namespace Ledger

open Transaction

-- From one ledger to another the balance of an account has grown by what the transactions that
-- are new on the ledger bring to it, and by nothing else.
def Receives (id : Word) (before after : Ledger) : Prop :=
  ∃ kept new, after.transactions = kept ++ new ∧ List.Forall₂ Ages before.transactions kept ∧
    (after.balance id).toNat = (before.balance id).toNat + totalTo new id

namespace Receives

variable {id : Word} {before after first second third : Ledger}

-- Nothing new is on the ledger.
theorem of_ages (hages : List.Forall₂ Ages before.transactions after.transactions)
    (hbalance : after.balance id = before.balance id) : Receives id before after := by
  refine ⟨after.transactions, [], (List.append_nil _).symm, hages, ?_⟩
  rw [hbalance, totalTo_nil, Nat.add_zero]

theorem of_eq (htransactions : after.transactions = before.transactions)
    (hbalance : after.balance id = before.balance id) : Receives id before after := by
  refine of_ages ?_ hbalance
  rw [htransactions]
  exact List.forall₂_same.mpr fun _ _ => .inl rfl

theorem refl (id : Word) (ledger : Ledger) : Receives id ledger ledger := of_eq rfl rfl

theorem of_posted {transactions : List Transaction} {ids : List Word}
    (hposted : Posted before transactions ids after) (id : Word) : Receives id before after := by
  obtain ⟨recorded, hlist, -, hrecorded⟩ := hposted.recorded
  refine ⟨before.transactions, recorded, hlist, List.forall₂_same.mpr fun _ _ => .inl rfl, ?_⟩
  rw [hposted.balance, totalTo_of_recordedAt hrecorded]

-- What is new on the second ledger may have aged on the third, which takes nothing from it.
theorem trans (hleft : Receives id first second) (hright : Receives id second third) :
    Receives id first third := by
  obtain ⟨kept, new, hsecond, hkept, hfirst⟩ := hleft
  obtain ⟨stayed, newer, hthird, hstayed, hbalance⟩ := hright
  rw [hsecond] at hstayed
  obtain ⟨old, aged, rfl, hold, haged⟩ := exists_append_of_forall₂ hstayed
  refine ⟨old, aged ++ newer, ?_, ?_, ?_⟩
  · rw [hthird, List.append_assoc]
  · exact forall₂_comp (fun _ _ _ hearly hlate => hearly.trans hlate) hkept hold
  · rw [hbalance, hfirst, totalTo_append, totalTo_of_ages haged, Nat.add_assoc]

end Receives

end Ledger

namespace Simulation

open Ledger

-- Whoever does not run has the balance that it had, whatever the others spend.
theorem balance_runContracts (protocol : Protocol) (table : BreakpointTable)
    {contracts : List Contract} {id : Word}
    (hrests : ∀ contract ∈ contracts, contract.id = id → contract.running = false)
    (ledger : Ledger) :
    (runContracts protocol table ledger contracts).2.1.balance id = ledger.balance id := by
  induction contracts generalizing ledger with
  | nil => rfl
  | cons contract rest ih =>
      have hothers := fun other hmem => hrests other (List.mem_cons_of_mem contract hmem)
      simp only [runContracts]
      split_ifs with hrunning
      · have hne : id ≠ contract.id := by
          rintro rfl
          rw [hrests contract List.mem_cons_self rfl] at hrunning
          cases hrunning
        have hspends := (Machine.spends_run ⟨contract, ledger⟩ protocol (table.of contract.id)).2
        exact (ih hothers _).trans (hspends.others id hne)
      · exact ih hothers ledger

theorem ledger_runContracts (protocol : Protocol) (table : BreakpointTable)
    (before after : List Contract) {contract : Contract} (hrunning : contract.running = true)
    (ledger : Ledger) :
    (runContracts protocol table ledger (before ++ contract :: after)).2.1 =
      (runContracts protocol table
        (Machine.run ⟨contract, (runContracts protocol table ledger before).2.1⟩ protocol
          (table.of contract.id)).2.ledger after).2.1 := by
  induction before generalizing ledger with
  | nil => simp only [runContracts, List.nil_append, hrunning, ite_true]
  | cons first rest ih =>
      simp only [runContracts, List.cons_append]
      split_ifs
      · exact ih _
      · exact ih ledger

-- When the contracts have run, a block brings every account what it records, and no more.
theorem receives_forge {simulation : Simulation} {external : List Transaction}
    {table : BreakpointTable} {report : ForgeReport}
    (hok : (simulation.forge external table).1 = .ok report) (id : Word) :
    Receives id (simulation.ran table).ledger (simulation.forge external table).2.ledger := by
  rcases forge_cases simulation external table with
    ⟨-, error, hforge⟩ | ⟨-, _, paid, settled, hforge, hpaid, hsettled, -⟩
  · rw [hforge] at hok
    cases hok
  · rw [hforge]
    have hwakes := rouses_activateContracts settled.advance
      ((simulation.ran table).cleared settled).contracts
    have hsame := sameBalances_activateContracts settled.advance
      ((simulation.ran table).cleared settled).contracts
    have hactivate : Receives id settled
        (activate ((simulation.ran table).cleared settled).advanceHeight).2.ledger :=
      .of_ages (hwakes.imp fun _ _ hrouses => hrouses.ages) (hsame.balance id)
    exact ((Receives.of_posted hpaid id).trans (.of_posted hsettled id)).trans hactivate

-- A new contract gets an account of its own.
theorem receives_deploy {simulation : Simulation} (deployment : Deployment)
    (hroom : ∃ id, isTaken simulation.ledger id = false) {id : Word}
    (hhas : simulation.ledger.hasAccount id = true) :
    Receives id simulation.ledger (simulation.deploy deployment).2.ledger := by
  refine .of_eq (simulation.transactions_deploy deployment) ?_
  rcases simulation.deploy_cases deployment hroom with
    ⟨error, hdeploy⟩ | ⟨deployed, record, hfree, -, -, hdeploy⟩
  · rw [hdeploy]
  · have hne : id ≠ deployed.id := by
      rintro rfl
      rw [hasAccount_of_isTaken hfree] at hhas
      cases hhas
    rw [hdeploy]
    exact balance_setBalance_of_ne simulation.ledger (simulation.funding deployment) hne

end Simulation

end ContractSim
