import ContractSim.Proofs.Ledger.History
import ContractSim.Proofs.Simulation.Activation
import ContractSim.Proofs.Simulation.Dispatch
import ContractSim.Proofs.Simulation.Move

namespace ContractSim

open Ledger

namespace Machine

theorem grows_withdrawn (machine : Machine) (amount : Word) :
    Grows machine.ledger (machine.withdrawn amount) :=
  (opened_setBalance machine.ledger machine.contract.id _).grows

theorem grows_send (machine : Machine) (recipient amount : Word) (token : Option Holding)
    (page : Option Register) :
    Grows machine.ledger ((send recipient amount token page).run machine).2.ledger := by
  rw [run_send]
  split_ifs
  · exact Grows.refl machine.ledger
  · exact (opened_touch machine.ledger machine.contract.id).grows
  · exact machine.grows_withdrawn amount

theorem grows_distribute (machine : Machine) :
    Grows machine.ledger (distribute.run machine).2.ledger := by
  rw [run_distribute]
  split_ifs
  · exact Grows.refl machine.ledger
  · have htaken : Grows machine.ledger machine.unitsTaken.2 := by
      unfold unitsTaken
      split_ifs
      · exact Grows.refl machine.ledger
      · exact (opened_debitAsset _ _ _ _).grows
    exact htaken.trans (grows_withdrawn ⟨machine.contract, machine.unitsTaken.2⟩ _)

theorem grows_callEffect {machine after : Machine} (heffect : CallEffect machine after) :
    Grows machine.ledger after.ledger := by
  cases heffect with
  | registers => exact Grows.refl machine.ledger
  | issue => exact grows_issueAsset _ _ _ _ _
  | mint => exact grows_mintAsset _ _ _ _
  | setMap => exact grows_setMapValue _ _ _ _ _
  | send => exact grows_send machine _ _ _ _
  | sendUnits asset quantity recipient amount =>
      have htaken := (opened_debitAsset machine.ledger machine.contract.id asset quantity).grows
      have hsend := grows_send
        { machine with
          ledger := (machine.ledger.debitAsset machine.contract.id asset quantity).2 }
        recipient amount
        (some ⟨asset, (machine.ledger.debitAsset machine.contract.id asset quantity).1⟩) none
      exact htaken.trans hsend
  | distribute => exact grows_distribute machine

-- A step records nothing, but it may open the account of its contract and issue an asset.
theorem grows_advance (machine : Machine) (protocol : Protocol) :
    Grows machine.ledger (machine.advance protocol).2.ledger := by
  rcases executed_advance machine protocol with
    ⟨hledger, -⟩ | ⟨line, instruction, fee, after, -, -, hexecuted, hledger, -⟩
  · rw [hledger]
    exact Grows.refl machine.ledger
  · rw [hledger]
    have hcharged : Grows machine.ledger ((machine.arrived line).charged fee).ledger :=
      grows_withdrawn (machine.arrived line) fee
    cases hexecuted with
    | work => exact hcharged
    | call hcalled =>
        have hcall := grows_callEffect hcalled.effect
        exact hcharged.trans hcall

end Machine

namespace Simulation

-- Waking up may spend transactions, which keep their ids.
theorem grows_activateContracts (ledger : Ledger) (contracts : List Contract) :
    Grows ledger (activateContracts ledger contracts).2.1 := by
  induction contracts generalizing ledger with
  | nil => exact Grows.refl ledger
  | cons contract rest ih =>
      have hstirs : Grows ledger (stirs ledger contract).2 := by
        have hcases := stirs_cases ledger contract
        generalize stirs ledger contract = result at hcases ⊢
        cases hcases with
        | passes | sleeps | rises | waits => exact Grows.refl ledger
        | @spends next before after tx _ _ hsplit hnext =>
            subst hnext
            refine Grows.of_eq rfl ?_ rfl rfl
            simp [hsplit, Transaction.spent]
      rw [ledger_activateContracts_cons]
      exact hstirs.trans (ih _)

theorem Move.grows {before after : Simulation} (hmove : Move before after) :
    Grows before.ledger after.ledger := by
  have happly : ∀ ledger tx, Grows before.ledger ledger →
      Grows before.ledger ((apply tx).run ledger).2 :=
    fun ledger tx hgrows => hgrows.trans (ledger.grows_apply tx)
  cases hmove with
  | step simulation left machine right => exact machine.grows_advance simulation.protocol
  | dispatch hrun =>
      obtain ⟨ledger, contracts, hqueues, rfl⟩ := exists_dispatchQueues_of_dispatch hrun
      have hgrows := dispatchQueues_induction happly (Grows.refl before.ledger) before.contracts
      rw [hqueues] at hgrows
      exact hgrows
  | @receive _ _ external _ hrun =>
      have hgrows := applyExternal_induction happly (Grows.refl before.ledger) external
      rw [hrun] at hgrows
      exact hgrows
  | advance => exact Grows.of_eq rfl rfl rfl rfl
  | activate => exact grows_activateContracts before.ledger before.contracts
  | deploy _ deployment =>
      rcases before.deploy_outcomes deployment with
        hsame | ⟨id, htouch⟩ | ⟨deployed, balance, record, -, hnew⟩
      · rw [hsame]
        exact Grows.refl before.ledger
      · rw [htouch]
        exact (opened_touch before.ledger id).grows
      · rw [hnew]
        have hopened := (opened_setBalance before.ledger deployed.id balance).grows
        exact hopened.trans (Grows.of_eq rfl rfl rfl rfl)

theorem grows_moves {before after : Simulation} (hmoves : Relation.ReflTransGen Move before after) :
    Grows before.ledger after.ledger := by
  induction hmoves with
  | refl => exact Grows.refl before.ledger
  | tail _ hlast ih => exact ih.trans hlast.grows

theorem height_deploy (simulation : Simulation) (deployment : Deployment) :
    (simulation.deploy deployment).2.ledger.height = simulation.ledger.height := by
  rcases simulation.deploy_outcomes deployment with
    hsame | ⟨id, htouch⟩ | ⟨deployed, balance, record, -, hnew⟩
  · rw [hsame]
  · rw [htouch, (opened_touch simulation.ledger id).rest]
  · rw [hnew]
    exact height_setBalance simulation.ledger deployed.id balance

end Simulation

namespace Transaction

-- A list of transactions goes on: the old ones have aged, and the new ones are of one height and
-- of the kinds that their tokens and messages give them.
def Continues (height : Word) (before after : List Transaction) : Prop :=
  ∃ kept new, after = kept ++ new ∧ List.Forall₂ Ages before kept ∧
    ∀ tx ∈ new, tx.blockheight = height ∧ tx.classified = tx

namespace Continues

variable {height : Word} {before after : List Transaction}

theorem refl (height : Word) (transactions : List Transaction) :
    Continues height transactions transactions :=
  ⟨transactions, [], (List.append_nil _).symm, List.forall₂_same.mpr fun _ _ => .inl rfl,
    List.forall_mem_nil _⟩

theorem append (hcontinues : Continues height before after) {recorded : List Transaction}
    (hrecorded : ∀ tx ∈ recorded, tx.blockheight = height ∧ tx.classified = tx) :
    Continues height before (after ++ recorded) := by
  obtain ⟨kept, new, rfl, hkept, hnew⟩ := hcontinues
  exact ⟨kept, new ++ recorded, List.append_assoc _ _ _, hkept,
    List.forall_mem_append.mpr ⟨hnew, hrecorded⟩⟩

-- Height and kind do not age.
theorem ages (hcontinues : Continues height before after) {later : List Transaction}
    (hages : List.Forall₂ Ages after later) : Continues height before later := by
  obtain ⟨kept, new, rfl, hkept, hnew⟩ := hcontinues
  have hold := List.forall₂_take_append later kept new hages.flip
  have hlast := List.forall₂_drop_append later kept new hages.flip
  refine ⟨later.take kept.length, later.drop kept.length, (List.take_append_drop _ _).symm, ?_, ?_⟩
  · exact forall₂_comp (fun _ _ _ hfirst hsecond => hfirst.trans hsecond) hkept hold.flip
  · refine forall_mem_of_forall₂ hlast.flip ?_ hnew
    rintro tx _ (rfl | ⟨-, rfl⟩) ⟨hheight, hkind⟩
    · exact ⟨hheight, hkind⟩
    · exact ⟨hheight, congrArg spent hkind⟩

end Continues

end Transaction

namespace Simulation

open Transaction

-- Transactions that have been posted come last on the ledger.
theorem continues_posted {height : Word} {start : List Transaction} {before after : Ledger}
    {transactions : List Transaction} {ids : List Word}
    (hcontinues : Continues height start before.transactions) (hheight : before.height = height)
    (hposted : Posted before transactions ids after)
    (hkinds : ∀ tx ∈ transactions, tx.classified = tx) :
    Continues height start after.transactions := by
  obtain ⟨recorded, hlist, -, hrecorded⟩ := hposted.recorded
  rw [hlist]
  refine hcontinues.append (forall_mem_of_forall₂ hrecorded ?_ hkinds)
  intro tx record hrecord hkind
  rw [hrecord, hheight]
  refine ⟨rfl, ?_⟩
  have hsame : tx.kind = TransactionKind.classify tx.tokens tx.message :=
    (congrArg Transaction.kind hkind).symm
  simp only [classified, hsame]

-- What a block does to the transactions. Payments that waited get their kinds on the way.
theorem continues_forge {simulation : Simulation} {external : List Transaction}
    (hexternal : ∀ tx ∈ external, tx.classified = tx) (table : BreakpointTable) :
    Continues simulation.ledger.height simulation.ledger.transactions
      (simulation.forge external table).2.ledger.transactions := by
  rcases forge_cases simulation external table with
    ⟨-, error, hforge⟩ | ⟨-, report, paid, settled, hforge, hpaid, hsettled, -⟩
  · rw [hforge]
    exact Continues.refl _ _
  · have hran : (simulation.ran table).ledger.transactions = simulation.ledger.transactions :=
      transactions_runContracts _ _ _ _
    have hheight : (simulation.ran table).ledger.height = simulation.ledger.height :=
      height_runContracts _ _ _ _
    have hstart : Continues simulation.ledger.height simulation.ledger.transactions
        (simulation.ran table).ledger.transactions := by
      rw [hran]
      exact Continues.refl _ _
    have hqueued := continues_posted hstart hheight hpaid
      (List.forall_mem_map.mpr fun _ _ => rfl)
    have hdue := continues_posted hqueued (hpaid.height.trans hheight) hsettled
      fun tx hmem => hexternal tx (List.mem_filter.mp hmem).1
    rw [hforge]
    refine hdue.ages ?_
    exact (rouses_activateContracts settled.advance _).imp fun _ _ hrouses => hrouses.ages

end Simulation

end ContractSim
