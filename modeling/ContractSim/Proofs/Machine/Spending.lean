import ContractSim.Proofs.Api.Shares
import ContractSim.Proofs.Contract.Queue
import ContractSim.Proofs.Machine.Effect

namespace ContractSim

-- The price of the cheapest instruction.
def Protocol.leastFee (protocol : Protocol) : Nat :=
  min (protocol.fee .standard).toNat (protocol.fee .api).toNat

theorem Protocol.leastFee_le_fee (protocol : Protocol) (instruction : Instruction) :
    protocol.leastFee ≤ (protocol.fee (FeeClass.ofInstruction instruction)).toNat := by
  cases instruction
  case call => exact Nat.min_le_right _ _
  all_goals exact Nat.min_le_left _ _

namespace Machine

-- On the way from one machine to another the contract has paid fees for a number of instructions.
-- Nobody else has lost or gained, and all that has left the balance otherwise waits in the queue,
-- as long as balance and queue fit in a word together.
structure Spends (fees steps : Nat) (before after : Machine) : Prop where
  id : after.contract.id = before.contract.id
  height : after.ledger.height = before.ledger.height
  amounts : after.ledger.amounts = before.ledger.amounts
  hasAccount : ∀ id, before.ledger.hasAccount id = true → after.ledger.hasAccount id = true
  others : ∀ id, id ≠ before.contract.id → after.ledger.balance id = before.ledger.balance id
  totalBalance : after.ledger.totalBalance + before.balance.toNat =
    before.ledger.totalBalance + after.balance.toNat
  balance : after.balance.toNat + fees ≤ before.balance.toNat
  queued : before.balance.toNat + before.contract.queued < Word.modulus →
    after.balance.toNat + after.contract.queued + fees =
      before.balance.toNat + before.contract.queued
  feesPaid : after.contract.feesPaid = before.contract.feesPaid + UInt64.ofNat fees
  steps : after.contract.steps = before.contract.steps + steps

namespace Spends

theorem trans {first second third : Machine} {fees more steps further : Nat}
    (hleft : Spends fees steps first second) (hright : Spends more further second third) :
    Spends (fees + more) (steps + further) first third where
  id := hright.id.trans hleft.id
  height := hright.height.trans hleft.height
  amounts := hright.amounts.trans hleft.amounts
  hasAccount id hhas := hright.hasAccount id (hleft.hasAccount id hhas)
  others id hne := by
    rw [hright.others id (by rwa [hleft.id]), hleft.others id hne]
  totalBalance := by
    have hl := hleft.totalBalance
    have hr := hright.totalBalance
    omega
  balance := by
    have hl := hleft.balance
    have hr := hright.balance
    omega
  queued hfits := by
    have hl := hleft.queued hfits
    have hr := hright.queued (by omega)
    omega
  feesPaid := by
    rw [hright.feesPaid, hleft.feesPaid, UInt64.ofNat_add, UInt64.add_assoc]
  steps := by
    rw [hright.steps, hleft.steps, Nat.add_assoc]

-- What is free of charge adds nothing.
theorem trans_free {first second third : Machine} {fees steps : Nat}
    (hleft : Spends fees steps first second) (hright : Spends 0 0 second third) :
    Spends fees steps first third :=
  hleft.trans hright

-- The counters tell exactly what was paid: no more than a balance, which is a word.
theorem fees_eq {before after : Machine} {fees steps : Nat}
    (hspends : Spends fees steps before after) :
    (after.contract.feesPaid - before.contract.feesPaid).toNat = fees := by
  have hbalance := hspends.balance
  have hword := Word.toNat_lt_modulus before.balance
  rw [hspends.feesPaid, UInt64.add_comm, UInt64.add_sub_cancel, Word.toNat_ofNat (by omega)]

-- The counter of fees falls exactly when it passes the largest word.
theorem feesPaid_le_iff {before after : Machine} {fees steps : Nat}
    (hspends : Spends fees steps before after) :
    before.contract.feesPaid ≤ after.contract.feesPaid ↔
      before.contract.feesPaid.toNat + fees < Word.modulus := by
  have hbalance := hspends.balance
  have hword := Word.toNat_lt_modulus before.balance
  have hcounter := Word.toNat_lt_modulus before.contract.feesPaid
  have hsum : after.contract.feesPaid.toNat =
      (before.contract.feesPaid.toNat + fees) % Word.modulus := by
    rw [hspends.feesPaid, UInt64.toNat_add, Word.toNat_ofNat (by omega)]
    rfl
  rw [UInt64.le_iff_toNat_le, hsum]
  unfold Word.modulus at *
  omega

theorem toNat_feesPaid {before after : Machine} {fees steps : Nat}
    (hspends : Spends fees steps before after)
    (hgrows : before.contract.feesPaid ≤ after.contract.feesPaid) :
    after.contract.feesPaid.toNat = before.contract.feesPaid.toNat + fees := by
  have hfits := hspends.feesPaid_le_iff.mp hgrows
  have hfees : (UInt64.ofNat fees).toNat = fees := Word.toNat_ofNat (by omega)
  rw [hspends.feesPaid, Word.toNat_add_of_lt (by omega), hfees]

theorem steps_eq {before after : Machine} {fees steps : Nat}
    (hspends : Spends fees steps before after) :
    after.contract.steps - before.contract.steps = steps := by
  rw [hspends.steps, Nat.add_sub_cancel_left]

-- Whatever else changes, nothing is spent while balances and queue stay.
theorem of_sameBalances {before after : Machine} (hid : after.contract.id = before.contract.id)
    (hqueue : after.contract.queue = before.contract.queue)
    (hfees : after.contract.feesPaid = before.contract.feesPaid)
    (hsteps : after.contract.steps = before.contract.steps)
    (hledger : before.ledger.SameBalances after.ledger) : Spends 0 0 before after := by
  have hbalance : after.balance = before.balance := by
    rw [Machine.balance, hid, hledger.balance, Machine.balance]
  have hqueued : after.contract.queued = before.contract.queued := by
    rw [Contract.queued, hqueue, Contract.queued]
  constructor
  · exact hid
  · exact hledger.height
  · exact hledger.amounts
  · exact hledger.hasAccount
  · intro id _
    exact hledger.balance id
  · rw [hledger.totalBalance, hbalance]
  · rw [hbalance, Nat.add_zero]
  · intro _
    rw [hbalance, hqueued, Nat.add_zero]
  · rw [hfees]
    exact (UInt64.add_zero _).symm
  · exact hsteps

theorem refl (machine : Machine) : Spends 0 0 machine machine :=
  of_sameBalances rfl rfl rfl rfl (Ledger.SameBalances.refl machine.ledger)

-- A change of the contract alone, away from its books.
theorem of_contract {machine : Machine} {contract : Contract}
    (hid : contract.id = machine.contract.id) (hqueue : contract.queue = machine.contract.queue)
    (hfees : contract.feesPaid = machine.contract.feesPaid)
    (hsteps : contract.steps = machine.contract.steps) :
    Spends 0 0 machine { machine with contract } :=
  of_sameBalances hid hqueue hfees hsteps (Ledger.SameBalances.refl machine.ledger)

theorem of_ledger {machine : Machine} {ledger : Ledger}
    (hledger : machine.ledger.SameBalances ledger) : Spends 0 0 machine { machine with ledger } :=
  of_sameBalances rfl rfl rfl rfl hledger

end Spends

-- The ledger with an amount taken from the balance of the contract.
def withdrawn (machine : Machine) (amount : Word) : Ledger :=
  machine.ledger.setBalance machine.contract.id (machine.balance - amount)

theorem balance_withdrawn (machine : Machine) (amount : Word) {contract : Contract}
    (hid : contract.id = machine.contract.id) :
    Machine.balance ⟨contract, machine.withdrawn amount⟩ = machine.balance - amount := by
  rw [Machine.balance, hid]
  exact Ledger.balance_setBalance_self _ _ _

-- What is withdrawn is missing from the balance.
theorem toNat_balance_withdrawn {machine : Machine} {amount : Word}
    (hle : amount ≤ machine.balance) {contract : Contract}
    (hid : contract.id = machine.contract.id) :
    (Machine.balance ⟨contract, machine.withdrawn amount⟩).toNat + amount.toNat =
      machine.balance.toNat := by
  rw [balance_withdrawn machine amount hid, UInt64.toNat_sub_of_le _ _ hle]
  exact Nat.sub_add_cancel (UInt64.le_iff_toNat_le.mp hle)

-- What is withdrawn is a fee, and counted, or a payment, and queued.
theorem spends_withdrawn {machine : Machine} {amount : Word} (hle : amount ≤ machine.balance)
    {contract : Contract} {fees steps : Nat} (hid : contract.id = machine.contract.id)
    (hfees : fees ≤ amount.toNat)
    (hqueued : machine.balance.toNat + machine.contract.queued < Word.modulus →
      contract.queued + fees = machine.contract.queued + amount.toNat)
    (hfeesPaid : contract.feesPaid = machine.contract.feesPaid + UInt64.ofNat fees)
    (hsteps : contract.steps = machine.contract.steps + steps) :
    Spends fees steps machine ⟨contract, machine.withdrawn amount⟩ := by
  have hself := balance_withdrawn machine amount hid
  have hbalance := toNat_balance_withdrawn hle hid
  constructor
  · exact hid
  · exact Ledger.height_setBalance _ _ _
  · exact Ledger.amounts_setBalance _ _ _
  · intro id hhas
    exact Ledger.hasAccount_setBalance _ _ _ id (.inr hhas)
  · intro id hne
    exact Ledger.balance_setBalance_of_ne _ _ hne
  · rw [hself]
    exact Ledger.totalBalance_setBalance machine.ledger machine.contract.id _
  · omega
  · intro hfits
    have hqueue := hqueued hfits
    dsimp only
    omega
  · exact hfeesPaid
  · exact hsteps

theorem run_changeLedger {α : Type} (change : Ledger.Change α) (machine : Machine) :
    (changeLedger change).run machine =
      match change.run machine.ledger with
      | (.ok answer, ledger) => (.ok answer, { machine with ledger })
      | (.error error, ledger) => (.error (.ledger error), { machine with ledger }) := by
  simp only [changeLedger, Action.run_bind, run_askLedger]
  rcases change.run machine.ledger with ⟨result, ledger⟩
  cases result with
  | ok answer => rfl
  | error error => rfl

-- A withdrawal goes through exactly when the balance covers it.
theorem run_changeLedger_debit (machine : Machine) (amount : Word) :
    (changeLedger (Ledger.debit machine.contract.id amount)).run machine =
      if machine.balance < amount then
        (.error (.ledger (.insufficientBalance machine.contract.id amount machine.balance)),
          { machine with ledger := machine.ledger.touch machine.contract.id })
      else (.ok (), { machine with ledger := machine.withdrawn amount }) := by
  rw [run_changeLedger, Ledger.run_debit]
  unfold Machine.balance
  split_ifs
  · rfl
  · rfl

-- A payment of nothing is passed over. Any other one is queued exactly when the balance covers it.
theorem run_send (machine : Machine) (recipient amount : Word) (token : Option Holding)
    (page : Option Register) :
    (send recipient amount token page).run machine =
      if amount = 0 ∧ token.all (·.quantity == 0) ∧ page.isNone then (.ok .done, machine)
      else if machine.balance < amount then
        (.error (.ledger (.insufficientBalance machine.contract.id amount machine.balance)),
          { machine with ledger := machine.ledger.touch machine.contract.id })
      else
        (.ok .done,
          ⟨machine.contract.enqueue recipient amount token page (machine.withdrawn amount).height,
            machine.withdrawn amount⟩) := by
  by_cases hnothing : amount = 0 ∧ token.all (·.quantity == 0) ∧ page.isNone
  · simp only [send, hnothing, and_self, ite_true, Action.run_pure]
  · rw [if_neg hnothing]
    by_cases hshort : machine.balance < amount
    · simp only [send, hnothing, ite_false, Action.run_bind, Action.run_get,
        run_changeLedger_debit, hshort, ite_true]
    · simp only [send, hnothing, ite_false, Action.run_bind, Action.run_get,
        run_changeLedger_debit, hshort, run_modifyContract, Action.run_pure]

theorem spends_send (machine : Machine) (recipient amount : Word) (token : Option Holding)
    (page : Option Register) :
    Spends 0 0 machine ((send recipient amount token page).run machine).2 := by
  rw [run_send]
  split_ifs with hnothing hshort
  · exact Spends.refl machine
  · exact Spends.of_ledger (Ledger.sameBalances_touch _ _)
  · have hle : amount ≤ machine.balance := UInt64.not_lt.mp hshort
    have hnat := UInt64.le_iff_toNat_le.mp hle
    obtain ⟨queue, hqueue⟩ := machine.contract.exists_enqueue_eq recipient amount token page
      (machine.withdrawn amount).height
    apply spends_withdrawn hle
    · rw [hqueue]
    · exact Nat.zero_le _
    · intro hfits
      rw [Contract.queued_enqueue _ _ _ _ _ _ (by omega), Nat.add_zero]
    · rw [hqueue]
      exact (UInt64.add_zero _).symm
    · rw [hqueue, Nat.add_zero]

-- Units of an asset leave the account before the payment is queued.
theorem spends_sendUnits (machine : Machine) (asset quantity recipient amount : Word) :
    Spends 0 0 machine
      ((send recipient amount
          (some ⟨asset, (machine.ledger.debitAsset machine.contract.id asset quantity).1⟩)
          none).run
        { machine with
          ledger := (machine.ledger.debitAsset machine.contract.id asset quantity).2 }).2 :=
  (Spends.of_ledger (Ledger.sameBalances_debitAsset _ _ _ _)).trans_free (spends_send _ _ _ _ _)

-- The amounts among shares.
def sharedAmount (shares : List ((Word × Word) × Word × Word)) : Nat :=
  Word.total (shares.map fun share => share.2.1)

theorem exists_queueShares_eq (contract : Contract) (asset height : Word)
    (shares : List ((Word × Word) × Word × Word)) :
    ∃ queue, queueShares contract asset height shares = { contract with queue } := by
  induction shares generalizing contract with
  | nil => exact ⟨contract.queue, rfl⟩
  | cons share rest ih =>
      obtain ⟨⟨holder, quantity⟩, amount, units⟩ := share
      simp only [queueShares]
      split_ifs
      · exact ih contract
      all_goals
        obtain ⟨queue, hqueue⟩ := contract.exists_enqueue_eq holder amount _ none height
        rw [hqueue]
        exact ih _

-- Shares that fit on top of the queue together are queued without loss.
theorem queued_queueShares (contract : Contract) (asset height : Word)
    (shares : List ((Word × Word) × Word × Word))
    (hfits : contract.queued + sharedAmount shares < Word.modulus) :
    (queueShares contract asset height shares).queued = contract.queued + sharedAmount shares := by
  induction shares generalizing contract with
  | nil => rfl
  | cons share rest ih =>
      obtain ⟨⟨holder, quantity⟩, amount, units⟩ := share
      have hsum : sharedAmount (((holder, quantity), amount, units) :: rest) =
          amount.toNat + sharedAmount rest := rfl
      rw [hsum] at hfits ⊢
      rw [queueShares]
      by_cases hnothing : amount = 0 ∧ units = 0
      · rw [if_pos hnothing, ih contract (by omega), hnothing.1]
        simp
      · have henqueue := contract.queued_enqueue holder amount
          (if 0 < units then some ⟨asset, units⟩ else none) none height (by omega)
        rw [if_neg hnothing, ih _ (by omega), henqueue, Nat.add_assoc]

-- A holder has at least one unit, so there is something to divide by.
theorem total_assetHolders_ne_zero (ledger : Ledger) (asset least exclude : Word)
    (hholders : (ledger.assetHolders asset least exclude).isEmpty = false) :
    Word.total ((ledger.assetHolders asset least exclude).map Prod.snd) ≠ 0 := by
  obtain ⟨holder, hmem⟩ := List.exists_mem_of_ne_nil _ (List.isEmpty_eq_false_iff.mp hholders)
  have hpositive : 0 < holder.2 := by
    have hfilter := hmem
    rw [Ledger.assetHolders, List.mem_mergeSort, List.mem_filter, Bool.and_eq_true,
      decide_eq_true_eq] at hfilter
    exact hfilter.2.1
  have hle : holder.2.toNat ≤ Word.total ((ledger.assetHolders asset least exclude).map
      Prod.snd) := by
    rw [Word.total_eq_sum]
    exact List.le_sum_of_mem (List.mem_map_of_mem (List.mem_map_of_mem hmem))
  have hnat : 0 < holder.2.toNat := hpositive
  omega

-- Each holder gets a share of the amount and a share of the units.
theorem map_zip_proRataShares (holders : List (Word × Word)) (amount units : Word) :
    ((holders.zip ((proRataShares amount (holders.map Prod.snd)).zip
        (proRataShares units (holders.map Prod.snd)))).map fun share => share.2.1) =
        proRataShares amount (holders.map Prod.snd) ∧
      ((holders.zip ((proRataShares amount (holders.map Prod.snd)).zip
        (proRataShares units (holders.map Prod.snd)))).map fun share => share.2.2) =
        proRataShares units (holders.map Prod.snd) := by
  have hamounts := length_proRataShares amount (holders.map Prod.snd)
  have hunits := length_proRataShares units (holders.map Prod.snd)
  rw [List.length_map] at hamounts hunits
  have hshares : (holders.zip ((proRataShares amount (holders.map Prod.snd)).zip
      (proRataShares units (holders.map Prod.snd)))).map Prod.snd =
      (proRataShares amount (holders.map Prod.snd)).zip
        (proRataShares units (holders.map Prod.snd)) := by
    rw [List.map_snd_zip]
    rw [List.length_zip]
    omega
  constructor
  · refine (List.map_map ..).symm.trans ((congrArg (List.map Prod.fst) hshares).trans ?_)
    exact List.map_fst_zip (by omega)
  · refine (List.map_map ..).symm.trans ((congrArg (List.map Prod.snd) hshares).trans ?_)
    exact List.map_snd_zip (by omega)

-- The shares of a split are the amount as a whole.
theorem sharedAmount_proRataShares (holders : List (Word × Word)) (amount units : Word)
    (hpositive : Word.total (holders.map Prod.snd) ≠ 0) :
    sharedAmount (holders.zip
      ((proRataShares amount (holders.map Prod.snd)).zip
        (proRataShares units (holders.map Prod.snd)))) = amount.toNat := by
  rw [sharedAmount, (map_zip_proRataShares holders amount units).1]
  exact total_proRataShares amount _ hpositive

-- The shares of an amount within the balance are withdrawn and queued together.
theorem spends_queueShares (machine : Machine) (asset height : Word) {amount : Word}
    {shares : List ((Word × Word) × Word × Word)} (hle : amount ≤ machine.balance)
    (hshares : sharedAmount shares = amount.toNat) :
    Spends 0 0 machine
      ⟨queueShares machine.contract asset height shares, machine.withdrawn amount⟩ := by
  have hnat := UInt64.le_iff_toNat_le.mp hle
  obtain ⟨queue, hqueue⟩ := exists_queueShares_eq machine.contract asset height shares
  apply spends_withdrawn hle
  · rw [hqueue]
  · exact Nat.zero_le _
  · intro hfits
    rw [queued_queueShares _ _ _ _ (by omega), hshares, Nat.add_zero]
  · rw [hqueue]
    exact (UInt64.add_zero _).symm
  · rw [hqueue, Nat.add_zero]

-- The last part of a distribution, once units of an asset may have been taken.
theorem run_shareOut (machine : Machine) {amount : Word} (hle : amount ≤ machine.balance)
    (change : Contract → Contract) :
    (do
        changeLedger (Ledger.debit machine.contract.id amount)
        modifyContract change
        return Answer.done : Action Answer).run machine =
      (.ok .done, ⟨change machine.contract, machine.withdrawn amount⟩) := by
  have hdebit := run_changeLedger_debit machine amount
  rw [if_neg (UInt64.not_lt.mpr hle)] at hdebit
  rw [Action.run_bind_of_ok hdebit]
  rfl

-- Those who get a share of a distribution, with what they hold.
def holders (machine : Machine) : List (Word × Word) :=
  machine.ledger.assetHolders machine.contract.b.w2 machine.contract.b.w1 machine.contract.id

-- The units that a distribution takes along, and the ledger without them.
def unitsTaken (machine : Machine) : Word × Ledger :=
  if machine.contract.a.w3 = 0 then (0, machine.ledger)
  else machine.ledger.debitAsset machine.contract.id machine.contract.a.w3 machine.contract.a.w4

-- The shares of a distribution, holder by holder.
def dividends (machine : Machine) : List ((Word × Word) × Word × Word) :=
  machine.holders.zip
    ((proRataShares (min machine.contract.a.w1 machine.balance) (machine.holders.map Prod.snd)).zip
      (proRataShares machine.unitsTaken.1 (machine.holders.map Prod.snd)))

theorem sameBalances_unitsTaken (machine : Machine) :
    machine.ledger.SameBalances machine.unitsTaken.2 := by
  unfold unitsTaken
  split_ifs
  · exact Ledger.SameBalances.refl machine.ledger
  · exact Ledger.sameBalances_debitAsset _ _ _ _

-- The balance is the same after the units have been taken.
theorem amount_le_balance (machine : Machine) :
    min machine.contract.a.w1 machine.balance ≤
      Machine.balance ⟨machine.contract, machine.unitsTaken.2⟩ := by
  have hbalance := machine.sameBalances_unitsTaken.balance machine.contract.id
  exact UInt64.le_trans (Word.min_le_right _ machine.balance) (UInt64.le_of_eq hbalance.symm)

-- A distribution does nothing without holders, and otherwise queues the shares of what it takes.
theorem run_distribute (machine : Machine) :
    distribute.run machine =
      if machine.holders.isEmpty then (.ok .done, machine)
      else
        (.ok .done,
          ⟨queueShares machine.contract machine.contract.a.w3 machine.ledger.height
              machine.dividends,
            Machine.withdrawn ⟨machine.contract, machine.unitsTaken.2⟩
              (min machine.contract.a.w1 machine.balance)⟩) := by
  have hle := machine.amount_le_balance
  rw [distribute, Action.run_bind_of_ok (Action.run_get machine)]
  dsimp only
  change (if machine.holders.isEmpty then _ else _ : Action Answer).run machine = _
  split_ifs with hempty hasset
  · rfl
  · have htaken : machine.unitsTaken = (0, machine.ledger) := if_pos hasset
    rw [dividends, htaken]
    rw [htaken] at hle
    exact run_shareOut machine hle _
  · have htaken : machine.unitsTaken = machine.ledger.debitAsset machine.contract.id
        machine.contract.a.w3 machine.contract.a.w4 := if_neg hasset
    rw [dividends, htaken, Action.run_bind_of_ok (run_askLedger _ machine)]
    rw [htaken] at hle
    exact run_shareOut _ hle _

theorem spends_distribute (machine : Machine) :
    Spends 0 0 machine (distribute.run machine).2 := by
  rw [run_distribute]
  split_ifs with hempty
  · exact Spends.refl machine
  · have hpositive := total_assetHolders_ne_zero _ _ _ _ (Bool.eq_false_iff.mpr hempty)
    have hshares : sharedAmount machine.dividends =
        (min machine.contract.a.w1 machine.balance).toNat :=
      sharedAmount_proRataShares machine.holders _ _ hpositive
    exact (Spends.of_ledger machine.sameBalances_unitsTaken).trans_free
      (spends_queueShares ⟨machine.contract, machine.unitsTaken.2⟩ _ _ machine.amount_le_balance
        hshares)

-- No built-in function can raise the balance of the contract that calls it, or of anyone else.
theorem spends_callEffect {machine after : Machine} (heffect : CallEffect machine after) :
    Spends 0 0 machine after := by
  cases heffect with
  | registers a b => exact Spends.of_contract rfl rfl rfl rfl
  | issue name1 name2 decimals =>
      exact Spends.of_sameBalances rfl rfl rfl rfl (Ledger.sameBalances_issueAsset _ _ _ _ _)
  | mint asset quantity => exact Spends.of_ledger (Ledger.sameBalances_mintAsset _ _ _ _)
  | setMap key1 key2 value => exact Spends.of_ledger (Ledger.sameBalances_setMapValue _ _ _ _ _)
  | send recipient amount token page => exact spends_send machine recipient amount token page
  | sendUnits asset quantity recipient amount =>
      exact spends_sendUnits machine asset quantity recipient amount
  | distribute => exact spends_distribute machine

theorem spends_effect {machine after : Machine} (heffect : Effect machine after) :
    Spends 0 0 machine after := by
  cases heffect with
  | work memory userStack codeStack err pcs => exact Spends.of_contract rfl rfl rfl rfl
  | call hcall memory =>
      exact (spends_callEffect hcall).trans_free (Spends.of_contract rfl rfl rfl rfl)

theorem spends_transfer (machine : Machine) (line : Nat) (flow : Flow) :
    Spends 0 0 machine (machine.transfer line flow).2 := by
  cases flow
  all_goals exact Spends.of_contract rfl rfl rfl rfl

theorem spends_die (machine : Machine) (fault : Fault) :
    Spends 0 0 machine (machine.die fault).2 :=
  Spends.of_contract rfl rfl rfl rfl

theorem spends_handle (machine : Machine) (fault : Fault) :
    Spends 0 0 machine (machine.handle fault).2 := by
  unfold handle
  split
  · split_ifs
    · exact Spends.of_contract rfl rfl rfl rfl
    · exact spends_die machine fault
  · exact spends_die machine fault

theorem spends_perform (machine : Machine) (protocol : Protocol) (line : Nat)
    (instruction : Instruction) :
    Spends 0 0 machine (machine.perform protocol line instruction).2 := by
  have heffect := effect_execute machine protocol line instruction
  unfold perform
  rcases hrun : (execute protocol line instruction).run machine with ⟨flow, after⟩
  rw [hrun] at heffect
  cases flow with
  | ok flow => exact (spends_effect heffect).trans_free (spends_transfer after line flow)
  | error fault => exact (spends_effect heffect).trans_free (spends_handle after fault)

-- The machine when an instruction has been paid for.
def charged (machine : Machine) (fee : Word) : Machine :=
  count ⟨machine.contract, machine.withdrawn fee⟩ fee

-- What the balance covers can be withdrawn, so an instruction is paid for or not begun.
theorem chargeAndPerform_eq (machine : Machine) (protocol : Protocol) (line : Nat)
    (instruction : Instruction) :
    machine.chargeAndPerform protocol line instruction =
      if machine.balance < protocol.fee (FeeClass.ofInstruction instruction) then machine.freeze
      else
        (machine.charged (protocol.fee (FeeClass.ofInstruction instruction))).perform protocol line
          instruction := by
  let fee := protocol.fee (FeeClass.ofInstruction instruction)
  by_cases hshort : machine.balance < fee
  · rw [chargeAndPerform, if_pos hshort, if_pos hshort]
  · have hdebit : (Ledger.debit machine.contract.id fee).run machine.ledger =
        (.ok (), machine.withdrawn fee) :=
      (Ledger.run_debit machine.ledger machine.contract.id fee).trans (if_neg hshort)
    rw [chargeAndPerform, if_neg hshort, if_neg hshort, hdebit]
    rfl

theorem spends_charged (machine : Machine) {fee : Word} (hpaid : fee ≤ machine.balance) :
    Spends fee.toNat 1 machine (machine.charged fee) := by
  apply spends_withdrawn hpaid
  · rfl
  · exact Nat.le_refl _
  · intro _
    rfl
  · rw [UInt64.ofNat_toNat]
  · rfl

-- An instruction is paid for in full, or the contract halts before it.
theorem spends_chargeAndPerform (machine : Machine) (protocol : Protocol) (line : Nat)
    (instruction : Instruction) :
    (Spends 0 0 machine (machine.chargeAndPerform protocol line instruction).2 ∧
      (machine.chargeAndPerform protocol line instruction).1 = .halted .outOfBalance) ∨
    Spends (protocol.fee (FeeClass.ofInstruction instruction)).toNat 1 machine
      (machine.chargeAndPerform protocol line instruction).2 := by
  rw [chargeAndPerform_eq]
  split_ifs with hshort
  · exact .inl ⟨Spends.of_contract rfl rfl rfl rfl, rfl⟩
  · have hpaid := machine.spends_charged (UInt64.not_lt.mp hshort)
    exact .inr (hpaid.trans_free (spends_perform _ protocol line instruction))

-- A step pays for one instruction, or the contract halts and pays nothing.
theorem spends_advance (machine : Machine) (protocol : Protocol) :
    (Spends 0 0 machine (machine.advance protocol).2 ∧
      (machine.advance protocol).1.isHalt = true) ∨
    ∃ fee, protocol.leastFee ≤ fee ∧ Spends fee 1 machine (machine.advance protocol).2 := by
  unfold advance
  dsimp only
  split_ifs
  · exact .inl ⟨Spends.refl machine, rfl⟩
  · split
    · exact .inl ⟨spends_die machine .endOfCode, rfl⟩
    · rename_i line hnext
      have harrive : Spends 0 0 machine
          { machine with contract := { machine.contract with ip := line } } :=
        Spends.of_contract rfl rfl rfl rfl
      split
      · rename_i instruction hline
        rcases spends_chargeAndPerform
          { machine with contract := { machine.contract with ip := line } } protocol line
          instruction with ⟨hspends, hhalt⟩ | hspends
        · rw [hhalt]
          exact .inl ⟨harrive.trans hspends, rfl⟩
        · have hall := harrive.trans hspends
          rw [Nat.zero_add, Nat.zero_add] at hall
          exact .inr ⟨_, protocol.leastFee_le_fee instruction, hall⟩
      · exact .inl ⟨harrive.trans (spends_die _ _), rfl⟩

end Machine

end ContractSim
