import ContractSim.Proofs.Contract.Payments
import ContractSim.Proofs.Ledger.Holders
import ContractSim.Proofs.Machine.Units

namespace ContractSim.Machine

open Contract

section Shares

variable (contract : Contract) (asset height : Word)

theorem queueShares_cons (share : (Word × Word) × Word × Word)
    (rest : List ((Word × Word) × Word × Word)) :
    queueShares contract asset height (share :: rest) =
      queueShares (queueShares contract asset height [share]) asset height rest := by
  obtain ⟨⟨holder, quantity⟩, amount, units⟩ := share
  simp only [queueShares]
  split_ifs
  · rfl
  · rfl
  · rfl

theorem paymentsTo_queueShares_of_notMem {shares : List ((Word × Word) × Word × Word)}
    {recipient : Word} (hnone : recipient ∉ shares.map fun share => share.1.1) :
    (queueShares contract asset height shares).paymentsTo recipient =
      contract.paymentsTo recipient := by
  induction shares generalizing contract with
  | nil => rfl
  | cons share rest ih =>
      obtain ⟨⟨holder, quantity⟩, amount, units⟩ := share
      rw [List.map_cons, List.mem_cons, not_or] at hnone
      simp only [queueShares]
      split_ifs
      · exact ih contract hnone.2
      all_goals
        rw [ih _ hnone.2]
        exact contract.paymentsTo_enqueue_of_ne holder amount _ none height hnone.1

-- The share of a holder is queued as if nobody else had to be paid.
theorem paymentsTo_queueShares {shares : List ((Word × Word) × Word × Word)}
    (hnodup : (shares.map fun share => share.1.1).Nodup) {share : (Word × Word) × Word × Word}
    (hmem : share ∈ shares) :
    (queueShares contract asset height shares).paymentsTo share.1.1 =
      (queueShares { contract with queue := contract.paymentsTo share.1.1 } asset height
        [share]).queue := by
  induction shares generalizing contract with
  | nil => cases hmem
  | cons first rest ih =>
      rw [List.map_cons, List.nodup_cons] at hnodup
      rw [queueShares_cons]
      rcases List.mem_cons.mp hmem with rfl | hrest
      · rw [paymentsTo_queueShares_of_notMem _ asset height hnodup.1]
        obtain ⟨⟨holder, quantity⟩, amount, units⟩ := share
        simp only [queueShares]
        split_ifs
        · rfl
        · exact contract.paymentsTo_enqueue_self holder amount _ none height
        · exact contract.paymentsTo_enqueue_self holder amount _ none height
      · have hne : share.1.1 ∉ [first].map fun share => share.1.1 := by
          rw [List.map_singleton, List.mem_singleton]
          intro hsame
          rw [← hsame] at hnodup
          exact hnodup.1 (List.mem_map_of_mem hrest)
        obtain ⟨queue, hqueue⟩ := exists_queueShares_eq contract asset height [first]
        have hsame := paymentsTo_queueShares_of_notMem contract asset height hne
        rw [ih _ hnodup.2 hrest, hsame, hqueue]

variable {contract asset height} {shares : List ((Word × Word) × Word × Word)}
  (hnodup : (shares.map fun share => share.1.1).Nodup) {share : (Word × Word) × Word × Word}
  (hmem : share ∈ shares)

include hnodup hmem

theorem amountTo_queueShares
    (hfits : contract.amountTo share.1.1 + share.2.1.toNat < Word.modulus) :
    (queueShares contract asset height shares).amountTo share.1.1 =
      contract.amountTo share.1.1 + share.2.1.toNat := by
  rw [amountTo, paymentsTo_queueShares contract asset height hnodup hmem]
  exact queued_queueShares { contract with queue := contract.paymentsTo share.1.1 } asset height
    [share] hfits

theorem unitsTo_queueShares
    (hfits : contract.unitsTo share.1.1 asset + share.2.2.toNat < Word.modulus) :
    (queueShares contract asset height shares).unitsTo share.1.1 asset =
      contract.unitsTo share.1.1 asset + share.2.2.toNat := by
  have hshared : sharedUnits asset asset [share] = share.2.2.toNat := by
    simp [sharedUnits, Holding.units]
  have hkept := kept_units_queueShares
    { contract with queue := contract.paymentsTo share.1.1 } asset height [share] asset
  rw [hshared] at hkept
  rw [unitsTo, paymentsTo_queueShares contract asset height hnodup hmem]
  exact hkept.2 hfits

end Shares

-- The accounts that get a share of a distribution.
def entitled (machine : Machine) : List Account :=
  machine.ledger.holdersOf machine.contract.b.w2 machine.contract.b.w1 machine.contract.id

-- The amount that a distribution takes.
def amountShared (machine : Machine) : Word := min machine.contract.a.w1 machine.balance

-- The units that a distribution takes. Zero stands for no asset.
def unitsShared (machine : Machine) : Word :=
  if machine.contract.a.w3 = 0 then 0
  else
    min machine.contract.a.w4
      (machine.ledger.assetQuantity machine.contract.id machine.contract.a.w3)

-- What a distribution among holders does.
structure PaysOut (holders : List (Word × Word)) (before after : Machine) : Prop where
  -- Everyone who is entitled has a place, by quantity and then by id.
  everyone : holders.Perm (before.entitled.map fun account =>
    (account.id, account.assetQuantity before.contract.b.w2))
  sorted : holders.Pairwise fun left right =>
    left.2 < right.2 ∨ left.2 = right.2 ∧ left.1 < right.1
  -- What is shared is gone from the account of the contract, and no other account changes.
  balance : after.balance.toNat + before.amountShared.toNat = before.balance.toNat
  holding :
    (after.ledger.assetQuantity before.contract.id before.contract.a.w3).toNat +
        before.unitsShared.toNat =
      (before.ledger.assetQuantity before.contract.id before.contract.a.w3).toNat
  ledger : Ledger.OwnAccount before.contract.id before.ledger after.ledger
  -- The amounts that wait for the holders grow by their shares, which lose nothing.
  amounts : List.Forall₂
    (fun holder share =>
      after.contract.amountTo holder.1 = before.contract.amountTo holder.1 + share.toNat)
    holders (proRataShares before.amountShared (holders.map Prod.snd))
  amountsTotal : Word.total (proRataShares before.amountShared (holders.map Prod.snd)) =
    before.amountShared.toNat
  -- So do the units, up to the largest word.
  units : List.Forall₂
    (fun holder share =>
      before.contract.unitsTo holder.1 before.contract.a.w3 + share.toNat < Word.modulus →
        after.contract.unitsTo holder.1 before.contract.a.w3 =
          before.contract.unitsTo holder.1 before.contract.a.w3 + share.toNat)
    holders (proRataShares before.unitsShared (holders.map Prod.snd))
  unitsTotal : Word.total (proRataShares before.unitsShared (holders.map Prod.snd)) =
    before.unitsShared.toNat
  -- Nobody else is paid, and the contract changes in nothing else.
  others : ∀ recipient, recipient ∉ before.entitled.map Account.id →
    after.contract.paymentsTo recipient = before.contract.paymentsTo recipient
  contract : after.contract = { before.contract with queue := after.contract.queue }

-- A call that distributes does nothing while nobody is entitled, and otherwise pays out what it
-- takes. The order of the accounts does not matter.
structure Distributes (protocol : Protocol) (machine : Machine) : Prop where
  idle : ∀ first second, machine.entitled = [] →
    (call protocol .distribute first second).run machine = (.ok .done, machine)
  pays : ∀ first second, machine.entitled ≠ [] →
    ∃ holders after, (call protocol .distribute first second).run machine = (.ok .done, after) ∧
      PaysOut holders machine after
  order : ∀ first second accounts, accounts.Perm machine.ledger.accounts →
    ((call protocol .distribute first second).run
        ⟨machine.contract, { machine.ledger with accounts }⟩).2.contract =
      ((call protocol .distribute first second).run machine).2.contract

theorem run_call_distribute (machine : Machine) (protocol : Protocol) (first second : Word) :
    (call protocol .distribute first second).run machine = distribute.run machine := rfl

theorem perm_holders (machine : Machine) :
    machine.holders.Perm (machine.entitled.map fun account =>
      (account.id, account.assetQuantity machine.contract.b.w2)) :=
  machine.ledger.perm_assetHolders _ _ _

theorem isEmpty_holders (machine : Machine) :
    machine.holders.isEmpty = true ↔ machine.entitled = [] := by
  rw [List.isEmpty_iff, ← List.length_eq_zero_iff, machine.perm_holders.length_eq, List.length_map,
    List.length_eq_zero_iff]

theorem run_distribute_of_entitled {machine : Machine} (hsome : machine.entitled ≠ []) :
    distribute.run machine =
      (.ok .done,
        ⟨queueShares machine.contract machine.contract.a.w3 machine.ledger.height
            machine.dividends,
          Machine.withdrawn ⟨machine.contract, machine.unitsTaken.2⟩ machine.amountShared⟩) := by
  rw [run_distribute, if_neg fun hnone => hsome (machine.isEmpty_holders.mp hnone)]
  rfl

theorem unitsTaken_fst (machine : Machine) : machine.unitsTaken.1 = machine.unitsShared := by
  unfold unitsTaken unitsShared
  split_ifs
  · rfl
  · rfl

-- The queue depends on who holds what, not on the order of the accounts.
theorem contract_distribute_of_perm {machine : Machine} (hnodup : machine.ledger.accountIds.Nodup)
    {accounts : List Account} (hperm : accounts.Perm machine.ledger.accounts) :
    (distribute.run ⟨machine.contract, { machine.ledger with accounts }⟩).2.contract =
      (distribute.run machine).2.contract := by
  let other : Machine := ⟨machine.contract, { machine.ledger with accounts }⟩
  have haccount := Ledger.account?_of_perm hnodup hperm machine.contract.id
  have hholders : other.holders = machine.holders := Ledger.assetHolders_of_perm hperm _ _ _
  have hbalance : other.balance = machine.balance := by
    simp only [other, Machine.balance, Ledger.balance, haccount]
  have hunits : other.unitsTaken.1 = machine.unitsTaken.1 := by
    simp only [unitsTaken_fst, unitsShared, other, Ledger.assetQuantity, haccount]
  have hdividends : other.dividends = machine.dividends := by
    rw [dividends, hholders, hbalance, hunits]
    rfl
  rw [run_distribute, run_distribute, hholders, hdividends]
  split_ifs
  · rfl
  · rfl

-- With distinct ids the order of the holders is strict.
theorem sorted_holders {machine : Machine} (hnodup : machine.ledger.accountIds.Nodup) :
    machine.holders.Pairwise fun left right =>
      left.2 < right.2 ∨ left.2 = right.2 ∧ left.1 < right.1 := by
  have hids := Ledger.nodup_assetHolders hnodup machine.contract.b.w2 machine.contract.b.w1
    machine.contract.id
  have hsorted := machine.ledger.sorted_assetHolders machine.contract.b.w2 machine.contract.b.w1
    machine.contract.id
  refine ((List.pairwise_map.mp hids).and hsorted).imp ?_
  rintro left right ⟨hne, hbefore⟩
  rcases Ledger.holderBefore_iff.mp hbefore with hless | ⟨hsame, hle⟩
  · exact .inl hless
  · exact .inr ⟨hsame, UInt64.lt_of_le_of_ne hle hne⟩

section PaysOut

variable {machine : Machine}

theorem length_shares (machine : Machine) (amount : Word) :
    (proRataShares amount (machine.holders.map Prod.snd)).length = machine.holders.length := by
  rw [length_proRataShares, List.length_map]

theorem map_fst_dividends (machine : Machine) :
    machine.dividends.map Prod.fst = machine.holders := by
  rw [dividends, List.map_fst_zip]
  rw [List.length_zip, length_shares, length_shares, Nat.min_self]

theorem amounts_dividends (machine : Machine) :
    (machine.dividends.map fun share => share.2.1) =
      proRataShares machine.amountShared (machine.holders.map Prod.snd) :=
  (map_zip_proRataShares machine.holders _ _).1

theorem units_dividends (machine : Machine) :
    (machine.dividends.map fun share => share.2.2) =
      proRataShares machine.unitsShared (machine.holders.map Prod.snd) := by
  rw [← unitsTaken_fst]
  exact (map_zip_proRataShares machine.holders _ _).2

-- What holds of every share holds of the holders and their parts, place by place.
theorem forall₂_dividends {related : Word × Word → Word → Prop}
    {part : (Word × Word) × Word × Word → Word}
    (hrelated : ∀ share ∈ machine.dividends, related share.1 (part share)) :
    List.Forall₂ related machine.holders (machine.dividends.map part) := by
  rw [← map_fst_dividends, List.forall₂_map_left_iff, List.forall₂_map_right_iff,
    List.forall₂_same]
  exact hrelated

theorem ids_dividends (machine : Machine) :
    (machine.dividends.map fun share => share.1.1) = machine.holders.map Prod.fst := by
  rw [← map_fst_dividends, List.map_map]
  rfl

theorem nodup_dividends (hnodup : machine.ledger.accountIds.Nodup) :
    (machine.dividends.map fun share => share.1.1).Nodup := by
  rw [ids_dividends]
  exact Ledger.nodup_assetHolders hnodup _ _ _

theorem assetQuantity_unitsTaken (hhas : machine.ledger.hasAccount machine.contract.id = true) :
    (machine.unitsTaken.2.assetQuantity machine.contract.id machine.contract.a.w3).toNat +
        machine.unitsShared.toNat =
      (machine.ledger.assetQuantity machine.contract.id machine.contract.a.w3).toNat := by
  rw [← unitsTaken_fst]
  unfold unitsTaken
  split_ifs
  · rfl
  · exact Ledger.assetQuantity_debitAsset hhas _ _

theorem paysOut_distribute (hnodup : machine.ledger.accountIds.Nodup)
    (hhas : machine.ledger.hasAccount machine.contract.id = true)
    (hfits : machine.balance.toNat + machine.contract.queued < Word.modulus)
    (hsome : machine.entitled ≠ []) :
    PaysOut machine.holders machine (distribute.run machine).2 := by
  have hempty : machine.holders.isEmpty = false :=
    Bool.eq_false_iff.mpr fun hnone => hsome (machine.isEmpty_holders.mp hnone)
  have hpositive : Word.total (machine.holders.map Prod.snd) ≠ 0 :=
    total_assetHolders_ne_zero _ _ _ _ hempty
  have hamount := total_proRataShares machine.amountShared _ hpositive
  have hunits := total_proRataShares machine.unitsShared _ hpositive
  have hids := nodup_dividends hnodup
  have hledger := ownAccount_distribute machine hhas
  rw [run_distribute_of_entitled hsome] at hledger ⊢
  have hbalances := machine.sameBalances_unitsTaken
  obtain ⟨queue, hqueue⟩ := exists_queueShares_eq machine.contract machine.contract.a.w3
    machine.ledger.height machine.dividends
  constructor
  · exact machine.perm_holders
  · exact sorted_holders hnodup
  · have hsame := congrArg UInt64.toNat (hbalances.balance machine.contract.id)
    refine Eq.trans (toNat_balance_withdrawn machine.amount_le_balance ?_) hsame
    rw [hqueue]
  · have hkept := Ledger.assetQuantity_setBalance machine.unitsTaken.2 machine.contract.id
      (Machine.balance ⟨machine.contract, machine.unitsTaken.2⟩ - machine.amountShared)
      machine.contract.a.w3
    rw [← assetQuantity_unitsTaken hhas, ← hkept]
    rfl
  · exact hledger
  · rw [← amounts_dividends]
    refine forall₂_dividends ?_
    intro share hmem
    refine amountTo_queueShares hids hmem ?_
    have hshare : share.2.1.toNat ≤ machine.amountShared.toNat := by
      rw [← hamount, ← amounts_dividends]
      exact toNat_le_total (List.mem_map_of_mem hmem)
    have hshared := UInt64.le_iff_toNat_le.mp
      (Word.min_le_right machine.contract.a.w1 machine.balance)
    have hwaits := machine.contract.amountTo_le_queued share.1.1
    unfold amountShared at hshare
    omega
  · exact hamount
  · rw [← units_dividends]
    exact forall₂_dividends fun share hmem => unitsTo_queueShares hids hmem
  · exact hunits
  · intro recipient hnone
    refine paymentsTo_queueShares_of_notMem _ _ _ ?_
    rw [ids_dividends, (machine.perm_holders.map Prod.fst).mem_iff, List.map_map]
    exact hnone
  · rw [hqueue]

variable (protocol : Protocol) (hnodup : machine.ledger.accountIds.Nodup)
  (hhas : machine.ledger.hasAccount machine.contract.id = true)
  (hfits : machine.balance.toNat + machine.contract.queued < Word.modulus)

include hnodup hhas hfits

-- It is enough that accounts have ids of their own, and that balance and queue fit in a word.
theorem distributes_of_fits : Distributes protocol machine where
  idle _ _ hnone := by
    rw [run_call_distribute, run_distribute, if_pos (machine.isEmpty_holders.mpr hnone)]
  pays _ _ hsome := by
    refine ⟨machine.holders, (distribute.run machine).2, ?_,
      paysOut_distribute hnodup hhas hfits hsome⟩
    rw [run_call_distribute, run_distribute_of_entitled hsome]
  order _ _ _ hperm := contract_distribute_of_perm hnodup hperm

-- Paying for the call leaves it at that.
theorem distributes_charged {fee : Word} (hfee : fee ≤ machine.balance) :
    Distributes protocol (machine.charged fee) := by
  have hown := machine.ownAccount_withdrawn hhas hfee
  have hids : (machine.charged fee).ledger.accountIds = machine.ledger.accountIds := hown.map_id
  have hpaid : (machine.charged fee).balance.toNat + fee.toNat = machine.balance.toNat :=
    toNat_balance_withdrawn hfee rfl
  have hqueued : (machine.charged fee).contract.queued = machine.contract.queued := rfl
  refine distributes_of_fits protocol ?_ ((hown.hasAccount machine.contract.id).trans hhas) ?_
  · rw [hids]
    exact hnodup
  · omega

end PaysOut

end ContractSim.Machine
