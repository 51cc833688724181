import ContractSim.Proofs.Contract.Units
import ContractSim.Proofs.Machine.Share

namespace ContractSim.Machine

open Holding Ledger Transaction

-- The units of an asset on the ledger and in the queue of the contract.
def units (asset : Word) (machine : Machine) : Nat :=
  machine.ledger.units asset + machine.contract.units asset

-- No account and no payment that waits has an asset twice.
def Single (machine : Machine) : Prop := machine.ledger.Single ∧ machine.contract.Single

-- On the way from one machine to another units are kept, but for assets that may be raised.
structure Carries (raised : Word → Prop) (before after : Machine) : Prop where
  units : ∀ asset, ¬raised asset → Kept (before.units asset) (after.units asset)
  single : before.Single → after.Single

variable {raised : Word → Prop}

namespace Carries

theorem trans {first second third : Machine} (hleft : Carries raised first second)
    (hright : Carries raised second third) : Carries raised first third where
  units asset hraised := (hleft.units asset hraised).trans (hright.units asset hraised)
  single hsingle := hright.single (hleft.single hsingle)

-- Nothing changes while accounts and queue stay.
theorem of_eq {before after : Machine}
    (haccounts : after.ledger.accounts = before.ledger.accounts)
    (hqueue : after.contract.queue = before.contract.queue) : Carries raised before after where
  units asset _ := by
    refine Kept.of_eq ?_
    rw [Machine.units, units_of_accounts haccounts, Contract.units, hqueue]
    rfl
  single hsingle := by
    rw [Machine.Single, Ledger.Single, haccounts, Contract.Single, hqueue]
    exact hsingle

theorem refl (machine : Machine) : Carries raised machine machine := of_eq rfl rfl

end Carries

section Payments

variable (machine : Machine)

theorem carries_withdrawn (amount : Word) {contract : Contract}
    (hqueue : contract.queue = machine.contract.queue) :
    Carries raised machine ⟨contract, machine.withdrawn amount⟩ where
  units asset _ := by
    refine Kept.of_eq ?_
    rw [units, withdrawn, units_setBalance, Contract.units, hqueue]
    rfl
  single hsingle := by
    refine ⟨hsingle.1.setBalance _ _, ?_⟩
    rw [Contract.Single, hqueue]
    exact hsingle.2

-- A payment within the balance takes its token along.
theorem kept_units_send (recipient amount : Word) (token : Option Holding)
    (page : Option Register) (hpaid : token = none ∨ amount ≤ machine.balance) (asset : Word) :
    Kept (machine.units asset + tokenUnits asset token)
      (((send recipient amount token page).run machine).2.units asset) := by
  rw [run_send]
  split_ifs with hnothing hshort
  · have hzero : tokenUnits asset token = 0 := by
      cases token with
      | none => rfl
      | some token =>
          have hquantity : token.quantity = 0 := beq_iff_eq.mp hnothing.2.1
          simp [tokenUnits, Holding.units, hquantity]
    rw [hzero]
    exact Kept.refl _
  · rcases hpaid with rfl | hle
    · refine Kept.of_eq ?_
      rw [units, units_touch]
      rfl
    · exact absurd hle (UInt64.not_le.mpr hshort)
  · have hkept := machine.contract.kept_units_enqueue recipient amount token page
      (machine.withdrawn amount).height asset
    have hledger : (machine.withdrawn amount).units asset = machine.ledger.units asset :=
      units_setBalance _ _ _ _
    rw [units, units, hledger, Nat.add_assoc]
    exact hkept.add_left (machine.ledger.units asset)

theorem single_send {machine : Machine} (hsingle : machine.Single) (recipient amount : Word)
    (token : Option Holding) (page : Option Register) :
    ((send recipient amount token page).run machine).2.Single := by
  rw [run_send]
  split_ifs
  · exact hsingle
  · exact ⟨hsingle.1.touch _, hsingle.2⟩
  · exact ⟨hsingle.1.setBalance _ _, hsingle.2.enqueue _ _ _ _ _⟩

theorem carries_send (recipient amount : Word) (page : Option Register) :
    Carries raised machine ((send recipient amount none page).run machine).2 where
  units asset _ := machine.kept_units_send recipient amount none page (.inl rfl) asset
  single hsingle := single_send hsingle recipient amount none page

-- Units go from the account to the queue.
theorem carries_sendUnits (asset quantity recipient : Word) {amount : Word}
    (hle : amount ≤ machine.balance) :
    Carries raised machine
      ((send recipient amount
          (some ⟨asset, (machine.ledger.debitAsset machine.contract.id asset quantity).1⟩)
          none).run
        { machine with
          ledger := (machine.ledger.debitAsset machine.contract.id asset quantity).2 }).2 where
  units other _ := by
    have htaken := machine.ledger.units_debitAsset machine.contract.id asset quantity other
    have hbalance := (sameBalances_debitAsset machine.ledger machine.contract.id asset
      quantity).balance machine.contract.id
    have hsend := kept_units_send
      { machine with
        ledger := (machine.ledger.debitAsset machine.contract.id asset quantity).2 }
      recipient amount
      (some ⟨asset, (machine.ledger.debitAsset machine.contract.id asset quantity).1⟩) none
      (.inr (UInt64.le_trans hle (UInt64.le_of_eq hbalance.symm))) other
    refine Kept.trans (Kept.of_eq ?_) hsend
    simp only [units, tokenUnits, Option.map_some, Option.getD_some]
    omega
  single hsingle := by
    have hbefore : Machine.Single
        { machine with
          ledger := (machine.ledger.debitAsset machine.contract.id asset quantity).2 } :=
      ⟨hsingle.1.debitAsset _ _ _, hsingle.2⟩
    exact single_send hbefore _ _ _ _

end Payments

section Distribution

-- The units among shares.
def sharedUnits (other asset : Word) (shares : List ((Word × Word) × Word × Word)) : Nat :=
  (shares.map fun share => Holding.units other ⟨asset, share.2.2⟩).sum

theorem kept_units_queueShares (contract : Contract) (asset height : Word)
    (shares : List ((Word × Word) × Word × Word)) (other : Word) :
    Kept (contract.units other + sharedUnits other asset shares)
      ((queueShares contract asset height shares).units other) := by
  induction shares generalizing contract with
  | nil => exact Kept.refl _
  | cons share rest ih =>
      obtain ⟨⟨holder, quantity⟩, amount, units⟩ := share
      have hsum : sharedUnits other asset (((holder, quantity), amount, units) :: rest) =
          Holding.units other ⟨asset, units⟩ + sharedUnits other asset rest := rfl
      have htoken : tokenUnits other (if 0 < units then some ⟨asset, units⟩ else none) =
          Holding.units other ⟨asset, units⟩ := by
        split_ifs with hpositive
        · rfl
        · have hzero : units = 0 := UInt64.le_zero_iff.mp (UInt64.not_lt.mp hpositive)
          simp [tokenUnits, Holding.units, hzero]
      rw [hsum, queueShares]
      by_cases hnothing : amount = 0 ∧ units = 0
      · rw [if_pos hnothing, hnothing.2]
        have hzero : Holding.units other ⟨asset, 0⟩ = 0 := by
          simp [Holding.units]
        rw [hzero, Nat.zero_add]
        exact ih contract
      · have henqueue := contract.kept_units_enqueue holder amount
          (if 0 < units then some ⟨asset, units⟩ else none) none height other
        rw [htoken] at henqueue
        rw [if_neg hnothing, ← Nat.add_assoc, Nat.add_comm]
        refine (henqueue.add_left (sharedUnits other asset rest)).trans ?_
        rw [Nat.add_comm]
        exact ih _

theorem single_queueShares {contract : Contract} (hsingle : contract.Single)
    (asset height : Word) (shares : List ((Word × Word) × Word × Word)) :
    (queueShares contract asset height shares).Single := by
  induction shares generalizing contract with
  | nil => exact hsingle
  | cons share rest ih =>
      obtain ⟨⟨holder, quantity⟩, amount, units⟩ := share
      simp only [queueShares]
      split_ifs
      · exact ih hsingle
      · exact ih (hsingle.enqueue _ _ _ _ _)
      · exact ih (hsingle.enqueue _ _ _ _ _)

-- The shares of a split are the units as a whole.
theorem sharedUnits_proRataShares (holders : List (Word × Word)) (amount units asset : Word)
    (hpositive : Word.total (holders.map Prod.snd) ≠ 0) (other : Word) :
    sharedUnits other asset (holders.zip
      ((proRataShares amount (holders.map Prod.snd)).zip
        (proRataShares units (holders.map Prod.snd)))) = Holding.units other ⟨asset, units⟩ := by
  by_cases hother : asset = other
  · have hshares := (map_zip_proRataShares holders amount units).2
    have htotal := total_proRataShares units _ hpositive
    rw [← hshares, Word.total_eq_sum, List.map_map] at htotal
    simp only [sharedUnits, Holding.units, hother, ite_true]
    exact htotal
  · simp [sharedUnits, Holding.units, hother]

theorem units_unitsTaken (machine : Machine) (other : Word) :
    machine.unitsTaken.2.units other +
        Holding.units other ⟨machine.contract.a.w3, machine.unitsTaken.1⟩ =
      machine.ledger.units other := by
  unfold unitsTaken
  split_ifs
  · simp [Holding.units]
  · exact machine.ledger.units_debitAsset _ _ _ other

theorem single_unitsTaken {machine : Machine} (hsingle : machine.Single) :
    machine.unitsTaken.2.Single := by
  unfold unitsTaken
  split_ifs
  · exact hsingle.1
  · exact hsingle.1.debitAsset _ _ _

-- The units of a distribution go from the account to the queue.
theorem carries_distribute (machine : Machine) :
    Carries raised machine (distribute.run machine).2 := by
  rw [run_distribute]
  split_ifs with hempty
  · exact Carries.refl machine
  · constructor
    · intro other _
      have hpositive := total_assetHolders_ne_zero _ _ _ _ (Bool.eq_false_iff.mpr hempty)
      have hshares : sharedUnits other machine.contract.a.w3 machine.dividends =
          Holding.units other ⟨machine.contract.a.w3, machine.unitsTaken.1⟩ :=
        sharedUnits_proRataShares machine.holders _ _ _ hpositive other
      have htaken := machine.units_unitsTaken other
      have hkept := kept_units_queueShares machine.contract machine.contract.a.w3
        machine.ledger.height machine.dividends other
      rw [hshares] at hkept
      have hbefore : machine.units other = machine.unitsTaken.2.units other +
          (machine.contract.units other +
            Holding.units other ⟨machine.contract.a.w3, machine.unitsTaken.1⟩) := by
        rw [units]
        omega
      rw [hbefore, units, withdrawn, units_setBalance]
      exact hkept.add_left _
    · intro hsingle
      exact ⟨(single_unitsTaken hsingle).setBalance _ _,
        single_queueShares hsingle.2 _ _ _⟩

end Distribution

-- The assets that the next step may raise: those whose issuer calls for more.
def Mints (machine : Machine) (asset : Word) : Prop :=
  machine.calls .mintAsset = true ∧
    ∃ issued, machine.ledger.asset? asset = some issued ∧ issued.issuer = machine.contract.id

theorem carries_called {machine after : Machine} {function : ApiFunction}
    (hcalled : Called machine function after)
    (hraised : function = .mintAsset → ∀ asset issued, machine.ledger.asset? asset = some issued →
      issued.issuer = machine.contract.id → raised asset) :
    Carries raised machine after := by
  cases hcalled with
  | registers | issue => exact Carries.of_eq rfl rfl
  | setMap key1 key2 value =>
      refine Carries.of_eq ?_ rfl
      dsimp only
      unfold setMapValue
      split_ifs
      · rfl
      · rfl
  | send function recipient amount page => exact carries_send machine recipient amount page
  | sendUnits asset quantity recipient hle =>
      exact carries_sendUnits machine asset quantity recipient hle
  | distribute => exact carries_distribute machine
  | mint =>
      rcases machine.ledger.run_mintAsset_cases machine.contract.id machine.contract.b.w2
        machine.contract.b.w1 with hrun | ⟨⟨issued, hissued, hissuer⟩, hrun⟩
      · rw [hrun]
        exact Carries.refl machine
      · rw [hrun]
        constructor
        · intro asset hkeeps
          have hne : machine.contract.b.w2 ≠ asset := by
            rintro rfl
            exact hkeeps (hraised rfl _ issued hissued hissuer)
          have hkept := machine.ledger.kept_units_creditAsset machine.contract.id
            machine.contract.b.w2 machine.contract.b.w1 asset
          have hnone : Holding.units asset ⟨machine.contract.b.w2, machine.contract.b.w1⟩ = 0 :=
            Holding.units_of_ne hne
          rw [hnone, Nat.add_zero] at hkept
          rw [units, units, Nat.add_comm, Nat.add_comm _ (machine.contract.units asset)]
          exact hkept.add_left _
        · exact fun hsingle => ⟨hsingle.1.creditAsset _ _ _, hsingle.2⟩

-- A step carries all units along, and only the issuer of an asset adds to them.
theorem carries_advance (machine : Machine) (protocol : Protocol) :
    Carries machine.Mints machine (machine.advance protocol).2 := by
  rcases executed_advance machine protocol with
    ⟨hledger, hqueue⟩ | ⟨line, instruction, fee, after, hnext, -, hexecuted, hledger, hqueue⟩
  · exact Carries.of_eq (congrArg Ledger.accounts hledger) hqueue
  · have hcharged : Carries machine.Mints machine
        ⟨((machine.arrived line).charged fee).contract, machine.withdrawn fee⟩ :=
      carries_withdrawn machine fee rfl
    have hafter : Carries machine.Mints after (machine.advance protocol).2 :=
      Carries.of_eq (congrArg Ledger.accounts hledger) hqueue
    refine hcharged.trans (Carries.trans ?_ hafter)
    cases hexecuted with
    | work => exact Carries.of_eq rfl rfl
    | @call function called hcalled result arguments memory =>
        refine Carries.trans (carries_called hcalled ?_) (Carries.of_eq rfl rfl)
        rintro rfl asset issued hissued hissuer
        refine ⟨?_, issued, ?_, hissuer⟩
        · rw [calls, hnext]
          rfl
        · have hassets : (machine.withdrawn fee).assets = machine.ledger.assets :=
            assets_setBalance _ _ _
          rw [asset?, ← hassets]
          exact hissued

end ContractSim.Machine
