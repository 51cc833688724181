import ContractSim.Proofs.Ledger.Record
import Mathlib.Data.List.Nodup

namespace ContractSim

theorem Account.assetQuantity_debitAsset (account : Account) (asset quantity : Word) :
    (account.debitAsset asset quantity).assetQuantity asset =
      account.assetQuantity asset - min quantity (account.assetQuantity asset) := by
  have hself := find?_updateFirst_self (fun holding : Holding => holding.asset == asset)
    (fun holding => { holding with quantity := holding.quantity - min quantity holding.quantity })
    account.assets fun _ htest => htest
  rw [assetQuantity, debitAsset, hself, assetQuantity]
  cases account.assets.find? (·.asset == asset) with
  | none =>
      have hnone : min quantity 0 = 0 := UInt64.le_zero_iff.mp (Word.min_le_right quantity 0)
      simp [hnone]
  | some holding => rfl

namespace Ledger

-- Holders come in the order of their quantities, and of their ids where quantities agree.
theorem holderBefore_iff {left right : Word × Word} :
    holderBefore left right = true ↔ left.2 < right.2 ∨ left.2 = right.2 ∧ left.1 ≤ right.1 := by
  simp [holderBefore]

theorem holderBefore_trans (first second third : Word × Word)
    (hleft : holderBefore first second = true) (hright : holderBefore second third = true) :
    holderBefore first third = true := by
  simp only [holderBefore_iff, UInt64.lt_iff_toNat_lt, UInt64.le_iff_toNat_le, ← UInt64.toNat_inj]
    at hleft hright ⊢
  omega

theorem holderBefore_total (left right : Word × Word) :
    (holderBefore left right || holderBefore right left) = true := by
  simp only [Bool.or_eq_true, holderBefore_iff, UInt64.lt_iff_toNat_lt, UInt64.le_iff_toNat_le,
    ← UInt64.toNat_inj]
  omega

theorem holderBefore_antisymm {left right : Word × Word}
    (hleft : holderBefore left right = true) (hright : holderBefore right left = true) :
    left = right := by
  simp only [holderBefore_iff, UInt64.lt_iff_toNat_lt, UInt64.le_iff_toNat_le, ← UInt64.toNat_inj]
    at hleft hright
  refine Prod.ext (UInt64.toNat_inj.mp ?_) (UInt64.toNat_inj.mp ?_)
  · omega
  · omega

-- The accounts but one that hold a quantity of an asset, and one unit at the least.
def holdersOf (ledger : Ledger) (asset least exclude : Word) : List Account :=
  ledger.accounts.filter fun account =>
    account.id != exclude && decide (max 1 least ≤ account.assetQuantity asset)

section Holders

variable (ledger : Ledger) (asset least exclude : Word)

theorem assetHolders_eq :
    ledger.assetHolders asset least exclude =
      ((ledger.holdersOf asset least exclude).map fun account =>
        (account.id, account.assetQuantity asset)).mergeSort holderBefore := by
  have henough : ∀ quantity : Word, (decide (0 < quantity) && decide (least ≤ quantity)) =
      decide (max 1 least ≤ quantity) := by
    intro quantity
    have hone : (1 : Word).toNat = 1 := rfl
    have hzero : (0 : Word).toNat = 0 := rfl
    rw [← Bool.decide_and, decide_eq_decide, UInt64.lt_iff_toNat_lt, UInt64.le_iff_toNat_le,
      UInt64.le_iff_toNat_le, Word.toNat_max]
    omega
  simp only [assetHolders, holdersOf, List.filter_map, List.filter_filter]
  congr 3
  funext account
  simp only [Function.comp_apply, henough, Bool.and_comm]

theorem perm_assetHolders :
    (ledger.assetHolders asset least exclude).Perm
      ((ledger.holdersOf asset least exclude).map fun account =>
        (account.id, account.assetQuantity asset)) := by
  rw [assetHolders_eq]
  exact List.mergeSort_perm _ _

theorem sorted_assetHolders :
    (ledger.assetHolders asset least exclude).Pairwise fun left right =>
      holderBefore left right = true := by
  rw [assetHolders_eq]
  exact List.pairwise_mergeSort holderBefore_trans holderBefore_total _

end Holders

section Order

variable {ledger : Ledger} {accounts : List Account}

-- No two holders are told apart by their places alone, so sorting leaves one order.
theorem assetHolders_of_perm (hperm : accounts.Perm ledger.accounts)
    (asset least exclude : Word) :
    { ledger with accounts }.assetHolders asset least exclude =
      ledger.assetHolders asset least exclude := by
  refine List.Perm.eq_of_pairwise (fun _ _ _ _ => holderBefore_antisymm)
    (sorted_assetHolders _ asset least exclude) (sorted_assetHolders _ asset least exclude) ?_
  refine (perm_assetHolders _ _ _ _).trans (List.Perm.trans ?_ (perm_assetHolders _ _ _ _).symm)
  exact (hperm.filter _).map _

theorem nodup_assetHolders (hnodup : ledger.accountIds.Nodup) (asset least exclude : Word) :
    ((ledger.assetHolders asset least exclude).map Prod.fst).Nodup := by
  have hids := (ledger.perm_assetHolders asset least exclude).map Prod.fst
  rw [List.map_map] at hids
  rw [hids.nodup_iff]
  exact hnodup.sublist (List.filter_sublist.map Account.id)

-- With ids of their own, accounts are found in any order.
theorem account?_of_perm (hnodup : ledger.accountIds.Nodup)
    (hperm : accounts.Perm ledger.accounts) (id : Word) :
    { ledger with accounts }.account? id = ledger.account? id :=
  find?_key_of_perm hnodup hperm id

end Order

section Holding

variable {ledger : Ledger} {id : Word} (hhas : ledger.hasAccount id = true)

include hhas

-- What is taken from a holding and what is left of it make up the holding.
theorem assetQuantity_debitAsset (asset quantity : Word) :
    ((ledger.debitAsset id asset quantity).2.assetQuantity id asset).toNat +
        (ledger.debitAsset id asset quantity).1.toNat =
      (ledger.assetQuantity id asset).toNat := by
  obtain ⟨account, hfound⟩ := Option.isSome_iff_exists.mp hhas
  have hself := account?_updateAccount_self ledger id (·.debitAsset asset quantity) fun _ => rfl
  have hheld : ledger.assetQuantity id asset = account.assetQuantity asset := by
    simp [assetQuantity, hfound]
  have hleft : (ledger.debitAsset id asset quantity).2.assetQuantity id asset =
      account.assetQuantity asset - min quantity (account.assetQuantity asset) := by
    rw [debitAsset, touch_of_hasAccount ledger hhas, assetQuantity, hself, hfound]
    exact account.assetQuantity_debitAsset asset quantity
  have hle := UInt64.le_iff_toNat_le.mp (Word.min_le_right quantity (account.assetQuantity asset))
  have htaken : (ledger.debitAsset id asset quantity).1 =
      min quantity (account.assetQuantity asset) := by
    rw [debitAsset, hheld]
  rw [hleft, htaken, hheld, UInt64.toNat_sub_of_le _ _ (Word.min_le_right _ _)]
  exact Nat.sub_add_cancel hle

end Holding

end Ledger

end ContractSim
