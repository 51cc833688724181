import ContractSim.Proofs.Ledger.Balance
import Mathlib.Algebra.Order.BigOperators.Group.List
import Mathlib.Algebra.Order.Group.Nat

namespace ContractSim

-- What becomes of a number that is passed on: it never grows, and while it is a word it stays.
def Kept (before after : Nat) : Prop := after ≤ before ∧ (before < Word.modulus → after = before)

namespace Kept

theorem of_eq {before after : Nat} (heq : after = before) : Kept before after :=
  ⟨Nat.le_of_eq heq, fun _ => heq⟩

theorem refl (number : Nat) : Kept number number := of_eq rfl

theorem trans {first second third : Nat} (hleft : Kept first second)
    (hright : Kept second third) : Kept first third := by
  obtain ⟨hle, heq⟩ := hleft
  obtain ⟨hle', heq'⟩ := hright
  refine ⟨Nat.le_trans hle' hle, ?_⟩
  intro hfits
  rw [heq' (Nat.lt_of_le_of_lt hle hfits), heq hfits]

theorem add_left {before after : Nat} (rest : Nat) (hkept : Kept before after) :
    Kept (rest + before) (rest + after) := by
  obtain ⟨hle, heq⟩ := hkept
  refine ⟨Nat.add_le_add_left hle rest, ?_⟩
  intro hfits
  rw [heq (by omega)]

end Kept

-- The units of an asset in a holding.
def Holding.units (asset : Word) (holding : Holding) : Nat :=
  if holding.asset = asset then holding.quantity.toNat else 0

namespace Holding

theorem units_of_ne {asset : Word} {holding : Holding} (hne : holding.asset ≠ asset) :
    holding.units asset = 0 :=
  if_neg hne

-- The exact sum of the units of an asset.
def total (asset : Word) (holdings : List Holding) : Nat :=
  (holdings.map (Holding.units asset)).sum

-- No asset is held twice.
def Single (holdings : List Holding) : Prop := (holdings.map Holding.asset).Nodup

-- Adds units to the holding of an asset. Accounts and payments do it in the same way.
def gathered (asset quantity : Word) (holdings : List Holding) : List Holding :=
  if holdings.any (·.asset == asset) then
    updateFirst (·.asset == asset)
      (fun holding => { holding with quantity := Word.saturatingAdd holding.quantity quantity })
      holdings
  else holdings ++ [⟨asset, quantity⟩]

theorem units_le_total {holding : Holding} {holdings : List Holding} (hmem : holding ∈ holdings)
    (asset : Word) : holding.units asset ≤ total asset holdings :=
  List.le_sum_of_mem (List.mem_map_of_mem hmem)

-- Units that are added are there, unless a holding passes the largest word.
theorem kept_total_gathered (asset quantity : Word) (holdings : List Holding) (other : Word) :
    Kept (total other holdings + units other ⟨asset, quantity⟩)
      (total other (gathered asset quantity holdings)) := by
  unfold gathered
  split_ifs with hany
  · obtain ⟨found, hfound⟩ := exists_find?_of_any hany
    have htest := List.find?_some hfound
    have hasset : found.asset = asset := beq_iff_eq.mp htest
    have hless := units_le_total (List.mem_of_find?_eq_some hfound) other
    have hsum := sum_updateFirst (fun holding : Holding => holding.asset == asset)
      (fun holding => { holding with quantity := Word.saturatingAdd holding.quantity quantity })
      (units other) holdings found hfound
    by_cases hother : asset = other
    · have hsaturates : (Word.saturatingAdd found.quantity quantity).toNat =
          min (found.quantity.toNat + quantity.toNat) (Word.modulus - 1) := Word.toNat_clamp _
      simp only [total, units, hasset, hother, ite_true] at hless hsum ⊢
      constructor
      · omega
      · omega
    · simp only [total, units, hasset, hother, ite_false] at hsum ⊢
      exact Kept.of_eq hsum
  · refine Kept.of_eq ?_
    simp [total]

theorem single_updateFirst {holdings : List Holding} (hsingle : Single holdings)
    (test : Holding → Bool) {change : Holding → Holding}
    (hasset : ∀ holding, (change holding).asset = holding.asset) :
    Single (updateFirst test change holdings) := by
  unfold Single
  rw [map_updateFirst_of_eq test change Holding.asset holdings fun holding _ => hasset holding]
  exact hsingle

theorem single_gathered {holdings : List Holding} (hsingle : Single holdings)
    (asset quantity : Word) : Single (gathered asset quantity holdings) := by
  unfold gathered
  split_ifs with hany
  · exact single_updateFirst hsingle _ fun _ => rfl
  · rw [Single, List.map_append, List.nodup_append]
    refine ⟨hsingle, List.pairwise_singleton _ _, ?_⟩
    intro held hmem new hnew hsame
    obtain ⟨holding, hholding, rfl⟩ := List.mem_map.mp hmem
    have hasset : holding.asset = asset := hsame.trans (List.mem_singleton.mp hnew)
    exact hany (List.any_eq_true.mpr ⟨holding, hholding, beq_iff_eq.mpr hasset⟩)

end Holding

namespace Account

open Holding

def units (asset : Word) (account : Account) : Nat := total asset account.assets

theorem creditAsset_eq (account : Account) (asset quantity : Word) :
    account.creditAsset asset quantity =
      if quantity = 0 then account
      else { account with assets := gathered asset quantity account.assets } := by
  unfold creditAsset gathered
  split_ifs <;> rfl

theorem kept_units_creditAsset (account : Account) (asset quantity other : Word) :
    Kept (account.units other + Holding.units other ⟨asset, quantity⟩)
      ((account.creditAsset asset quantity).units other) := by
  rw [creditAsset_eq]
  split_ifs with hzero
  · refine Kept.of_eq ?_
    simp [Holding.units, hzero]
  · exact kept_total_gathered asset quantity account.assets other

theorem single_creditAsset {account : Account} (hsingle : Single account.assets)
    (asset quantity : Word) : Single (account.creditAsset asset quantity).assets := by
  rw [creditAsset_eq]
  split_ifs
  · exact hsingle
  · exact single_gathered hsingle asset quantity

-- What is taken was there.
theorem units_debitAsset (account : Account) (asset quantity other : Word) :
    (account.debitAsset asset quantity).units other +
        Holding.units other ⟨asset, account.available asset quantity⟩ =
      account.units other := by
  cases hfound : account.assets.find? (·.asset == asset) with
  | none =>
      have hsame : account.debitAsset asset quantity = account := by
        rw [debitAsset, updateFirst_eq_self _ _ _ hfound]
      have hnothing : account.available asset quantity = 0 := by
        have hle := Word.min_le_right quantity 0
        rw [available, assetQuantity, hfound]
        exact UInt64.le_zero_iff.mp hle
      simp [hsame, hnothing, Holding.units]
  | some found =>
      have htest := List.find?_some hfound
      have hasset : found.asset = asset := beq_iff_eq.mp htest
      have hsum := sum_updateFirst (fun holding : Holding => holding.asset == asset)
        (fun holding =>
          { holding with quantity := holding.quantity - min quantity holding.quantity })
        (Holding.units other) account.assets found hfound
      have hle := units_le_total (List.mem_of_find?_eq_some hfound) other
      have htaken : account.available asset quantity = min quantity found.quantity := by
        simp [available, assetQuantity, hfound]
      have hmin := Word.min_le_right quantity found.quantity
      have hrest := UInt64.toNat_sub_of_le _ _ hmin
      rw [UInt64.le_iff_toNat_le] at hmin
      have hunits : (account.debitAsset asset quantity).units other =
          ((updateFirst (fun holding : Holding => holding.asset == asset)
            (fun holding =>
              { holding with quantity := holding.quantity - min quantity holding.quantity })
            account.assets).map (Holding.units other)).sum := rfl
      rw [htaken, hunits]
      by_cases hother : asset = other
      · simp only [units, total, Holding.units, hasset, hother, ite_true] at hle hsum ⊢
        omega
      · simp only [units, total, Holding.units, hasset, hother, ite_false] at hsum ⊢
        omega

theorem single_debitAsset {account : Account} (hsingle : Single account.assets)
    (asset quantity : Word) : Single (account.debitAsset asset quantity).assets :=
  single_updateFirst hsingle _ fun _ => rfl

end Account

namespace Ledger

open Holding

-- The exact sum of the units of an asset over all accounts.
def units (asset : Word) (ledger : Ledger) : Nat :=
  (ledger.accounts.map (Account.units asset)).sum

-- No account has two holdings of one asset.
def Single (ledger : Ledger) : Prop := ∀ account ∈ ledger.accounts, Holding.Single account.assets

theorem units_of_accounts {before after : Ledger} (haccounts : after.accounts = before.accounts)
    (asset : Word) : after.units asset = before.units asset := by
  rw [units, haccounts, units]

theorem units_touch (ledger : Ledger) (id asset : Word) :
    (ledger.touch id).units asset = ledger.units asset := by
  unfold touch
  split_ifs
  · rfl
  · simp [units, Account.units, Account.empty, total]

theorem Single.touch {ledger : Ledger} (hsingle : ledger.Single) (id : Word) :
    (ledger.touch id).Single := by
  unfold Ledger.touch
  split_ifs
  · exact hsingle
  · intro account hmem
    rcases List.mem_append.mp hmem with hold | hnew
    · exact hsingle account hold
    · rw [List.mem_singleton.mp hnew]
      exact List.nodup_nil

theorem units_updateAccount {ledger : Ledger} {id : Word} {account : Account}
    (hfound : ledger.account? id = some account) (change : Account → Account) (asset : Word) :
    (ledger.updateAccount id change).units asset + account.units asset =
      ledger.units asset + (change account).units asset :=
  sum_updateFirst _ _ _ ledger.accounts account hfound

theorem Single.updateAccount {ledger : Ledger} (hsingle : ledger.Single) (id : Word)
    {change : Account → Account}
    (hchange : ∀ account : Account, Holding.Single account.assets →
      Holding.Single (change account).assets) :
    (ledger.updateAccount id change).Single :=
  forall_mem_updateFirst _ _ hsingle hchange

-- The account that an operation works on, which is opened if there is none.
theorem exists_account?_touch (ledger : Ledger) (id : Word) :
    ∃ account, (ledger.touch id).account? id = some account ∧
      (∀ asset, account.assetQuantity asset = ledger.assetQuantity id asset) ∧
      ∀ asset, account.units asset ≤ ledger.units asset := by
  obtain ⟨account, hfound⟩ := Option.isSome_iff_exists.mp (hasAccount_touch_self ledger id)
  refine ⟨account, hfound, ?_, ?_⟩
  · intro asset
    cases hbefore : ledger.account? id with
    | none =>
        rw [account?_touch_of_absent ledger hbefore, Option.some.injEq] at hfound
        subst hfound
        rw [assetQuantity, hbefore]
        rfl
    | some before =>
        have hhas : ledger.hasAccount id = true := by rw [hasAccount, hbefore, Option.isSome_some]
        rw [touch_of_hasAccount ledger hhas, hbefore, Option.some.injEq] at hfound
        rw [assetQuantity, hbefore, hfound]
        rfl
  · intro asset
    rw [← units_touch ledger id]
    exact List.le_sum_of_mem (List.mem_map_of_mem (List.mem_of_find?_eq_some hfound))

-- What an account holds does not depend on its balance.
theorem assetQuantity_setBalance (ledger : Ledger) (id balance asset : Word) :
    (ledger.setBalance id balance).assetQuantity id asset = ledger.assetQuantity id asset := by
  obtain ⟨account, hfound, hquantity, -⟩ := ledger.exists_account?_touch id
  have hself := account?_updateAccount_self (ledger.touch id) id ({ · with balance }) fun _ => rfl
  rw [setBalance, assetQuantity, hself, hfound, ← hquantity]
  rfl

theorem units_setBalance (ledger : Ledger) (id balance asset : Word) :
    (ledger.setBalance id balance).units asset = ledger.units asset := by
  obtain ⟨account, hfound, -⟩ := ledger.exists_account?_touch id
  have hsum := units_updateAccount hfound ({ · with balance }) asset
  have hsame : Account.units asset { account with balance } = account.units asset := rfl
  rw [hsame, units_touch] at hsum
  exact Nat.add_right_cancel hsum

theorem Single.setBalance {ledger : Ledger} (hsingle : ledger.Single) (id balance : Word) :
    (ledger.setBalance id balance).Single :=
  (hsingle.touch id).updateAccount id fun _ hsame => hsame

theorem kept_units_creditAsset (ledger : Ledger) (id asset quantity other : Word) :
    Kept (ledger.units other + Holding.units other ⟨asset, quantity⟩)
      ((ledger.creditAsset id asset quantity).units other) := by
  obtain ⟨account, hfound, -, hle⟩ := ledger.exists_account?_touch id
  have hsum := units_updateAccount hfound (·.creditAsset asset quantity) other
  rw [units_touch] at hsum
  have hless := hle other
  obtain ⟨hmost, hexact⟩ := account.kept_units_creditAsset asset quantity other
  have hcredit : (ledger.creditAsset id asset quantity).units other =
      ((ledger.touch id).updateAccount id (·.creditAsset asset quantity)).units other := rfl
  rw [hcredit]
  constructor
  · omega
  · intro hfits
    have hall := hexact (by omega)
    omega

theorem Single.creditAsset {ledger : Ledger} (hsingle : ledger.Single)
    (id asset quantity : Word) : (ledger.creditAsset id asset quantity).Single :=
  (hsingle.touch id).updateAccount id fun _ hsame =>
    Account.single_creditAsset hsame asset quantity

-- What is taken from an account leaves the accounts.
theorem units_debitAsset (ledger : Ledger) (id asset quantity other : Word) :
    (ledger.debitAsset id asset quantity).2.units other +
        Holding.units other ⟨asset, (ledger.debitAsset id asset quantity).1⟩ =
      ledger.units other := by
  obtain ⟨account, hfound, hquantity, -⟩ := ledger.exists_account?_touch id
  have hsum := units_updateAccount hfound (·.debitAsset asset quantity) other
  rw [units_touch] at hsum
  have htaken := account.units_debitAsset asset quantity other
  rw [Account.available, hquantity] at htaken
  have hdebit : (ledger.debitAsset id asset quantity).2 =
      (ledger.touch id).updateAccount id (·.debitAsset asset quantity) := rfl
  have hfirst : (ledger.debitAsset id asset quantity).1 =
      min quantity (ledger.assetQuantity id asset) := rfl
  rw [hdebit, hfirst]
  omega

theorem Single.debitAsset {ledger : Ledger} (hsingle : ledger.Single)
    (id asset quantity : Word) : (ledger.debitAsset id asset quantity).2.Single :=
  (hsingle.touch id).updateAccount id fun _ hsame => Account.single_debitAsset hsame asset quantity

theorem kept_units_creditTokens (ledger : Ledger) (id : Word) (tokens : List Holding)
    (asset : Word) :
    Kept (ledger.units asset + total asset tokens)
      ((ledger.creditTokens id tokens).units asset) := by
  induction tokens generalizing ledger with
  | nil => exact Kept.refl _
  | cons token rest ih =>
      have hfirst := ledger.kept_units_creditAsset id token.asset token.quantity asset
      have hrest := ih (ledger.creditAsset id token.asset token.quantity)
      have hsum : ledger.units asset + total asset (token :: rest) =
          total asset rest + (ledger.units asset + token.units asset) := by
        simp only [total, List.map_cons, List.sum_cons]
        omega
      rw [hsum]
      refine (hfirst.add_left (total asset rest)).trans ?_
      rw [Nat.add_comm]
      exact hrest

theorem Single.creditTokens {ledger : Ledger} (hsingle : ledger.Single) (id : Word)
    (tokens : List Holding) : (ledger.creditTokens id tokens).Single := by
  induction tokens generalizing ledger with
  | nil => exact hsingle
  | cons token rest ih => exact ih (hsingle.creditAsset id token.asset token.quantity)

-- A transaction that is refused opens an account at most. Any other one credits its recipient.
theorem run_apply_cases (ledger : Ledger) (tx : Transaction) :
    (∃ error, (apply tx).run ledger = (.error error, ledger.touch tx.recipient)) ∨
      ∃ id balance after, (apply tx).run ledger = (.ok id, after) ∧
        after.accounts =
          ((ledger.setBalance tx.recipient balance).creditTokens tx.recipient
            tx.tokens).accounts := by
  have hcredit := run_credit ledger tx.recipient tx.amount
  cases hsum : Word.checkedAdd (ledger.balance tx.recipient) tx.amount with
  | none =>
      rw [hsum] at hcredit
      exact .inl ⟨_, Action.run_bind_of_error hcredit⟩
  | some balance =>
      rw [hsum] at hcredit
      exact .inr ⟨_, balance, _, Action.run_bind_of_ok hcredit, rfl⟩

-- The tokens of a transaction go to its recipient, or the transaction is refused.
theorem kept_units_apply (ledger : Ledger) (tx : Transaction) :
    (∃ error after, (apply tx).run ledger = (.error error, after) ∧
        (∀ asset, after.units asset = ledger.units asset) ∧ (ledger.Single → after.Single)) ∨
      ∃ id after, (apply tx).run ledger = (.ok id, after) ∧
        (∀ asset, Kept (ledger.units asset + total asset tx.tokens) (after.units asset)) ∧
        (ledger.Single → after.Single) := by
  rcases ledger.run_apply_cases tx with ⟨error, hrun⟩ | ⟨id, balance, after, hrun, haccounts⟩
  · refine .inl ⟨error, _, hrun, ?_, ?_⟩
    · exact fun asset => ledger.units_touch tx.recipient asset
    · exact fun hsingle => hsingle.touch tx.recipient
  · refine .inr ⟨id, after, hrun, ?_, ?_⟩
    · intro asset
      have hkept := (ledger.setBalance tx.recipient balance).kept_units_creditTokens tx.recipient
        tx.tokens asset
      rw [units_setBalance, ← units_of_accounts haccounts] at hkept
      exact hkept
    · intro hsingle
      rw [Single, haccounts]
      exact (hsingle.setBalance tx.recipient balance).creditTokens tx.recipient tx.tokens

end Ledger

end ContractSim
