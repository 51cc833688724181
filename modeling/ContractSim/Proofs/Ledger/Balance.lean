import ContractSim.Ledger.Assets
import ContractSim.Ledger.History
import ContractSim.Proofs.Action
import ContractSim.Proofs.UpdateFirst
import ContractSim.Proofs.Word

namespace ContractSim.Ledger

-- The exact sum of all balances.
def totalBalance (ledger : Ledger) : Nat :=
  (ledger.accounts.map fun account => account.balance.toNat).sum

-- The amounts of all recorded transactions.
def amounts (ledger : Ledger) : List Word := ledger.transactions.map Transaction.amount

theorem account?_touch_of_ne (ledger : Ledger) {id other : Word} (hne : other ≠ id) :
    (ledger.touch id).account? other = ledger.account? other := by
  unfold touch
  split
  · rfl
  · simp [account?, List.find?_append, Account.empty, Ne.symm hne]

theorem touch_of_hasAccount (ledger : Ledger) {id : Word}
    (hhas : ledger.hasAccount id = true) : ledger.touch id = ledger := by
  simp [touch, hhas]

theorem account?_touch_of_absent (ledger : Ledger) {id : Word}
    (habsent : ledger.account? id = none) :
    (ledger.touch id).account? id = some (Account.empty id) := by
  have hfind : ledger.accounts.find? (·.id == id) = none := habsent
  simp [touch, hasAccount, account?, hfind, List.find?_append, Account.empty]

theorem account?_updateAccount_self (ledger : Ledger) (id : Word) (change : Account → Account)
    (hid : ∀ account, (change account).id = account.id) :
    (ledger.updateAccount id change).account? id = (ledger.account? id).map change := by
  apply find?_updateFirst_self
  intro account htest
  rw [hid]
  exact htest

theorem account?_updateAccount_of_ne (ledger : Ledger) {id other : Word}
    (change : Account → Account) (hid : ∀ account, (change account).id = account.id)
    (hne : other ≠ id) :
    (ledger.updateAccount id change).account? other = ledger.account? other := by
  have hfar : ∀ account : Account, (account.id == id) = true → (account.id == other) = false := by
    intro account htest
    rw [beq_iff_eq] at htest
    rw [htest]
    exact beq_eq_false_iff_ne.mpr (Ne.symm hne)
  apply find?_updateFirst_other
  · exact hfar
  · intro account htest
    rw [hid]
    exact hfar account htest

-- All balances, their sum, the height and what has been recorded are the same. Accounts may have
-- been opened.
structure SameBalances (before after : Ledger) : Prop where
  balance : ∀ id, after.balance id = before.balance id
  totalBalance : after.totalBalance = before.totalBalance
  hasAccount : ∀ id, before.hasAccount id = true → after.hasAccount id = true
  height : after.height = before.height
  amounts : after.amounts = before.amounts

namespace SameBalances

theorem refl (ledger : Ledger) : SameBalances ledger ledger :=
  ⟨fun _ => rfl, rfl, fun _ hhas => hhas, rfl, rfl⟩

theorem trans {first second third : Ledger} (hleft : SameBalances first second)
    (hright : SameBalances second third) : SameBalances first third where
  balance id := (hright.balance id).trans (hleft.balance id)
  totalBalance := hright.totalBalance.trans hleft.totalBalance
  hasAccount id hhas := hright.hasAccount id (hleft.hasAccount id hhas)
  height := hright.height.trans hleft.height
  amounts := hright.amounts.trans hleft.amounts

theorem of_accounts_eq {before after : Ledger} (haccounts : after.accounts = before.accounts)
    (hheight : after.height = before.height) (hamounts : after.amounts = before.amounts) :
    SameBalances before after where
  balance id := by simp [Ledger.balance, account?, haccounts]
  totalBalance := by simp [Ledger.totalBalance, haccounts]
  hasAccount id hhas := by simpa [Ledger.hasAccount, account?, haccounts] using hhas
  height := hheight
  amounts := hamounts

end SameBalances

theorem sameBalances_touch (ledger : Ledger) (id : Word) :
    SameBalances ledger (ledger.touch id) := by
  cases hfound : ledger.account? id with
  | some account =>
      have hhas : ledger.hasAccount id = true := by simp [hasAccount, hfound]
      rw [touch_of_hasAccount ledger hhas]
      exact SameBalances.refl ledger
  | none =>
      have hself := account?_touch_of_absent ledger hfound
      have hother := fun other (hne : other ≠ id) => account?_touch_of_ne ledger hne
      constructor
      · intro other
        by_cases hother' : other = id
        · subst hother'
          simp [balance, hself, hfound, Account.empty]
        · simp [balance, hother other hother']
      · simp [totalBalance, touch, hasAccount, hfound, Account.empty]
      · intro other hhas
        by_cases hother' : other = id
        · subst hother'
          simp [hasAccount, hself]
        · simpa [hasAccount, hother other hother'] using hhas
      · simp [touch, hasAccount, hfound]
      · simp [amounts, touch, hasAccount, hfound]

theorem sameBalances_updateAccount (ledger : Ledger) (id : Word) (change : Account → Account)
    (hid : ∀ account, (change account).id = account.id)
    (hbalance : ∀ account, (change account).balance = account.balance) :
    SameBalances ledger (ledger.updateAccount id change) := by
  have hself := account?_updateAccount_self ledger id change hid
  have hother := fun other (hne : other ≠ id) =>
    account?_updateAccount_of_ne ledger change hid hne
  constructor
  · intro other
    by_cases hother' : other = id
    · subst hother'
      rw [balance, hself, balance, Option.map_map]
      congr 2
      funext account
      exact hbalance account
    · rw [balance, balance, hother other hother']
  · have hmap := map_updateFirst_of_eq (·.id == id) change
      (fun account : Account => account.balance.toNat) ledger.accounts
      (fun account _ => by rw [hbalance])
    exact congrArg List.sum hmap
  · intro other hhas
    by_cases hother' : other = id
    · subst hother'
      simpa [hasAccount, hself] using hhas
    · simpa [hasAccount, hother other hother'] using hhas
  · rfl
  · rfl

theorem sameBalances_creditAsset (ledger : Ledger) (id asset quantity : Word) :
    SameBalances ledger (ledger.creditAsset id asset quantity) := by
  refine (sameBalances_touch ledger id).trans (sameBalances_updateAccount _ id _ ?_ ?_)
  · intro account
    simp only [Account.creditAsset]
    split_ifs <;> rfl
  · intro account
    simp only [Account.creditAsset]
    split_ifs <;> rfl

theorem sameBalances_debitAsset (ledger : Ledger) (id asset quantity : Word) :
    SameBalances ledger (ledger.debitAsset id asset quantity).2 :=
  (sameBalances_touch ledger id).trans
    (sameBalances_updateAccount _ id _ (fun _ => rfl) (fun _ => rfl))

theorem sameBalances_creditTokens (ledger : Ledger) (id : Word) (tokens : List Holding) :
    SameBalances ledger (ledger.creditTokens id tokens) := by
  induction tokens generalizing ledger with
  | nil => exact SameBalances.refl ledger
  | cons token rest ih =>
      exact (sameBalances_creditAsset ledger id token.asset token.quantity).trans (ih _)

theorem sameBalances_issueAsset (ledger : Ledger) (issuer name1 name2 decimals : Word) :
    SameBalances ledger (ledger.issueAsset issuer name1 name2 decimals).2 :=
  SameBalances.of_accounts_eq rfl rfl rfl

-- Units are minted by their issuer or not at all.
theorem run_mintAsset_cases (ledger : Ledger) (issuer asset quantity : Word) :
    ((mintAsset issuer asset quantity).run ledger).2 = ledger ∨
      (∃ issued, ledger.asset? asset = some issued ∧ issued.issuer = issuer) ∧
        ((mintAsset issuer asset quantity).run ledger).2 =
          ledger.creditAsset issuer asset quantity := by
  unfold mintAsset
  simp only [Action.run_bind, Action.run_get]
  split
  · rename_i issued hissued
    split_ifs with hissuer
    · exact .inr ⟨⟨issued, hissued, hissuer⟩, rfl⟩
    · exact .inl rfl
  · exact .inl rfl

theorem sameBalances_mintAsset (ledger : Ledger) (issuer asset quantity : Word) :
    SameBalances ledger ((mintAsset issuer asset quantity).run ledger).2 := by
  rcases ledger.run_mintAsset_cases issuer asset quantity with hrun | ⟨-, hrun⟩
  · rw [hrun]
    exact SameBalances.refl ledger
  · rw [hrun]
    exact sameBalances_creditAsset ledger issuer asset quantity

theorem sameBalances_setMapValue (ledger : Ledger) (contract key1 key2 value : Word) :
    SameBalances ledger (ledger.setMapValue contract key1 key2 value) := by
  unfold setMapValue
  split_ifs
  · exact SameBalances.of_accounts_eq rfl rfl rfl
  · exact SameBalances.of_accounts_eq rfl rfl rfl

-- Opens an account where there is none, and gives it a balance.
def setBalance (ledger : Ledger) (id balance : Word) : Ledger :=
  (ledger.touch id).updateAccount id ({ · with balance })

theorem hasAccount_touch_self (ledger : Ledger) (id : Word) :
    (ledger.touch id).hasAccount id = true := by
  cases hfound : ledger.account? id with
  | some account =>
      have hhas : ledger.hasAccount id = true := by simp [hasAccount, hfound]
      rw [touch_of_hasAccount ledger hhas, hhas]
  | none => simp [hasAccount, account?_touch_of_absent ledger hfound]

theorem balance_setBalance_self (ledger : Ledger) (id balance : Word) :
    (ledger.setBalance id balance).balance id = balance := by
  obtain ⟨account, hfound⟩ := Option.isSome_iff_exists.mp (hasAccount_touch_self ledger id)
  have hself := account?_updateAccount_self (ledger.touch id) id ({ · with balance })
    (fun _ => rfl)
  simp [setBalance, Ledger.balance, hself, hfound]

theorem balance_setBalance_of_ne (ledger : Ledger) {id other : Word} (balance : Word)
    (hne : other ≠ id) : (ledger.setBalance id balance).balance other = ledger.balance other := by
  have hother := account?_updateAccount_of_ne (ledger.touch id) ({ · with balance })
    (fun _ => rfl) hne
  rw [setBalance, Ledger.balance, hother, account?_touch_of_ne ledger hne, Ledger.balance]

theorem hasAccount_setBalance (ledger : Ledger) (id balance other : Word)
    (hhas : other = id ∨ ledger.hasAccount other = true) :
    (ledger.setBalance id balance).hasAccount other = true := by
  by_cases hother : other = id
  · subst hother
    have hself := account?_updateAccount_self (ledger.touch other) other ({ · with balance })
      (fun _ => rfl)
    have htouch := hasAccount_touch_self ledger other
    rw [hasAccount] at htouch ⊢
    rw [setBalance, hself, Option.isSome_map, htouch]
  · have hbefore : ledger.hasAccount other = true := hhas.resolve_left hother
    have hne := account?_updateAccount_of_ne (ledger.touch id) ({ · with balance })
      (fun _ => rfl) hother
    rw [hasAccount] at hbefore ⊢
    rw [setBalance, hne, account?_touch_of_ne ledger hother, hbefore]

-- The sum of all balances changes as the one balance does.
theorem totalBalance_setBalance (ledger : Ledger) (id balance : Word) :
    (ledger.setBalance id balance).totalBalance + (ledger.balance id).toNat =
      ledger.totalBalance + balance.toNat := by
  obtain ⟨account, hfound⟩ := Option.isSome_iff_exists.mp (hasAccount_touch_self ledger id)
  have htouch := sameBalances_touch ledger id
  have hbalance : ledger.balance id = account.balance := by
    rw [← htouch.balance id, Ledger.balance, hfound, Option.map_some, Option.getD_some]
  have hsum := sum_updateFirst (fun account : Account => account.id == id) ({ · with balance })
    (fun account => account.balance.toNat) (ledger.touch id).accounts account hfound
  rw [hbalance, ← htouch.totalBalance]
  exact hsum

theorem height_setBalance (ledger : Ledger) (id balance : Word) :
    (ledger.setBalance id balance).height = ledger.height :=
  (sameBalances_touch ledger id).height

theorem amounts_setBalance (ledger : Ledger) (id balance : Word) :
    (ledger.setBalance id balance).amounts = ledger.amounts :=
  (sameBalances_touch ledger id).amounts

theorem assets_setBalance (ledger : Ledger) (id balance : Word) :
    (ledger.setBalance id balance).assets = ledger.assets := by
  unfold setBalance touch
  split_ifs
  · rfl
  · rfl

theorem run_debit (ledger : Ledger) (id amount : Word) :
    (debit id amount).run ledger =
      if ledger.balance id < amount then
        (.error (.insufficientBalance id amount (ledger.balance id)), ledger.touch id)
      else (.ok (), ledger.setBalance id (ledger.balance id - amount)) := by
  unfold debit
  simp only [Action.run_bind, Action.run_get, Action.run_modify,
    (sameBalances_touch ledger id).balance id]
  split_ifs
  · rfl
  · rfl

theorem run_credit (ledger : Ledger) (id amount : Word) :
    (credit id amount).run ledger =
      match Word.checkedAdd (ledger.balance id) amount with
      | some balance => (.ok (), ledger.setBalance id balance)
      | none => (.error (.balanceOverflow id), ledger.touch id) := by
  unfold credit
  simp only [Action.run_bind, Action.run_get, Action.run_modify,
    (sameBalances_touch ledger id).balance id]
  cases Word.checkedAdd (ledger.balance id) amount with
  | some balance => rfl
  | none => rfl

end ContractSim.Ledger
