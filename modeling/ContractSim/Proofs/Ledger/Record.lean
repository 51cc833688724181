import ContractSim.Proofs.Ledger.Balance

namespace ContractSim

theorem Account.id_creditAsset (account : Account) (asset quantity : Word) :
    (account.creditAsset asset quantity).id = account.id := by
  unfold creditAsset
  split_ifs <;> rfl

namespace Ledger

-- The ids of the accounts, in order of opening.
def accountIds (ledger : Ledger) : List Word := ledger.accounts.map Account.id

theorem hasAccount_iff (ledger : Ledger) (id : Word) :
    ledger.hasAccount id = true ↔ id ∈ ledger.accountIds := by
  simp [hasAccount, account?, accountIds]

-- An account is there, and nothing but accounts is new.
structure Opened (id : Word) (before after : Ledger) : Prop where
  rest : after = { before with accounts := after.accounts }
  accountIds : after.accountIds = (before.touch id).accountIds

theorem opened_touch (ledger : Ledger) (id : Word) : Opened id ledger (ledger.touch id) := by
  refine ⟨?_, rfl⟩
  unfold touch
  split_ifs
  · rfl
  · rfl

theorem accountIds_updateAccount (ledger : Ledger) (id : Word) {change : Account → Account}
    (hid : ∀ account, (change account).id = account.id) :
    (ledger.updateAccount id change).accountIds = ledger.accountIds :=
  map_updateFirst_of_eq _ _ Account.id ledger.accounts fun account _ => hid account

theorem Opened.updateAccount {id : Word} {before after : Ledger} (hopened : Opened id before after)
    (other : Word) {change : Account → Account}
    (hid : ∀ account, (change account).id = account.id) :
    Opened id before (after.updateAccount other change) where
  rest := by
    have hrest := hopened.rest
    unfold Ledger.updateAccount
    rw [hrest]
  accountIds := (accountIds_updateAccount after other hid).trans hopened.accountIds

theorem Opened.hasAccount {id : Word} {before after : Ledger}
    (hopened : Opened id before after) : after.hasAccount id = true := by
  rw [hasAccount_iff, hopened.accountIds, ← hasAccount_iff]
  exact hasAccount_touch_self before id

theorem opened_setBalance (ledger : Ledger) (id balance : Word) :
    Opened id ledger (ledger.setBalance id balance) :=
  (opened_touch ledger id).updateAccount id fun _ => rfl

theorem opened_creditAsset (ledger : Ledger) (id asset quantity : Word) :
    Opened id ledger (ledger.creditAsset id asset quantity) :=
  (opened_touch ledger id).updateAccount id fun account => account.id_creditAsset asset quantity

theorem Opened.creditTokens {id : Word} {before after : Ledger} (hopened : Opened id before after)
    (tokens : List Holding) : Opened id before (after.creditTokens id tokens) := by
  induction tokens generalizing after with
  | nil => exact hopened
  | cons token rest ih =>
      have htouch := touch_of_hasAccount after hopened.hasAccount
      have hcredited : Opened id before (after.creditAsset id token.asset token.quantity) := by
        unfold Ledger.creditAsset
        rw [htouch]
        exact hopened.updateAccount id fun account =>
          account.id_creditAsset token.asset token.quantity
      exact ih hcredited

-- A transaction is recorded when its recipient has been credited, or it is refused.
theorem apply_cases (ledger : Ledger) (tx : Transaction) :
    (∃ error, (apply tx).run ledger = (.error error, ledger.touch tx.recipient)) ∨
      ∃ paid, Opened tx.recipient ledger paid ∧
        (apply tx).run ledger = (.ok (paid.record tx).1, (paid.record tx).2) := by
  have hcredit := run_credit ledger tx.recipient tx.amount
  cases hsum : Word.checkedAdd (ledger.balance tx.recipient) tx.amount with
  | none =>
      rw [hsum] at hcredit
      exact .inl ⟨_, Action.run_bind_of_error hcredit⟩
  | some balance =>
      rw [hsum] at hcredit
      have hopened := (opened_setBalance ledger tx.recipient balance).creditTokens tx.tokens
      exact .inr ⟨_, hopened, Action.run_bind_of_ok hcredit⟩

theorem exists_record_of_apply {ledger after : Ledger} {tx : Transaction} {id : Word}
    (hrun : (apply tx).run ledger = (.ok id, after)) :
    ∃ paid, Opened tx.recipient ledger paid ∧ paid.record tx = (id, after) := by
  rcases ledger.apply_cases tx with ⟨_, herror⟩ | ⟨paid, hopened, hok⟩
  · rw [hrun] at herror
    cases herror
  · rw [hrun] at hok
    cases hok
    exact ⟨paid, hopened, rfl⟩

-- A transaction as it stands on the ledger, in a place behind the next one of the block.
def entry (ledger : Ledger) (place : Nat) (tx : Transaction) (id : Word) : Transaction :=
  { tx with
    id, blockheight := ledger.height,
    timestamp := (ledger.height <<< 32) |||
      ((ledger.sequence + UInt64.ofNat place) &&& 0xffffffff) }

-- Transactions have been recorded one after another, under ids of their own.
structure Recorded (before : Ledger) (transactions : List Transaction) (ids : List Word)
    (after : Ledger) : Prop where
  height : after.height = before.height
  sequence : after.sequence = before.sequence + UInt64.ofNat transactions.length
  length : ids.length = transactions.length
  transactions : after.transactions = before.transactions ++
    (transactions.zip ids).mapIdx fun place pair => before.entry place pair.1 pair.2

namespace Recorded

theorem nil (ledger : Ledger) : Recorded ledger [] [] ledger where
  height := rfl
  sequence := by simp
  length := rfl
  transactions := by simp

theorem append {before middle after : Ledger} {left right : List Transaction}
    {leftIds rightIds : List Word} (hleft : Recorded before left leftIds middle)
    (hright : Recorded middle right rightIds after) :
    Recorded before (left ++ right) (leftIds ++ rightIds) after where
  height := hright.height.trans hleft.height
  sequence := by
    rw [hright.sequence, hleft.sequence, List.length_append, UInt64.ofNat_add, UInt64.add_assoc]
  length := by rw [List.length_append, List.length_append, hleft.length, hright.length]
  transactions := by
    rw [hright.transactions, hleft.transactions, List.zip_append hleft.length.symm,
      List.mapIdx_append, List.append_assoc]
    congr 2
    have hshift : ∀ place tx id,
        middle.entry place tx id = before.entry (place + (left.zip leftIds).length) tx id := by
      intro place tx id
      rw [entry, entry, hleft.height, hleft.sequence, List.length_zip, hleft.length, Nat.min_self,
        Nat.add_comm place, UInt64.ofNat_add, UInt64.add_assoc]
    simp only [hshift]

end Recorded

theorem recorded_apply {ledger after : Ledger} {tx : Transaction} {id : Word}
    (hrun : (apply tx).run ledger = (.ok id, after)) : Recorded ledger [tx] [id] after := by
  obtain ⟨paid, hopened, hrecord⟩ := exists_record_of_apply hrun
  have hpaid := hopened.rest
  have hid : (paid.record tx).1 = id := congrArg Prod.fst hrecord
  have hafter : (paid.record tx).2 = after := congrArg Prod.snd hrecord
  have hheight : after.height = ledger.height := by
    rw [← hafter, hpaid]
    rfl
  have hsequence : after.sequence = ledger.sequence + 1 := by
    rw [← hafter, hpaid]
    rfl
  have hlist : after.transactions = ledger.transactions ++ [ledger.entry 0 tx id] := by
    rw [← hafter, ← hid, hpaid]
    simp [entry, record, timestamp, nextTimestamp, freshId]
  exact ⟨hheight, hsequence, rfl, hlist⟩

end Ledger

end ContractSim
