import ContractSim.Proofs.Ledger.Balance
import ContractSim.Proofs.Pointwise

namespace ContractSim

namespace IdStream

theorem exists_search_eq (accept : Word → Bool) (limit : Nat) (stream : IdStream) :
    ∃ drawn, stream.drawn < drawn ∧
      (search accept (limit + 1) stream).2 = { stream with drawn } := by
  induction limit generalizing stream with
  | zero =>
      refine ⟨stream.drawn + 1, Nat.lt_succ_self _, ?_⟩
      simp only [search]
      split_ifs <;> rfl
  | succ limit ih =>
      rw [search]
      split_ifs
      · exact ⟨stream.drawn + 1, Nat.lt_succ_self _, rfl⟩
      · obtain ⟨drawn, hmore, hsearch⟩ := ih stream.next
        exact ⟨drawn, Nat.lt_of_succ_lt hmore, hsearch⟩

-- Drawing an id moves the stream on and does nothing else to it.
theorem exists_draw_eq (stream : IdStream) (accept : Word → Bool) :
    ∃ drawn, stream.drawn < drawn ∧ (stream.draw accept).2 = { stream with drawn } := by
  have hperiod : period = period - 1 + 1 := by decide
  rw [draw, hperiod]
  exact exists_search_eq accept (period - 1) stream

end IdStream

-- What becomes of an account while an owner works: it stays as it is, unless it is the owner's. The
-- owner gets no money either.
structure Account.KeptFrom (owner : Word) (before after : Account) : Prop where
  id : after.id = before.id
  same : before.id ≠ owner → after = before
  balance : after.balance ≤ before.balance

namespace Account.KeptFrom

variable {owner : Word}

theorem refl (account : Account) : account.KeptFrom owner account :=
  ⟨rfl, fun _ => rfl, UInt64.le_refl _⟩

theorem trans {first second third : Account} (hleft : first.KeptFrom owner second)
    (hright : second.KeptFrom owner third) : first.KeptFrom owner third where
  id := hright.id.trans hleft.id
  same hne := by
    rw [hright.same (by rwa [hleft.id]), hleft.same hne]
  balance := UInt64.le_trans hright.balance hleft.balance

end Account.KeptFrom

namespace Ledger

theorem hasAccount_congr {before after : Ledger}
    (hids : after.accounts.map Account.id = before.accounts.map Account.id) (id : Word) :
    after.hasAccount id = before.hasAccount id := by
  have hany : ∀ ledger : Ledger,
      ledger.hasAccount id = (ledger.accounts.map Account.id).any (· == id) := by
    intro ledger
    rw [hasAccount, account?, List.isSome_find?, List.any_map]
    rfl
  rw [hany, hany, hids]

-- Nothing but the account of an owner is new.
structure OwnAccount (owner : Word) (before after : Ledger) : Prop where
  rest : after = { before with accounts := after.accounts }
  accounts : List.Forall₂ (Account.KeptFrom owner) before.accounts after.accounts

namespace OwnAccount

variable {owner : Word}

theorem refl (ledger : Ledger) : OwnAccount owner ledger ledger :=
  ⟨rfl, List.forall₂_same.mpr fun account _ => Account.KeptFrom.refl account⟩

theorem trans {first second third : Ledger} (hleft : OwnAccount owner first second)
    (hright : OwnAccount owner second third) : OwnAccount owner first third where
  rest := by
    calc third = { second with accounts := third.accounts } := hright.rest
      _ = { first with accounts := third.accounts } := by rw [hleft.rest]
  accounts := by
    refine forall₂_comp ?_ hleft.accounts hright.accounts
    exact fun _ _ _ hold hnew => hold.trans hnew

theorem map_id {before after : Ledger} (hown : OwnAccount owner before after) :
    after.accounts.map Account.id = before.accounts.map Account.id :=
  map_eq_of_forall₂ Account.id Account.id (fun _ _ hkept => hkept.id) hown.accounts

theorem hasAccount {before after : Ledger} (hown : OwnAccount owner before after) (id : Word) :
    after.hasAccount id = before.hasAccount id :=
  hasAccount_congr hown.map_id id

end OwnAccount

-- A change of an account that exists, which takes no money in.
theorem ownAccount_updateAccount {ledger : Ledger} {owner : Word} {change : Account → Account}
    (hid : ∀ account, (change account).id = account.id)
    (hbalance : ∀ account, ledger.account? owner = some account →
      (change account).balance ≤ account.balance) :
    OwnAccount owner ledger (ledger.updateAccount owner change) where
  rest := rfl
  accounts := by
    cases hfound : ledger.account? owner with
    | none =>
        have hsame : (ledger.updateAccount owner change).accounts = ledger.accounts :=
          updateFirst_eq_self _ _ _ hfound
        rw [hsame]
        exact (OwnAccount.refl ledger).accounts
    | some account =>
        have htest := List.find?_some hfound
        have howner : account.id = owner := beq_iff_eq.mp htest
        refine forall₂_updateFirst _ _ Account.KeptFrom.refl hfound ?_
        exact ⟨hid account, fun hne => absurd howner hne, hbalance account hfound⟩

section Operations

variable {ledger : Ledger} {owner : Word} (hhas : ledger.hasAccount owner = true)

include hhas

theorem ownAccount_setBalance {balance : Word} (hle : balance ≤ ledger.balance owner) :
    OwnAccount owner ledger (ledger.setBalance owner balance) := by
  rw [setBalance, touch_of_hasAccount ledger hhas]
  refine ownAccount_updateAccount (fun _ => rfl) ?_
  intro account hfound
  rw [Ledger.balance, hfound] at hle
  exact hle

theorem ownAccount_creditAsset (asset quantity : Word) :
    OwnAccount owner ledger (ledger.creditAsset owner asset quantity) := by
  rw [creditAsset, touch_of_hasAccount ledger hhas]
  refine ownAccount_updateAccount ?_ ?_
  · intro account
    unfold Account.creditAsset
    split_ifs <;> rfl
  · intro account _
    unfold Account.creditAsset
    split_ifs <;> exact UInt64.le_refl _

theorem ownAccount_debitAsset (asset quantity : Word) :
    OwnAccount owner ledger (ledger.debitAsset owner asset quantity).2 := by
  rw [debitAsset, touch_of_hasAccount ledger hhas]
  exact ownAccount_updateAccount (fun _ => rfl) fun _ _ => UInt64.le_refl _

theorem ownAccount_mintAsset (asset quantity : Word) :
    OwnAccount owner ledger ((mintAsset owner asset quantity).run ledger).2 := by
  rcases ledger.run_mintAsset_cases owner asset quantity with hrun | ⟨-, hrun⟩
  · rw [hrun]
    exact OwnAccount.refl ledger
  · rw [hrun]
    exact ownAccount_creditAsset hhas asset quantity

end Operations

-- Nothing but the share of an owner is new: the owner's account and map entries and, where the
-- owner issues one, an asset. Its id is drawn from the stream of ids.
structure OwnShare (owner : Word) (issues : Prop) (before after : Ledger) : Prop where
  height : after.height = before.height
  sequence : after.sequence = before.sequence
  transactions : after.transactions = before.transactions
  records : after.records = before.records
  accounts : List.Forall₂ (Account.KeptFrom owner) before.accounts after.accounts
  maps : after.maps.filter (·.contract != owner) = before.maps.filter (·.contract != owner)
  assets : (after.assets = before.assets ∧ after.ids = before.ids) ∨
    (issues ∧ ∃ asset drawn, asset.issuer = owner ∧ after.assets = before.assets ++ [asset] ∧
      before.ids.drawn < drawn ∧ after.ids = { before.ids with drawn })

section OwnShare

variable {owner : Word} {issues : Prop}

theorem OwnAccount.share {before after : Ledger} (hown : OwnAccount owner before after) :
    OwnShare owner issues before after := by
  rw [hown.rest]
  exact ⟨rfl, rfl, rfl, rfl, hown.accounts, rfl, .inl ⟨rfl, rfl⟩⟩

theorem OwnAccount.trans_share {first second third : Ledger}
    (hleft : OwnAccount owner first second) (hright : OwnShare owner issues second third) :
    OwnShare owner issues first third := by
  have hshare : OwnShare owner issues first second := hleft.share
  have hassets : second.assets = first.assets := by rw [hleft.rest]
  have hids : second.ids = first.ids := by rw [hleft.rest]
  constructor
  · exact hright.height.trans hshare.height
  · exact hright.sequence.trans hshare.sequence
  · exact hright.transactions.trans hshare.transactions
  · exact hright.records.trans hshare.records
  · refine forall₂_comp ?_ hleft.accounts hright.accounts
    exact fun _ _ _ hold hnew => hold.trans hnew
  · exact hright.maps.trans hshare.maps
  · rw [← hassets, ← hids]
    exact hright.assets

theorem ownShare_setMapValue (ledger : Ledger) (key1 key2 value : Word) :
    OwnShare owner issues ledger (ledger.setMapValue owner key1 key2 value) := by
  have howned : ∀ entry, isAt owner key1 key2 entry = true →
      (entry.contract != owner) = false := by
    intro entry hat
    simp only [isAt, Bool.and_eq_true, beq_iff_eq] at hat
    simp [hat.1.1]
  have hsame : OwnAccount owner ledger ledger := OwnAccount.refl ledger
  unfold setMapValue
  split_ifs
  · refine ⟨rfl, rfl, rfl, rfl, hsame.accounts, ?_, .inl ⟨rfl, rfl⟩⟩
    exact filter_updateFirst _ _ _ _ howned howned
  · refine ⟨rfl, rfl, rfl, rfl, hsame.accounts, ?_, .inl ⟨rfl, rfl⟩⟩
    simp [List.filter_append]

theorem ownShare_issueAsset (ledger : Ledger) (name1 name2 decimals : Word) (hissues : issues) :
    OwnShare owner issues ledger (ledger.issueAsset owner name1 name2 decimals).2 := by
  obtain ⟨drawn, hmore, hids⟩ := ledger.ids.exists_draw_eq ledger.isFree
  refine ⟨rfl, rfl, rfl, rfl, (OwnAccount.refl ledger).accounts, rfl, .inr ⟨hissues, ?_⟩⟩
  exact ⟨⟨ledger.freshId.1, owner, name1, name2, decimals⟩, drawn, rfl, rfl, hmore, hids⟩

end OwnShare

end Ledger

end ContractSim
