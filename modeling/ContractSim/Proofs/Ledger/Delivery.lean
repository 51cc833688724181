import ContractSim.Proofs.Ledger.History
import ContractSim.Proofs.Ledger.Posting
import ContractSim.Proofs.Ledger.Refusal
import ContractSim.Proofs.Ledger.Units

namespace ContractSim

-- What a transaction says about an asset is the exact sum over its tokens, cut off once.
theorem Transaction.tokenQuantity_eq (tx : Transaction) (asset : Word) :
    tx.tokenQuantity asset = Word.clamp (Holding.total asset tx.tokens) := by
  rw [tokenQuantity, Word.saturatingSum_eq]
  congr 1
  induction tx.tokens with
  | nil => rfl
  | cons token rest ih =>
      rw [List.filter_cons, Holding.total, List.map_cons, List.sum_cons, Holding.units]
      by_cases hasset : token.asset = asset
      · rw [if_pos (beq_iff_eq.mpr hasset), if_pos hasset, List.map_cons, Word.total, ih]
        rfl
      · rw [if_neg (mt beq_iff_eq.mp hasset), if_neg hasset, ih, Nat.zero_add]
        rfl

namespace Holding

theorem find?_gathered_self (asset quantity : Word) (holdings : List Holding) :
    ((gathered asset quantity holdings).find? (·.asset == asset)).map Holding.quantity =
      some (Word.saturatingAdd
        (((holdings.find? (·.asset == asset)).map Holding.quantity).getD 0) quantity) := by
  unfold gathered
  split_ifs with hany
  · obtain ⟨found, hfound⟩ := exists_find?_of_any hany
    rw [find?_updateFirst_self, hfound]
    · rfl
    · exact fun _ htest => htest
  · have hnone : holdings.find? (·.asset == asset) = none := by
      rw [← Option.not_isSome_iff_eq_none, List.isSome_find?]
      exact hany
    have hzero : Word.saturatingAdd 0 quantity = quantity := by
      rw [Word.saturatingAdd, UInt64.toNat_zero, Nat.zero_add, Word.clamp_toNat]
    simp [List.find?_append, hnone, hzero]

theorem find?_gathered_of_ne {asset other : Word} (hne : asset ≠ other) (quantity : Word)
    (holdings : List Holding) :
    (gathered asset quantity holdings).find? (·.asset == other) =
      holdings.find? (·.asset == other) := by
  have hfar : ∀ holding : Holding, (holding.asset == asset) = true →
      (holding.asset == other) = false := by
    intro holding htest
    rw [beq_iff_eq.mp htest]
    exact beq_eq_false_iff_ne.mpr hne
  unfold gathered
  split_ifs
  · exact find?_updateFirst_other _ _ _ _ hfar hfar
  · simp [List.find?_append, hne]

end Holding

theorem Account.assetQuantity_creditAsset (account : Account) (asset quantity other : Word) :
    (account.creditAsset asset quantity).assetQuantity other =
      Word.clamp ((account.assetQuantity other).toNat + Holding.units other ⟨asset, quantity⟩) := by
  rw [creditAsset_eq, Holding.units]
  by_cases hasset : asset = other
  · subst hasset
    rw [if_pos rfl]
    split_ifs with hzero
    · rw [hzero, UInt64.toNat_zero, Nat.add_zero, Word.clamp_toNat]
    · rw [assetQuantity, Holding.find?_gathered_self]
      rfl
  · rw [if_neg hasset, Nat.add_zero, Word.clamp_toNat]
    split_ifs
    · rfl
    · rw [assetQuantity, Holding.find?_gathered_of_ne hasset]
      rfl

namespace Ledger

theorem assetQuantity_creditAsset (ledger : Ledger) (id asset quantity other : Word) :
    (ledger.creditAsset id asset quantity).assetQuantity id other =
      Word.clamp ((ledger.assetQuantity id other).toNat + Holding.units other ⟨asset, quantity⟩) := by
  obtain ⟨account, hfound, hquantity, -⟩ := ledger.exists_account?_touch id
  have hself := account?_updateAccount_self (ledger.touch id) id (·.creditAsset asset quantity)
    fun account => account.id_creditAsset asset quantity
  rw [creditAsset, assetQuantity, hself, hfound, ← hquantity]
  exact account.assetQuantity_creditAsset asset quantity other

-- Tokens that are credited one by one add up like the quantities of the transaction.
theorem assetQuantity_creditTokens (ledger : Ledger) (id : Word) (tokens : List Holding)
    (asset : Word) :
    (ledger.creditTokens id tokens).assetQuantity id asset =
      Word.clamp ((ledger.assetQuantity id asset).toNat + Holding.total asset tokens) := by
  induction tokens generalizing ledger with
  | nil => exact (Word.clamp_toNat _).symm
  | cons token rest ih =>
      have hrest := ih (ledger.creditAsset id token.asset token.quantity)
      rw [assetQuantity_creditAsset, Word.clamp_toNat_clamp_add, Nat.add_assoc] at hrest
      exact hrest

-- The accounts of all but one.
def elsewhere (ledger : Ledger) (id : Word) : List Account := ledger.accounts.filter (·.id != id)

theorem elsewhere_touch (ledger : Ledger) (id : Word) :
    (ledger.touch id).elsewhere id = ledger.elsewhere id := by
  unfold touch
  split_ifs
  · rfl
  · simp [elsewhere, Account.empty]

theorem elsewhere_updateAccount (ledger : Ledger) (id : Word) {change : Account → Account}
    (hid : ∀ account, (change account).id = account.id) :
    (ledger.updateAccount id change).elsewhere id = ledger.elsewhere id := by
  have hhere : ∀ account : Account, (account.id == id) = true → (account.id != id) = false := by
    intro account htest
    rw [bne, htest, Bool.not_true]
  apply filter_updateFirst
  · exact hhere
  · intro account htest
    rw [hid]
    exact hhere account htest

theorem elsewhere_setBalance (ledger : Ledger) (id balance : Word) :
    (ledger.setBalance id balance).elsewhere id = ledger.elsewhere id := by
  rw [setBalance, elsewhere_updateAccount, elsewhere_touch]
  exact fun _ => rfl

theorem elsewhere_creditTokens (ledger : Ledger) (id : Word) (tokens : List Holding) :
    (ledger.creditTokens id tokens).elsewhere id = ledger.elsewhere id := by
  induction tokens generalizing ledger with
  | nil => rfl
  | cons token rest ih =>
      have hid := fun account : Account => account.id_creditAsset token.asset token.quantity
      exact (ih _).trans ((elsewhere_updateAccount _ id hid).trans (ledger.elsewhere_touch id))

-- One account for each id, and in it one holding for each asset.
structure Tidy (ledger : Ledger) : Prop where
  accounts : ledger.accountIds.Nodup
  holdings : ledger.Single

-- The recipient has got what a transaction says, no more than a holding can take, and nobody else
-- has got anything. The record says the same as the transaction.
structure Delivered (before : Ledger) (tx : Transaction) (id : Word) (after : Ledger) : Prop where
  held : ∀ asset, (after.assetQuantity tx.recipient asset).toNat =
    min (Word.modulus - 1)
      ((before.assetQuantity tx.recipient asset).toNat + (tx.tokenQuantity asset).toNat)
  balance : (after.balance tx.recipient).toNat =
    (before.balance tx.recipient).toNat + tx.amount.toNat
  others : after.elsewhere tx.recipient = before.elsewhere tx.recipient
  tidy : after.Tidy
  recorded : ∃ recorded, after.transactions = before.transactions ++ [recorded] ∧
    recorded.id = id ∧ Transaction.RecordedAt before.height tx recorded ∧
    ∀ asset, recorded.tokenQuantity asset = tx.tokenQuantity asset

theorem Tidy.apply {ledger : Ledger} (htidy : ledger.Tidy) (tx : Transaction) :
    ((Ledger.apply tx).run ledger).2.Tidy where
  accounts := (grows_apply ledger tx).opened htidy.accounts
  holdings := by
    rcases ledger.kept_units_apply tx with ⟨_, after, hrun, -, hsingle⟩ |
      ⟨_, after, hrun, -, hsingle⟩
    · rw [hrun]
      exact hsingle htidy.holdings
    · rw [hrun]
      exact hsingle htidy.holdings

-- A transaction that fits is credited as it says, and any other one changes nothing.
theorem credits_are_what_is_reported {ledger : Ledger} (htidy : ledger.Tidy) (tx : Transaction) :
    ((ledger.balance tx.recipient).toNat + tx.amount.toNat < Word.modulus ∧
      ∃ id after, (apply tx).run ledger = (.ok id, after) ∧ Delivered ledger tx id after) ∨
    (Word.modulus ≤ (ledger.balance tx.recipient).toNat + tx.amount.toNat ∧
      (apply tx).run ledger = (.error (.balanceOverflow tx.recipient), ledger)) := by
  have hrun := ledger.run_apply tx
  have hafter := htidy.apply tx
  cases hsum : Word.checkedAdd (ledger.balance tx.recipient) tx.amount with
  | none =>
      rw [hsum] at hrun
      exact .inr ⟨Word.checkedAdd_eq_none_iff.mp hsum, hrun⟩
  | some balance =>
      rw [hsum] at hrun
      rw [hrun] at hafter
      rw [Word.checkedAdd_eq_some_iff] at hsum
      let credited := ledger.setBalance tx.recipient balance
      let paid := credited.creditTokens tx.recipient tx.tokens
      refine .inl ⟨hsum ▸ balance.toNat_lt_modulus, _, _, hrun, ?_⟩
      constructor
      · intro asset
        have hheld : paid.assetQuantity tx.recipient asset =
            Word.clamp ((ledger.assetQuantity tx.recipient asset).toNat +
              Holding.total asset tx.tokens) := by
          rw [assetQuantity_creditTokens, assetQuantity_setBalance]
        change (paid.assetQuantity tx.recipient asset).toNat = _
        rw [hheld, tx.tokenQuantity_eq, Word.toNat_clamp, Word.toNat_clamp]
        omega
      · have htokens := sameBalances_creditTokens credited tx.recipient tx.tokens
        have hbalance : paid.balance tx.recipient = balance :=
          (htokens.balance tx.recipient).trans (balance_setBalance_self ledger _ balance)
        change (paid.balance tx.recipient).toNat = _
        rw [hbalance, hsum]
      · exact (credited.elsewhere_creditTokens tx.recipient tx.tokens).trans
          (ledger.elsewhere_setBalance tx.recipient balance)
      · exact hafter
      · have hlist := (recorded_apply hrun).transactions
        exact ⟨ledger.entry 0 tx (paid.record tx).1, hlist, rfl, rfl, fun _ => rfl⟩

-- An account with a holding that has hardly any room left, beside another account.
def crowded : Ledger :=
  { start 1 0 with
    accounts := [⟨7, 100, [⟨5, Word.top - 3⟩, ⟨6, 10⟩]⟩, ⟨8, 1, [⟨5, 2⟩]⟩] }

-- Names an asset twice, another one without units, and one that the recipient does not hold.
def parcel : Transaction :=
  { sender := 8, recipient := 7, amount := 50, tokens := [⟨5, 2⟩, ⟨6, 0⟩, ⟨5, 4⟩, ⟨9, 1⟩],
    message := [], blockheight := 0 }

theorem credits_are_what_is_reported_crowded :
    crowded.Tidy ∧ parcel.tokenQuantity 5 = 6 ∧
      ∃ id after, (apply parcel).run crowded = (.ok id, after) ∧
        after.assetQuantity 7 5 = Word.top ∧ after.assetQuantity 7 6 = 10 ∧
        after.assetQuantity 7 9 = 1 ∧ after.balance 7 = 150 ∧
        after.elsewhere 7 = [⟨8, 1, [⟨5, 2⟩]⟩] := by
  have htidy : crowded.Tidy := ⟨by decide, by unfold Single Holding.Single; decide⟩
  refine ⟨htidy, by decide, ?_⟩
  rcases credits_are_what_is_reported htidy parcel with
    ⟨-, id, after, hrun, hdelivered⟩ | ⟨hoverflow, -⟩
  · refine ⟨id, after, hrun, ?_, ?_, ?_, ?_, hdelivered.others⟩
    · exact UInt64.toNat_inj.mp ((hdelivered.held 5).trans (by decide))
    · exact UInt64.toNat_inj.mp ((hdelivered.held 6).trans (by decide))
    · exact UInt64.toNat_inj.mp ((hdelivered.held 9).trans (by decide))
    · exact UInt64.toNat_inj.mp (hdelivered.balance.trans (by decide))
  · exact absurd hoverflow (by decide)

end Ledger

end ContractSim
