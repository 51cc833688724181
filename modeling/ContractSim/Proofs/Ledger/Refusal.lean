import ContractSim.Proofs.Ledger.Balance

namespace ContractSim.Ledger

-- Only an account with a balance can overflow, so it is there already.
theorem hasAccount_of_overflow {ledger : Ledger} {id amount : Word}
    (hsum : Word.checkedAdd (ledger.balance id) amount = none) : ledger.hasAccount id = true := by
  rw [Word.checkedAdd_eq_none_iff] at hsum
  cases hfound : ledger.account? id with
  | none =>
      have hamount := amount.toNat_lt_modulus
      have hbalance : (ledger.balance id).toNat = 0 := by
        rw [balance, hfound]
        rfl
      omega
  | some account => rw [hasAccount, hfound, Option.isSome_some]

theorem run_credit_eq_error_iff {ledger after : Ledger} {id amount : Word} {error : LedgerError} :
    (credit id amount).run ledger = (.error error, after) ↔
      Word.modulus ≤ (ledger.balance id).toNat + amount.toNat ∧
        error = .balanceOverflow id ∧ after = ledger := by
  have hcredit := run_credit ledger id amount
  rw [← Word.checkedAdd_eq_none_iff]
  cases hsum : Word.checkedAdd (ledger.balance id) amount with
  | none =>
      rw [hsum, touch_of_hasAccount ledger (hasAccount_of_overflow hsum)] at hcredit
      rw [hcredit, Prod.mk.injEq, Except.error.injEq, and_iff_right rfl]
      exact and_congr eq_comm eq_comm
  | some balance =>
      rw [hsum] at hcredit
      rw [hcredit]
      exact ⟨nofun, nofun⟩

-- A debit touches the account before it looks at the balance.
theorem run_debit_eq_error_iff {ledger after : Ledger} {id amount : Word} {error : LedgerError} :
    (debit id amount).run ledger = (.error error, after) ↔
      ledger.balance id < amount ∧
        error = .insufficientBalance id amount (ledger.balance id) ∧ after = ledger.touch id := by
  rw [run_debit]
  split_ifs with hshort
  · rw [Prod.mk.injEq, Except.error.injEq, and_iff_right hshort]
    exact and_congr eq_comm eq_comm
  · exact ⟨nofun, fun hrefused => absurd hrefused.1 hshort⟩

theorem run_mintAsset_eq_error_iff {ledger after : Ledger} {issuer asset quantity : Word}
    {error : LedgerError} :
    (mintAsset issuer asset quantity).run ledger = (.error error, after) ↔
      (ledger.asset? asset).map Asset.issuer ≠ some issuer ∧
        error = .assetNotFound asset ∧ after = ledger := by
  have hrefuse : (Except.error (.assetNotFound asset), ledger) =
      ((.error error, after) : Except LedgerError Unit × Ledger) ↔
        error = .assetNotFound asset ∧ after = ledger := by
    rw [Prod.mk.injEq, Except.error.injEq]
    exact and_congr eq_comm eq_comm
  unfold mintAsset
  simp only [Action.run_bind, Action.run_get]
  cases ledger.asset? asset with
  | none =>
      rw [and_iff_right nofun]
      exact hrefuse
  | some issued =>
      rw [Option.map_some, ne_eq, Option.some.injEq]
      by_cases hissuer : issued.issuer = issuer
      · simp only [hissuer, ite_true]
        exact ⟨nofun, fun hrefused => absurd trivial hrefused.1⟩
      · simp only [hissuer, ite_false]
        rw [and_iff_right not_false]
        exact hrefuse

-- A transaction credits its recipient and is recorded, or nothing happens.
theorem run_apply (ledger : Ledger) (tx : Transaction) :
    (apply tx).run ledger =
      match Word.checkedAdd (ledger.balance tx.recipient) tx.amount with
      | some balance =>
          let paid := (ledger.setBalance tx.recipient balance).creditTokens tx.recipient tx.tokens
          (.ok (paid.record tx).1, (paid.record tx).2)
      | none => (.error (.balanceOverflow tx.recipient), ledger) := by
  have hcredit := run_credit ledger tx.recipient tx.amount
  cases hsum : Word.checkedAdd (ledger.balance tx.recipient) tx.amount with
  | none =>
      rw [hsum, touch_of_hasAccount ledger (hasAccount_of_overflow hsum)] at hcredit
      exact Action.run_bind_of_error hcredit
  | some balance =>
      rw [hsum] at hcredit
      exact Action.run_bind_of_ok hcredit

theorem run_apply_eq_error_iff {ledger after : Ledger} {tx : Transaction} {error : LedgerError} :
    (apply tx).run ledger = (.error error, after) ↔
      Word.modulus ≤ (ledger.balance tx.recipient).toNat + tx.amount.toNat ∧
        error = .balanceOverflow tx.recipient ∧ after = ledger := by
  rw [run_apply, ← Word.checkedAdd_eq_none_iff]
  cases Word.checkedAdd (ledger.balance tx.recipient) tx.amount with
  | none =>
      rw [Prod.mk.injEq, Except.error.injEq, and_iff_right rfl]
      exact and_congr eq_comm eq_comm
  | some balance => exact ⟨nofun, nofun⟩

-- When operations are refused, and what is left of them: nothing, but for the empty account that a
-- debit opens where there is none.
theorem refusals_leave_no_trace_but_an_account (ledger after : Ledger) (error : LedgerError)
    (id amount issuer asset quantity : Word) (tx : Transaction) :
    ((credit id amount).run ledger = (.error error, after) ↔
      Word.modulus ≤ (ledger.balance id).toNat + amount.toNat ∧
        error = .balanceOverflow id ∧ after = ledger) ∧
    ((mintAsset issuer asset quantity).run ledger = (.error error, after) ↔
      (ledger.asset? asset).map Asset.issuer ≠ some issuer ∧
        error = .assetNotFound asset ∧ after = ledger) ∧
    ((apply tx).run ledger = (.error error, after) ↔
      Word.modulus ≤ (ledger.balance tx.recipient).toNat + tx.amount.toNat ∧
        error = .balanceOverflow tx.recipient ∧ after = ledger) ∧
    ((debit id amount).run ledger = (.error error, after) ↔
      ledger.balance id < amount ∧
        error = .insufficientBalance id amount (ledger.balance id) ∧
        after = if ledger.hasAccount id then ledger
          else { ledger with accounts := ledger.accounts ++ [Account.empty id] }) :=
  ⟨run_credit_eq_error_iff, run_mintAsset_eq_error_iff, run_apply_eq_error_iff,
    run_debit_eq_error_iff⟩

-- A refused debit of an id without an account leaves an empty account behind.
theorem refused_debit_opens_account :
    (debit 7 1).run (start 1 0) =
        (.error (.insufficientBalance 7 1 0), { start 1 0 with accounts := [Account.empty 7] }) ∧
      { start 1 0 with accounts := [Account.empty 7] } ≠ start 1 0 := by
  refine ⟨rfl, ?_⟩
  intro hsame
  have haccounts := congrArg Ledger.accounts hsame
  exact List.cons_ne_nil _ _ haccounts

end ContractSim.Ledger
