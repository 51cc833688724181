import ContractSim.Proofs.Contract.Units

namespace ContractSim

open Holding Transaction

namespace Transaction

theorem recipient_addToken (tx : Transaction) (token : Holding) :
    (tx.addToken token).recipient = tx.recipient := by
  rw [addToken_eq]

theorem recipient_merge (tx : Transaction) (amount : Word) (token : Option Holding)
    (page : Option Register) : (tx.merge amount token page).recipient = tx.recipient := by
  cases token with
  | none => rfl
  | some token =>
      exact recipient_addToken { tx with amount := tx.amount.saturatingAdd amount } token

theorem totalTo_le_totalAmount (transactions : List Transaction) (recipient : Word) :
    totalTo transactions recipient ≤ totalAmount transactions := by
  have hsome : (transactions.filter (·.recipient == recipient)).Sublist transactions :=
    List.filter_sublist
  exact (hsome.map fun tx => tx.amount.toNat).sum_le_sum fun _ _ => Nat.zero_le _

end Transaction

namespace Contract

variable (contract : Contract)

-- The payments that wait for one recipient.
def paymentsTo (recipient : Word) : List Transaction :=
  contract.queue.filter (·.recipient == recipient)

-- What waits for a recipient in all.
def amountTo (recipient : Word) : Nat := totalAmount (contract.paymentsTo recipient)

-- The units of an asset that wait for a recipient in all.
def unitsTo (recipient asset : Word) : Nat :=
  ((contract.paymentsTo recipient).map fun tx => total asset tx.tokens).sum

theorem amountTo_le_queued (recipient : Word) : contract.amountTo recipient ≤ contract.queued :=
  totalTo_le_totalAmount contract.queue recipient

variable (recipient amount : Word) (token : Option Holding) (page : Option Register)
  (height : Word)

-- A payment is queued as if nobody else had to be paid.
theorem paymentsTo_enqueue_self :
    (contract.enqueue recipient amount token page height).paymentsTo recipient =
      ({ contract with queue := contract.paymentsTo recipient }.enqueue recipient amount token page
        height).queue := by
  have hany : (contract.paymentsTo recipient).any (·.recipient == recipient) =
      contract.queue.any (·.recipient == recipient) := by
    rw [paymentsTo, List.any_filter]
    simp only [Bool.and_self]
  unfold enqueue
  dsimp only
  rw [hany]
  split_ifs with hwaits
  · refine filter_updateFirst_self _ _ _ ?_
    intro tx htest
    rw [recipient_merge]
    exact htest
  · simp [paymentsTo]

theorem paymentsTo_enqueue_of_ne {other : Word} (hne : other ≠ recipient) :
    (contract.enqueue recipient amount token page height).paymentsTo other =
      contract.paymentsTo other := by
  have hfar : ∀ tx : Transaction, (tx.recipient == recipient) = true →
      (tx.recipient == other) = false := by
    intro tx htest
    rw [beq_iff_eq.mp htest]
    exact beq_eq_false_iff_ne.mpr hne.symm
  unfold enqueue
  dsimp only
  split_ifs
  · refine filter_updateFirst _ _ _ _ hfar ?_
    intro tx htest
    rw [recipient_merge]
    exact hfar tx htest
  · simp [paymentsTo, hne.symm]

end Contract

end ContractSim
