import ContractSim.Contract.Queue
import ContractSim.Proofs.Ledger.Posting
import Mathlib.Algebra.Order.BigOperators.Group.List
import Mathlib.Algebra.Order.Group.Nat

namespace ContractSim

namespace Transaction

theorem amount_addToken (tx : Transaction) (token : Holding) :
    (tx.addToken token).amount = tx.amount := by
  unfold addToken
  split_ifs
  · rfl
  · rfl

theorem amount_merge (tx : Transaction) (amount : Word) (token : Option Holding)
    (page : Option Register) :
    (tx.merge amount token page).amount = Word.saturatingAdd tx.amount amount := by
  cases token with
  | none => rfl
  | some token => exact amount_addToken { tx with amount := tx.amount.saturatingAdd amount } token

theorem processed_addToken (tx : Transaction) (token : Holding) :
    (tx.addToken token).processed = tx.processed := by
  unfold addToken
  split_ifs
  · rfl
  · rfl

theorem processed_merge (tx : Transaction) (amount : Word) (token : Option Holding)
    (page : Option Register) : (tx.merge amount token page).processed = tx.processed := by
  cases token with
  | none => rfl
  | some token =>
      exact processed_addToken { tx with amount := tx.amount.saturatingAdd amount } token

theorem amount_le_totalAmount {tx : Transaction} {transactions : List Transaction}
    (hmem : tx ∈ transactions) : tx.amount.toNat ≤ totalAmount transactions :=
  List.le_sum_of_mem (List.mem_map_of_mem hmem)

end Transaction

namespace Contract

open Transaction

-- The exact sum of what waits in the queue.
def queued (contract : Contract) : Nat := totalAmount contract.queue

-- A payment that fits on top of the queue loses nothing, neither on its own nor in a waiting one.
theorem queued_enqueue (contract : Contract) (recipient amount : Word) (token : Option Holding)
    (page : Option Register) (height : Word)
    (hfits : contract.queued + amount.toNat < Word.modulus) :
    (contract.enqueue recipient amount token page height).queued =
      contract.queued + amount.toNat := by
  by_cases hwaits : contract.queue.any (·.recipient == recipient) = true
  · obtain ⟨found, hfound⟩ := exists_find?_of_any hwaits
    have hle := amount_le_totalAmount (List.mem_of_find?_eq_some hfound)
    have hsum := sum_updateFirst (fun tx : Transaction => tx.recipient == recipient)
      (·.merge amount (token.filter (0 < ·.quantity)) page) (fun tx => tx.amount.toNat)
      contract.queue found hfound
    rw [amount_merge, Word.toNat_saturatingAdd (by unfold queued at hfits; omega)] at hsum
    have hqueue : (contract.enqueue recipient amount token page height).queued =
        ((updateFirst (fun tx : Transaction => tx.recipient == recipient)
          (·.merge amount (token.filter (0 < ·.quantity)) page) contract.queue).map
          fun tx => tx.amount.toNat).sum := by
      simp only [enqueue, hwaits, ite_true]
      rfl
    have hqueued : contract.queued = (contract.queue.map fun tx => tx.amount.toNat).sum := rfl
    omega
  · simp only [enqueue, hwaits, Bool.false_eq_true, ite_false, queued, totalAmount_append,
      totalAmount_cons, totalAmount_nil, Nat.add_zero]

-- Payments change nothing but the queue.
theorem exists_enqueue_eq (contract : Contract) (recipient amount : Word) (token : Option Holding)
    (page : Option Register) (height : Word) :
    ∃ queue, contract.enqueue recipient amount token page height = { contract with queue } := by
  unfold enqueue
  split_ifs
  · exact ⟨_, rfl⟩
  · exact ⟨_, rfl⟩

-- No payment that waits has woken anyone.
def Unspent (contract : Contract) : Prop := ∀ tx ∈ contract.queue, tx.processed = false

theorem Unspent.enqueue {contract : Contract} (hunspent : contract.Unspent)
    (recipient amount : Word) (token : Option Holding) (page : Option Register) (height : Word) :
    (contract.enqueue recipient amount token page height).Unspent := by
  unfold Contract.enqueue
  dsimp only
  split_ifs
  · have hflags := map_updateFirst_of_eq (fun tx : Transaction => tx.recipient == recipient)
      (·.merge amount (token.filter (0 < ·.quantity)) page) Transaction.processed contract.queue
      fun tx _ => processed_merge tx amount _ page
    have hold : ∀ flag ∈ contract.queue.map Transaction.processed, flag = false :=
      List.forall_mem_map.mpr hunspent
    rw [← hflags] at hold
    exact List.forall_mem_map.mp hold
  · intro tx hmem
    rcases List.mem_append.mp hmem with hold | hnew
    · exact hunspent tx hold
    · rw [List.mem_singleton.mp hnew]

end Contract

end ContractSim
