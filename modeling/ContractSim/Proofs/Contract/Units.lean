import ContractSim.Proofs.Contract.Queue
import ContractSim.Proofs.Ledger.Units

namespace ContractSim

open Holding

namespace Transaction

theorem addToken_eq (tx : Transaction) (token : Holding) :
    tx.addToken token = { tx with tokens := gathered token.asset token.quantity tx.tokens } := by
  unfold addToken gathered
  split_ifs <;> rfl

-- The units of an asset in a token, if there is one.
def tokenUnits (asset : Word) (token : Option Holding) : Nat :=
  (token.map (Holding.units asset)).getD 0

theorem kept_total_merge (tx : Transaction) (amount : Word) (token : Option Holding)
    (page : Option Register) (asset : Word) :
    Kept (total asset tx.tokens + tokenUnits asset token)
      (total asset (tx.merge amount token page).tokens) := by
  cases token with
  | none => exact Kept.refl _
  | some token =>
      rw [merge, Option.map_some, Option.getD_some, addToken_eq]
      exact kept_total_gathered token.asset token.quantity tx.tokens asset

theorem single_merge {tx : Transaction} (hsingle : Single tx.tokens) (amount : Word)
    (token : Option Holding) (page : Option Register) :
    Single (tx.merge amount token page).tokens := by
  cases token with
  | none => exact hsingle
  | some token =>
      rw [merge, Option.map_some, Option.getD_some, addToken_eq]
      exact single_gathered hsingle token.asset token.quantity

-- Nothing is left out with a token that has no units.
theorem tokenUnits_filter (asset : Word) (token : Option Holding) :
    tokenUnits asset (token.filter (0 < ·.quantity)) = tokenUnits asset token := by
  cases token with
  | none => rfl
  | some token =>
      by_cases hpositive : 0 < token.quantity
      · rw [Option.filter_some, if_pos (decide_eq_true hpositive)]
      · have hzero : token.quantity = 0 := UInt64.le_zero_iff.mp (UInt64.not_lt.mp hpositive)
        rw [Option.filter_some, if_neg (by rwa [decide_eq_true_eq])]
        simp [tokenUnits, Holding.units, hzero]

end Transaction

namespace Contract

open Transaction

-- The exact sum of the units of an asset that wait in the queue.
def units (asset : Word) (contract : Contract) : Nat :=
  (contract.queue.map fun tx => total asset tx.tokens).sum

-- No payment that waits has two tokens of one asset.
def Single (contract : Contract) : Prop := ∀ tx ∈ contract.queue, Holding.Single tx.tokens

-- A token that is queued is there, unless it brings a waiting one past the largest word.
theorem kept_units_enqueue (contract : Contract) (recipient amount : Word)
    (token : Option Holding) (page : Option Register) (height asset : Word) :
    Kept (contract.units asset + tokenUnits asset token)
      ((contract.enqueue recipient amount token page height).units asset) := by
  rw [← tokenUnits_filter]
  by_cases hwaits : contract.queue.any (·.recipient == recipient) = true
  · obtain ⟨found, hfound⟩ := exists_find?_of_any hwaits
    have hle : total asset found.tokens ≤ contract.units asset :=
      List.le_sum_of_mem (List.mem_map_of_mem (List.mem_of_find?_eq_some hfound))
    have hsum := sum_updateFirst (fun tx : Transaction => tx.recipient == recipient)
      (·.merge amount (token.filter (0 < ·.quantity)) page) (fun tx => total asset tx.tokens)
      contract.queue found hfound
    obtain ⟨hmost, hexact⟩ :=
      found.kept_total_merge amount (token.filter (0 < ·.quantity)) page asset
    have hqueue : (contract.enqueue recipient amount token page height).units asset =
        ((updateFirst (fun tx : Transaction => tx.recipient == recipient)
          (·.merge amount (token.filter (0 < ·.quantity)) page) contract.queue).map
          fun tx => total asset tx.tokens).sum := by
      simp only [enqueue, hwaits, ite_true]
      rfl
    have hunits : contract.units asset =
        (contract.queue.map fun tx => total asset tx.tokens).sum := rfl
    rw [hqueue]
    constructor
    · omega
    · intro hfits
      have hall := hexact (by omega)
      omega
  · refine Kept.of_eq ?_
    simp only [enqueue, hwaits, Bool.false_eq_true, ite_false, units, List.map_append,
      List.sum_append, List.map_cons, List.map_nil, List.sum_cons, List.sum_nil, Nat.add_zero]
    cases token.filter (0 < ·.quantity) with
    | none => rfl
    | some token => simp [tokenUnits, total]

theorem Single.enqueue {contract : Contract} (hsingle : contract.Single) (recipient amount : Word)
    (token : Option Holding) (page : Option Register) (height : Word) :
    (contract.enqueue recipient amount token page height).Single := by
  unfold Contract.enqueue
  dsimp only
  split_ifs
  · exact forall_mem_updateFirst _ _ hsingle fun tx htx => single_merge htx amount _ page
  · intro tx hmem
    rcases List.mem_append.mp hmem with hold | hnew
    · exact hsingle tx hold
    · rw [List.mem_singleton.mp hnew]
      cases token.filter (0 < ·.quantity) with
      | none => exact List.nodup_nil
      | some token => exact List.pairwise_singleton _ _

end Contract

end ContractSim
