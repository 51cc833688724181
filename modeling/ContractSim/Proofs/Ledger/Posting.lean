import ContractSim.Proofs.Ledger.Balance
import ContractSim.Simulation.Forge
import Mathlib.Data.List.Forall2

namespace ContractSim

namespace Transaction

-- The exact sum of the amounts of transactions.
def totalAmount (transactions : List Transaction) : Nat :=
  (transactions.map fun tx => tx.amount.toNat).sum

-- The exact sum of what transactions bring to one account.
def totalTo (transactions : List Transaction) (recipient : Word) : Nat :=
  totalAmount (transactions.filter (·.recipient == recipient))

@[simp]
theorem totalAmount_nil : totalAmount [] = 0 := rfl

@[simp]
theorem totalAmount_cons (tx : Transaction) (rest : List Transaction) :
    totalAmount (tx :: rest) = tx.amount.toNat + totalAmount rest := by
  simp [totalAmount]

@[simp]
theorem totalAmount_append (left right : List Transaction) :
    totalAmount (left ++ right) = totalAmount left + totalAmount right := by
  simp [totalAmount]

@[simp]
theorem totalTo_nil (recipient : Word) : totalTo [] recipient = 0 := rfl

theorem totalTo_cons_self (tx : Transaction) (rest : List Transaction) :
    totalTo (tx :: rest) tx.recipient = tx.amount.toNat + totalTo rest tx.recipient := by
  simp [totalTo]

theorem totalTo_cons_of_ne {tx : Transaction} {recipient : Word} (rest : List Transaction)
    (hne : recipient ≠ tx.recipient) : totalTo (tx :: rest) recipient = totalTo rest recipient := by
  simp [totalTo, Ne.symm hne]

@[simp]
theorem totalTo_append (left right : List Transaction) (recipient : Word) :
    totalTo (left ++ right) recipient = totalTo left recipient + totalTo right recipient := by
  simp [totalTo]

-- The kind of a transaction has no part in what it brings.
theorem totalTo_map_classified (transactions : List Transaction) (recipient : Word) :
    totalTo (transactions.map classified) recipient = totalTo transactions recipient := by
  induction transactions with
  | nil => rfl
  | cons tx rest ih =>
      by_cases hrecipient : recipient = tx.recipient
      · subst hrecipient
        rw [List.map_cons, totalTo_cons_self, ← ih]
        exact totalTo_cons_self tx.classified (rest.map classified)
      · rw [List.map_cons, totalTo_cons_of_ne rest hrecipient, ← ih]
        exact totalTo_cons_of_ne (rest.map classified) hrecipient

theorem totalAmount_map_classified (transactions : List Transaction) :
    totalAmount (transactions.map classified) = totalAmount transactions := by
  simp only [totalAmount, List.map_map]
  rfl

-- The record of a transaction at a height: it has got an id and a timestamp.
def RecordedAt (height : Word) (tx recorded : Transaction) : Prop :=
  recorded = { tx with id := recorded.id, timestamp := recorded.timestamp, blockheight := height }

end Transaction

namespace Ledger

open Transaction

-- Transactions bring some account more than it can hold.
def Overflows (ledger : Ledger) (transactions : List Transaction) : Prop :=
  ∃ recipient, Word.modulus ≤ (ledger.balance recipient).toNat + totalTo transactions recipient

theorem not_overflows_iff (ledger : Ledger) (transactions : List Transaction) :
    ¬ledger.Overflows transactions ↔
      ∀ recipient,
        (ledger.balance recipient).toNat + totalTo transactions recipient < Word.modulus := by
  simp [Overflows]

theorem overflows_map_classified (ledger : Ledger) (transactions : List Transaction) :
    ledger.Overflows (transactions.map classified) ↔ ledger.Overflows transactions := by
  simp only [Overflows, totalTo_map_classified]

-- Every running total is a balance with the credits so far. The check therefore agrees with the
-- exact sums of what is still to come on top of the running totals.
theorem checkCreditsFrom_eq_ok_iff (ledger : Ledger) (totals : List (Word × Word))
    (transactions : List Transaction) :
    checkCreditsFrom ledger totals (Simulation.credits transactions) = .ok () ↔
      ∀ recipient, ((totals.lookup recipient).getD (ledger.balance recipient)).toNat +
        totalTo transactions recipient < Word.modulus := by
  induction transactions generalizing totals with
  | nil =>
      simp only [Simulation.credits, List.map_nil, checkCreditsFrom, totalTo_nil, Nat.add_zero,
        true_iff]
      intro recipient
      exact Word.toNat_lt_modulus _
  | cons tx rest ih =>
      simp only [Simulation.credits, List.map_cons, checkCreditsFrom]
      cases hadd : Word.checkedAdd
          ((totals.lookup tx.recipient).getD (ledger.balance tx.recipient)) tx.amount with
      | none =>
          rw [Word.checkedAdd_eq_none_iff] at hadd
          constructor
          · intro hok
            cases hok
          · intro hfits
            have hself := hfits tx.recipient
            rw [totalTo_cons_self] at hself
            omega
      | some total =>
          rw [Word.checkedAdd_eq_some_iff] at hadd
          have hrest := ih ((tx.recipient, total) :: totals)
          rw [Simulation.credits] at hrest
          simp only [hrest]
          apply forall_congr'
          intro recipient
          by_cases hrecipient : recipient = tx.recipient
          · subst hrecipient
            rw [List.lookup_cons_self, Option.getD_some, totalTo_cons_self]
            omega
          · rw [List.lookup_cons, beq_eq_false_iff_ne.mpr hrecipient,
              totalTo_cons_of_ne rest hrecipient]

-- The check passes exactly the batches in which no account gets too much.
theorem checkCredits_eq_ok_iff (ledger : Ledger) (transactions : List Transaction) :
    ledger.checkCredits (Simulation.credits transactions) = .ok () ↔
      ¬ledger.Overflows transactions := by
  rw [checkCredits, checkCreditsFrom_eq_ok_iff, not_overflows_iff]
  rfl

theorem overflows_of_checkCredits {ledger : Ledger} {transactions : List Transaction}
    {error : LedgerError}
    (hcheck : ledger.checkCredits (Simulation.credits transactions) = .error error) :
    ledger.Overflows transactions := by
  by_contra hfits
  rw [(checkCredits_eq_ok_iff _ _).mpr hfits] at hcheck
  cases hcheck

-- What a ledger looks like when transactions have been applied: all balances have grown by exactly
-- what they got, and there is one record a transaction.
structure Posted (before : Ledger) (transactions : List Transaction) (ids : List Word)
    (after : Ledger) : Prop where
  balance : ∀ recipient, (after.balance recipient).toNat =
    (before.balance recipient).toNat + totalTo transactions recipient
  totalBalance : after.totalBalance = before.totalBalance + totalAmount transactions
  hasAccount : ∀ id, before.hasAccount id = true → after.hasAccount id = true
  height : after.height = before.height
  recorded : ∃ recorded, after.transactions = before.transactions ++ recorded ∧
    recorded.map Transaction.id = ids ∧
    List.Forall₂ (RecordedAt before.height) transactions recorded

theorem map_amount_of_recordedAt {height : Word} {transactions recorded : List Transaction}
    (hrecorded : List.Forall₂ (RecordedAt height) transactions recorded) :
    recorded.map Transaction.amount = transactions.map Transaction.amount := by
  induction hrecorded with
  | nil => rfl
  | cons hhead _ ih =>
      rw [List.map_cons, List.map_cons, ih, hhead]

-- The records come last on the ledger.
theorem Posted.amounts_eq {before after : Ledger} {transactions : List Transaction}
    {ids : List Word} (hposted : Posted before transactions ids after) :
    after.amounts = before.amounts ++ transactions.map Transaction.amount ∧
      ids.length = transactions.length := by
  obtain ⟨recorded, hlist, hids, hrecorded⟩ := hposted.recorded
  constructor
  · rw [amounts, hlist, List.map_append, map_amount_of_recordedAt hrecorded, amounts]
  · rw [← hids, List.length_map, hrecorded.length_eq]

theorem Posted.nil (ledger : Ledger) : Posted ledger [] [] ledger where
  balance _ := rfl
  totalBalance := rfl
  hasAccount _ hhas := hhas
  height := rfl
  recorded := ⟨[], by simp⟩

theorem Posted.append {first second third : Ledger} {left right : List Transaction}
    {leftIds rightIds : List Word} (hleft : Posted first left leftIds second)
    (hright : Posted second right rightIds third) :
    Posted first (left ++ right) (leftIds ++ rightIds) third where
  balance recipient := by
    rw [hright.balance, hleft.balance, totalTo_append]
    omega
  totalBalance := by
    rw [hright.totalBalance, hleft.totalBalance, totalAmount_append]
    omega
  hasAccount id hhas := hright.hasAccount id (hleft.hasAccount id hhas)
  height := hright.height.trans hleft.height
  recorded := by
    obtain ⟨leftRecorded, hleftList, hleftMap, hleftAll⟩ := hleft.recorded
    obtain ⟨rightRecorded, hrightList, hrightMap, hrightAll⟩ := hright.recorded
    rw [hleft.height] at hrightAll
    refine ⟨leftRecorded ++ rightRecorded, ?_, ?_, List.rel_append hleftAll hrightAll⟩
    · rw [hrightList, hleftList, List.append_assoc]
    · rw [List.map_append, hleftMap, hrightMap]

-- What fits as a whole fits piece by piece.
theorem Posted.overflows_append_iff {before after : Ledger} {left : List Transaction}
    {ids : List Word} (hposted : Posted before left ids after) (right : List Transaction) :
    before.Overflows (left ++ right) ↔ after.Overflows right := by
  simp only [Overflows, totalTo_append, hposted.balance, Nat.add_assoc]

theorem not_overflows_of_append {ledger : Ledger} {left right : List Transaction}
    (hfits : ¬ledger.Overflows (left ++ right)) : ¬ledger.Overflows left := by
  rw [not_overflows_iff] at hfits ⊢
  intro recipient
  have hsum := hfits recipient
  rw [totalTo_append] at hsum
  omega

theorem transactions_touch (ledger : Ledger) (id : Word) :
    (ledger.touch id).transactions = ledger.transactions := by
  unfold touch
  split_ifs
  · rfl
  · rfl

theorem transactions_credit (ledger : Ledger) (id amount : Word) :
    ((credit id amount).run ledger).2.transactions = ledger.transactions := by
  rw [run_credit]
  split
  · exact transactions_touch ledger id
  · exact transactions_touch ledger id

theorem transactions_mintAsset (ledger : Ledger) (issuer asset quantity : Word) :
    ((mintAsset issuer asset quantity).run ledger).2.transactions = ledger.transactions := by
  rcases ledger.run_mintAsset_cases issuer asset quantity with hrun | ⟨-, hrun⟩
  · rw [hrun]
  · rw [hrun]
    exact transactions_touch ledger issuer

theorem transactions_setMapValue (ledger : Ledger) (contract key1 key2 value : Word) :
    (ledger.setMapValue contract key1 key2 value).transactions = ledger.transactions := by
  unfold setMapValue
  split_ifs
  · rfl
  · rfl

theorem transactions_creditTokens (ledger : Ledger) (id : Word) (tokens : List Holding) :
    (ledger.creditTokens id tokens).transactions = ledger.transactions := by
  induction tokens generalizing ledger with
  | nil => rfl
  | cons token rest ih =>
      exact (ih _).trans (transactions_touch ledger id)

-- A recipient that can hold the amount gets it, and the transaction is recorded.
theorem exists_posted_apply (ledger : Ledger) (tx : Transaction)
    (hfits : ¬ledger.Overflows [tx]) :
    ∃ id after, (apply tx).run ledger = (.ok id, after) ∧ Posted ledger [tx] [id] after := by
  have hself := (not_overflows_iff _ _).mp hfits tx.recipient
  rw [totalTo_cons_self, totalTo_nil, Nat.add_zero] at hself
  have hadd : Word.checkedAdd (ledger.balance tx.recipient) tx.amount =
      some (ledger.balance tx.recipient + tx.amount) := by
    rw [Word.checkedAdd_eq_some_iff, Word.toNat_add_of_lt hself]
  have hcredit := run_credit ledger tx.recipient tx.amount
  rw [hadd] at hcredit
  let credited := ledger.setBalance tx.recipient (ledger.balance tx.recipient + tx.amount)
  let paid := credited.creditTokens tx.recipient tx.tokens
  have htokens : SameBalances credited paid := sameBalances_creditTokens _ _ _
  have hrun : (apply tx).run ledger = (.ok (paid.record tx).1, (paid.record tx).2) := by
    rw [apply, Action.run_bind_of_ok hcredit]
    rfl
  refine ⟨_, _, hrun, ?_⟩
  -- The record of the transaction has no part in the balances.
  constructor
  · intro recipient
    have hbalance : (paid.record tx).2.balance recipient = credited.balance recipient :=
      htokens.balance recipient
    rw [hbalance]
    by_cases hrecipient : recipient = tx.recipient
    · subst hrecipient
      rw [balance_setBalance_self, Word.toNat_add_of_lt hself, totalTo_cons_self, totalTo_nil,
        Nat.add_zero]
    · rw [balance_setBalance_of_ne _ _ hrecipient, totalTo_cons_of_ne [] hrecipient, totalTo_nil,
        Nat.add_zero]
  · have htotal : credited.totalBalance + (ledger.balance tx.recipient).toNat =
        ledger.totalBalance + (ledger.balance tx.recipient + tx.amount).toNat :=
      totalBalance_setBalance ledger _ _
    have hrecord : (paid.record tx).2.totalBalance = credited.totalBalance := htokens.totalBalance
    rw [Word.toNat_add_of_lt hself] at htotal
    rw [hrecord, totalAmount_cons, totalAmount_nil, Nat.add_zero]
    omega
  · intro id hhas
    exact htokens.hasAccount id (hasAccount_setBalance ledger _ _ id (.inr hhas))
  · exact htokens.height.trans (height_setBalance ledger _ _)
  · have hheight : paid.height = ledger.height :=
      htokens.height.trans (height_setBalance ledger _ _)
    refine ⟨[{ tx with
      id := (paid.record tx).1, timestamp := paid.timestamp, blockheight := paid.height }],
      ?_, rfl, List.Forall₂.cons ?_ List.Forall₂.nil⟩
    · have hpaid : paid.transactions = ledger.transactions :=
        (transactions_creditTokens _ _ _).trans (transactions_touch ledger tx.recipient)
      rw [← hpaid]
      rfl
    · rw [RecordedAt, hheight]

end Ledger

namespace Simulation

open Ledger Transaction

-- Applied one after another, transactions that fit together are all accepted.
theorem exists_posted_applyAll (ledger : Ledger) (transactions : List Transaction)
    (hfits : ¬ledger.Overflows transactions) :
    ∃ ids after, (applyAll transactions).run ledger = (.ok ids, after) ∧
      Posted ledger transactions ids after := by
  induction transactions generalizing ledger with
  | nil => exact ⟨[], ledger, rfl, Posted.nil ledger⟩
  | cons tx rest ih =>
      rw [← List.singleton_append] at hfits
      obtain ⟨id, next, hrun, hposted⟩ :=
        exists_posted_apply ledger tx (not_overflows_of_append hfits)
      have htail := mt (hposted.overflows_append_iff rest).mpr hfits
      obtain ⟨ids, after, hrest, hpostedRest⟩ := ih next htail
      refine ⟨id :: ids, after, ?_, hposted.append hpostedRest⟩
      rw [applyAll, Action.run_bind_of_ok hrun, Action.run_bind_of_ok hrest]
      rfl

-- A queue whose payments fit together is emptied.
theorem exists_posted_dispatchQueue (ledger : Ledger) (queue : List Transaction)
    (hfits : ¬ledger.Overflows queue) :
    ∃ ids after, dispatchQueue ledger queue = (.ok ids, after, []) ∧
      Posted ledger (queue.map classified) ids after := by
  induction queue generalizing ledger with
  | nil => exact ⟨[], ledger, rfl, Posted.nil ledger⟩
  | cons tx rest ih =>
      rw [← overflows_map_classified, List.map_cons, ← List.singleton_append] at hfits
      obtain ⟨id, next, hrun, hposted⟩ :=
        exists_posted_apply ledger tx.classified (not_overflows_of_append hfits)
      have htail := mt (hposted.overflows_append_iff (rest.map classified)).mpr hfits
      rw [overflows_map_classified] at htail
      obtain ⟨ids, after, hrest, hpostedRest⟩ := ih next htail
      refine ⟨id :: ids, after, ?_, hposted.append hpostedRest⟩
      simp only [dispatchQueue, hrun, hrest, Except.map]

-- Queues whose payments fit together are all emptied.
theorem exists_posted_dispatchQueues (ledger : Ledger) (contracts : List Contract)
    (hfits : ¬ledger.Overflows (contracts.flatMap Contract.queue)) :
    ∃ ids after,
      dispatchQueues ledger contracts = (.ok ids, after, contracts.map ({ · with queue := [] })) ∧
      Posted ledger ((contracts.flatMap Contract.queue).map classified) ids after := by
  induction contracts generalizing ledger with
  | nil => exact ⟨[], ledger, rfl, Posted.nil ledger⟩
  | cons contract rest ih =>
      rw [← overflows_map_classified, List.flatMap_cons, List.map_append] at hfits
      have hhead := not_overflows_of_append hfits
      rw [overflows_map_classified] at hhead
      obtain ⟨ids, next, hrun, hposted⟩ := exists_posted_dispatchQueue ledger contract.queue hhead
      have htail := mt (hposted.overflows_append_iff _).mpr hfits
      rw [overflows_map_classified] at htail
      obtain ⟨more, after, hrest, hpostedRest⟩ := ih next htail
      refine ⟨ids ++ more, after, ?_, ?_⟩
      · simp only [dispatchQueues, hrun, hrest, Except.map, List.map_cons]
      · rw [List.flatMap_cons, List.map_append]
        exact hposted.append hpostedRest

end Simulation

end ContractSim
