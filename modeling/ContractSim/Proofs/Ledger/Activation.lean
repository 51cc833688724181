import ContractSim.Proofs.Ledger.Posting

namespace ContractSim

namespace Transaction

theorem earliest_eq_none_iff {transactions : List Transaction} :
    earliest transactions = none ↔ transactions = [] := by
  cases transactions with
  | nil => exact ⟨fun _ => rfl, fun _ => rfl⟩
  | cons tx rest =>
      refine ⟨?_, nofun⟩
      intro hnone
      simp only [earliest] at hnone
      split at hnone
      · cases hnone
      · split_ifs at hnone

theorem mem_of_earliest {transactions : List Transaction} {found : Transaction}
    (hfound : earliest transactions = some found) : found ∈ transactions := by
  induction transactions generalizing found with
  | nil => cases hfound
  | cons tx rest ih =>
      simp only [earliest] at hfound
      split at hfound
      · cases hfound
        exact List.mem_cons_self
      · rename_i other hother
        split_ifs at hfound
        · cases hfound
          exact List.mem_cons_self
        · cases hfound
          exact List.mem_cons_of_mem tx (ih hother)

-- A transaction that has woken its recipient, and is otherwise as it was.
def spent (tx : Transaction) : Transaction := { tx with processed := true }

-- What time does to a transaction on the ledger: it may be spent, once.
def Ages (before after : Transaction) : Prop :=
  after = before ∨ (before.processed = false ∧ after = before.spent)

theorem Ages.trans {first second third : Transaction} (hleft : Ages first second)
    (hright : Ages second third) : Ages first third := by
  rcases hleft with rfl | ⟨hfirst, rfl⟩
  · exact hright
  · rcases hright with rfl | ⟨hsecond, -⟩
    · exact .inr ⟨hfirst, rfl⟩
    · cases hsecond

-- Whatever the mark has no part in stays.
theorem Ages.view_eq {α : Type} {before after : Transaction} (hages : Ages before after)
    (view : Transaction → α) (hview : ∀ tx, view (spent tx) = view tx) :
    view after = view before := by
  rcases hages with rfl | ⟨-, rfl⟩
  · rfl
  · exact hview before

theorem Ages.id_eq {before after : Transaction} (hages : Ages before after) :
    after.id = before.id :=
  hages.view_eq Transaction.id fun _ => rfl

theorem Ages.blockheight_eq {before after : Transaction} (hages : Ages before after) :
    after.blockheight = before.blockheight :=
  hages.view_eq Transaction.blockheight fun _ => rfl

end Transaction

namespace Ledger

open Transaction

-- How many transactions have been spent on waking an account.
def spentOn (ledger : Ledger) (id : Word) : Nat :=
  (ledger.transactionsTo id).countP Transaction.processed

theorem awakens_iff {recipient least : Word} {tx : Transaction} :
    awakens recipient least tx = true ↔
      tx.recipient = recipient ∧ tx.processed = false ∧ least ≤ tx.amount := by
  rw [awakens, Bool.and_eq_true, Bool.and_eq_true, beq_iff_eq, Bool.not_eq_true',
    decide_eq_true_eq, and_assoc]

-- A transaction that has aged wakes nobody whom it could not wake before.
theorem awakens_of_ages {recipient least : Word} {before after : Transaction}
    (hages : Ages before after) (hbefore : awakens recipient least before = false) :
    awakens recipient least after = false := by
  rcases hages with rfl | ⟨-, rfl⟩
  · exact hbefore
  · rw [Bool.eq_false_iff]
    intro hafter
    cases (awakens_iff.mp hafter).2.1

-- The first of the transactions that can wake an account is spent, if there is one.
theorem consumeActivation_cases (ledger : Ledger) (recipient least : Word) :
    ((∀ tx ∈ ledger.transactions, awakens recipient least tx = false) ∧
      ledger.consumeActivation recipient least = (none, ledger)) ∨
    ∃ id before tx after, ledger.transactions = before ++ tx :: after ∧
      awakens recipient least tx = true ∧
      ledger.consumeActivation recipient least =
        (some id, { ledger with transactions := before ++ tx.spent :: after }) := by
  cases hfound : earliest (ledger.transactions.filter (awakens recipient least)) with
  | none =>
      left
      refine ⟨?_, by simp only [consumeActivation, hfound]⟩
      intro tx hmem
      rw [Bool.eq_false_iff]
      exact List.filter_eq_nil_iff.mp (earliest_eq_none_iff.mp hfound) tx hmem
  | some found =>
      right
      obtain ⟨hmem, hawakens⟩ := List.mem_filter.mp (mem_of_earliest hfound)
      let test := fun tx => awakens recipient least tx && tx.timestamp == found.timestamp
      obtain ⟨first, hfirst⟩ : ∃ first, ledger.transactions.find? test = some first := by
        rw [← Option.isSome_iff_exists, List.find?_isSome]
        exact ⟨found, hmem, by simp only [test, hawakens, beq_self_eq_true, Bool.and_self]⟩
      obtain ⟨before, after, hsplit, hbefore, htest⟩ := exists_split_of_find? hfirst
      have hupdate := updateFirst_append_cons test spent before after first hbefore htest
      rw [← hsplit] at hupdate
      refine ⟨found.id, before, first, after, hsplit, (Bool.and_eq_true_iff.mp htest).1, ?_⟩
      simp only [consumeActivation, hfound]
      rw [← hupdate]
      rfl

section Spent

variable {ledger : Ledger} {before after : List Transaction} {tx : Transaction}

-- The recipient, and nobody else, has one more transaction spent on it.
theorem spentOn_spent (hsplit : ledger.transactions = before ++ tx :: after)
    (hprocessed : tx.processed = false) (id : Word) :
    spentOn { ledger with transactions := before ++ tx.spent :: after } id =
      ledger.spentOn id + if tx.recipient = id then 1 else 0 := by
  have hrecipient : tx.spent.recipient = tx.recipient := rfl
  simp only [spentOn, transactionsTo, hsplit, List.filter_append, List.filter_cons, hrecipient,
    beq_iff_eq]
  split_ifs
  · simp only [List.countP_append, List.countP_cons, hprocessed, spent, ite_true,
      Bool.false_eq_true, ite_false]
    omega
  · rfl

-- Records that have woken nobody do not count.
theorem spentOn_append {next : Ledger} {recorded : List Transaction}
    (hnext : next.transactions = ledger.transactions ++ recorded)
    (hrecorded : ∀ tx ∈ recorded, tx.processed = false) (id : Word) :
    next.spentOn id = ledger.spentOn id := by
  have hnone : (recorded.filter (·.recipient == id)).countP Transaction.processed = 0 := by
    rw [List.countP_eq_zero]
    intro tx hmem
    rw [hrecorded tx (List.mem_filter.mp hmem).1]
    exact Bool.false_ne_true
  rw [spentOn, transactionsTo, hnext, List.filter_append, List.countP_append, hnone, Nat.add_zero]
  rfl

end Spent

-- Nothing has been spent on an account to which no transaction has been spent.
theorem spentOn_eq_zero {ledger : Ledger} {id : Word}
    (hnone : ∀ tx ∈ ledger.transactions, tx.processed = true → tx.recipient ≠ id) :
    ledger.spentOn id = 0 := by
  rw [spentOn, List.countP_eq_zero]
  intro tx hmem hprocessed
  obtain ⟨hledger, hrecipient⟩ := List.mem_filter.mp hmem
  exact hnone tx hledger hprocessed (beq_iff_eq.mp hrecipient)

theorem id_of_transaction? {ledger : Ledger} {id : Word} {tx : Transaction}
    (hfound : ledger.transaction? id = some tx) : tx.id = id := by
  rw [transaction?] at hfound
  have htest := List.find?_some hfound
  exact beq_iff_eq.mp htest

end Ledger

end ContractSim
