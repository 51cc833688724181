import ContractSim.Proofs.Ledger.Share

namespace ContractSim

-- How an account may differ for an owner who cannot tell: its own account not at all, and other
-- accounts in their balance, and in what they hold unless holdings are open to see.
structure Account.Alike (owner : Word) (holdings : Prop) (left right : Account) : Prop where
  id : right.id = left.id
  own : left.id = owner → right = left
  assets : holdings → right.assets = left.assets

-- Transactions to others may differ in all but id and recipient.
structure Transaction.Alike (owner : Word) (left right : Transaction) : Prop where
  id : right.id = left.id
  recipient : right.recipient = left.recipient
  own : left.recipient = owner → right = left

namespace Ledger

-- Ledgers that an owner cannot tell apart.
structure Alike (owner : Word) (holdings : Prop) (left right : Ledger) : Prop where
  rest : right = { left with accounts := right.accounts, transactions := right.transactions }
  accounts : List.Forall₂ (Account.Alike owner holdings) left.accounts right.accounts
  transactions : List.Forall₂ (Transaction.Alike owner) left.transactions right.transactions

namespace Alike

variable {owner : Word} {holdings : Prop}

theorem refl (ledger : Ledger) : Alike owner holdings ledger ledger where
  rest := rfl
  accounts := List.forall₂_same.mpr fun _ _ => ⟨rfl, fun _ => rfl, fun _ => rfl⟩
  transactions := List.forall₂_same.mpr fun _ _ => ⟨rfl, rfl, fun _ => rfl⟩

theorem symm {left right : Ledger} (halike : Alike owner holdings left right) :
    Alike owner holdings right left where
  rest := by rw [halike.rest]
  accounts := by
    refine halike.accounts.flip.imp ?_
    intro other account hsame
    exact ⟨hsame.id.symm, fun hown => (hsame.own (hsame.id.symm.trans hown)).symm,
      fun hseen => (hsame.assets hseen).symm⟩
  transactions := by
    refine halike.transactions.flip.imp ?_
    intro other tx hsame
    exact ⟨hsame.id.symm, hsame.recipient.symm,
      fun hown => (hsame.own (hsame.recipient.symm.trans hown)).symm⟩

theorem trans {first second third : Ledger} (hleft : Alike owner holdings first second)
    (hright : Alike owner holdings second third) : Alike owner holdings first third where
  rest := by
    rw [hright.rest, hleft.rest]
  accounts := by
    refine forall₂_comp ?_ hleft.accounts hright.accounts
    intro before middle after hfirst hsecond
    refine ⟨hsecond.id.trans hfirst.id, ?_, ?_⟩
    · intro hown
      rw [hsecond.own (hfirst.id.trans hown), hfirst.own hown]
    · exact fun hseen => (hsecond.assets hseen).trans (hfirst.assets hseen)
  transactions := by
    refine forall₂_comp ?_ hleft.transactions hright.transactions
    intro before middle after hfirst hsecond
    refine ⟨hsecond.id.trans hfirst.id, hsecond.recipient.trans hfirst.recipient, ?_⟩
    intro hown
    rw [hsecond.own (hfirst.recipient.trans hown), hfirst.own hown]

end Alike

-- Ledgers that nobody can tell apart are the same.
theorem eq_of_alike {holdings : Prop} {left right : Ledger}
    (halike : ∀ owner, Alike owner holdings left right) : right = left := by
  have haccounts : right.accounts = left.accounts := by
    have hall : List.Forall₂ (fun account other => other = account) left.accounts
        right.accounts := by
      rw [List.forall₂_iff_get]
      refine ⟨(halike 0).accounts.length_eq, ?_⟩
      intro index hleft hright
      have hsame := (halike (left.accounts.get ⟨index, hleft⟩).id).accounts.get hleft hright
      exact hsame.own rfl
    exact eq_of_forall₂ (fun _ _ heq => heq) hall
  have htransactions : right.transactions = left.transactions := by
    have hall : List.Forall₂ (fun tx other => other = tx) left.transactions
        right.transactions := by
      rw [List.forall₂_iff_get]
      refine ⟨(halike 0).transactions.length_eq, ?_⟩
      intro index hleft hright
      have hsame := (halike (left.transactions.get ⟨index, hleft⟩).recipient).transactions.get
        hleft hright
      exact hsame.own rfl
    exact eq_of_forall₂ (fun _ _ heq => heq) hall
  rw [(halike 0).rest, haccounts, htransactions]

-- What an owner does to its own account does not show to anybody else.
theorem OwnAccount.alike {owner other : Word} {before after : Ledger}
    (hown : OwnAccount owner before after) (hne : owner ≠ other) :
    Alike other False before after where
  rest := by
    rw [hown.rest]
  accounts := by
    refine hown.accounts.imp ?_
    intro account changed hkept
    exact ⟨hkept.id, fun hother => hkept.same (by rwa [hother, ne_comm]), False.elim⟩
  transactions := by
    have hsame : Alike other False before before := Alike.refl before
    rw [hown.rest]
    exact hsame.transactions

section Queries

variable {owner : Word} {holdings : Prop} {left right : Ledger}
  (halike : Alike owner holdings left right)

include halike

theorem Alike.height : right.height = left.height := by
  rw [halike.rest]

theorem Alike.asset? (asset : Word) : right.asset? asset = left.asset? asset := by
  rw [halike.rest]
  rfl

theorem Alike.account? : right.account? owner = left.account? owner := by
  have hown := forall₂_filter (·.id == owner) (·.id == owner)
    (fun account other hsame => by rw [hsame.id]) halike.accounts
  have heq := eq_of_forall₂ (fun account other hsame => hsame.2.own (beq_iff_eq.mp hsame.1)) hown
  rw [Ledger.account?, Ledger.account?, ← List.head?_filter, ← List.head?_filter, heq]

theorem Alike.balance : right.balance owner = left.balance owner := by
  rw [Ledger.balance, halike.account?, Ledger.balance]

theorem Alike.assetQuantity (asset : Word) :
    right.assetQuantity owner asset = left.assetQuantity owner asset := by
  rw [Ledger.assetQuantity, halike.account?, Ledger.assetQuantity]

theorem Alike.transactionAfter (timestamp least : Word) :
    right.transactionAfter owner timestamp least = left.transactionAfter owner timestamp least := by
  have hown := forall₂_filter (·.recipient == owner) (·.recipient == owner)
    (fun tx other hsame => by rw [hsame.recipient]) halike.transactions
  have heq : right.transactionsTo owner = left.transactionsTo owner :=
    eq_of_forall₂ (fun tx other hsame => hsame.2.own (beq_iff_eq.mp hsame.1)) hown
  rw [Ledger.transactionAfter, heq, Ledger.transactionAfter]

-- A transaction can be looked up by anybody, but only its recipient goes on.
theorem Alike.filter_transaction? (id : Word) :
    (right.transaction? id).filter (·.recipient == owner) =
      (left.transaction? id).filter (·.recipient == owner) := by
  have hfound := forall₂_filter (·.id == id) (·.id == id)
    (fun tx other hsame => by rw [hsame.id]) halike.transactions
  rw [Ledger.transaction?, Ledger.transaction?, ← List.head?_filter, ← List.head?_filter]
  generalize left.transactions.filter (·.id == id) = first at hfound ⊢
  generalize right.transactions.filter (·.id == id) = second at hfound ⊢
  cases hfound with
  | nil => rfl
  | @cons tx other _ _ hsame _ =>
      by_cases hown : tx.recipient = owner
      · rw [List.head?_cons, List.head?_cons, hsame.2.own hown]
      · have hother : other.recipient ≠ owner := by rwa [hsame.2.recipient]
        have hskip : ∀ tx : Transaction, tx.recipient ≠ owner →
            (some tx).filter (·.recipient == owner) = none := by
          intro tx hne
          rw [Option.filter_some, if_neg (by rwa [beq_iff_eq])]
        rw [List.head?_cons, List.head?_cons, hskip tx hown, hskip other hother]

theorem Alike.isFree : right.isFree = left.isFree := by
  have haccounts := map_eq_of_forall₂ Account.id Account.id (fun _ _ hsame => hsame.id)
    halike.accounts
  have htransactions := map_eq_of_forall₂ Transaction.id Transaction.id (fun _ _ hsame => hsame.id)
    halike.transactions
  have hassets : right.assets = left.assets := by rw [halike.rest]
  have hused : ∀ (ledger : Ledger) (id : Word), ledger.isUsed id =
      ((ledger.accounts.map Account.id).any (· == id) ||
        (ledger.transactions.map Transaction.id).any (· == id) ||
        ledger.assets.any (·.id == id)) := by
    intro ledger id
    rw [isUsed, List.any_map, List.any_map]
    rfl
  funext id
  rw [Ledger.isFree, Ledger.isFree, hused, hused, haccounts, htransactions, hassets]

end Queries

section Holdings

variable {owner : Word} {holdings : Prop} {left right : Ledger}
  (halike : Alike owner holdings left right) (hseen : holdings)

include halike hseen

theorem Alike.assetHolders (asset least exclude : Word) :
    right.assetHolders asset least exclude = left.assetHolders asset least exclude := by
  have hothers := forall₂_filter (·.id != exclude) (·.id != exclude)
    (fun account other hsame => by rw [hsame.id]) halike.accounts
  have hholders := map_eq_of_forall₂ (fun account => (account.id, account.assetQuantity asset))
    (fun account => (account.id, account.assetQuantity asset)) (by
      intro account other hsame
      rw [Account.assetQuantity, Account.assetQuantity, hsame.2.id, hsame.2.assets hseen])
    hothers
  rw [Ledger.assetHolders, Ledger.assetHolders]
  simp only [hholders]

theorem Alike.assetCirculating (asset : Word) :
    right.assetCirculating asset = left.assetCirculating asset := by
  have hothers := forall₂_filter (some ·.id != (left.asset? asset).map Asset.issuer)
    (some ·.id != (left.asset? asset).map Asset.issuer)
    (fun account other hsame => by rw [hsame.id]) halike.accounts
  have hunits := map_eq_of_forall₂ (·.assetQuantity asset) (·.assetQuantity asset) (by
      intro account other hsame
      rw [Account.assetQuantity, Account.assetQuantity, hsame.2.assets hseen])
    hothers
  rw [Ledger.assetCirculating, Ledger.assetCirculating]
  simp only [halike.asset?, hunits]

end Holdings

section Changes

variable {owner : Word} {holdings : Prop} {left right : Ledger}
  (halike : Alike owner holdings left right)

include halike

theorem Alike.touch : Alike owner holdings (left.touch owner) (right.touch owner) := by
  have hhas : right.hasAccount owner = left.hasAccount owner := by
    rw [Ledger.hasAccount, halike.account?, Ledger.hasAccount]
  unfold Ledger.touch
  rw [hhas]
  split_ifs
  · exact halike
  · refine ⟨?_, ?_, halike.transactions⟩
    · rw [halike.rest]
    · exact List.rel_append halike.accounts (.cons ⟨rfl, fun _ => rfl, fun _ => rfl⟩ .nil)

-- The owner changes the same account in both.
theorem Alike.updateAccount {change : Account → Account} :
    Alike owner holdings (left.updateAccount owner change) (right.updateAccount owner change) where
  rest := by
    rw [Ledger.updateAccount, Ledger.updateAccount]
    rw [halike.rest]
  accounts := by
    refine forall₂_updateFirst_both _ _ halike.accounts ?_ ?_
    · intro account other hsame
      rw [hsame.id]
    · intro account other hsame htest
      rw [hsame.own (beq_iff_eq.mp htest)]
      exact ⟨rfl, fun _ => rfl, fun _ => rfl⟩
  transactions := halike.transactions

theorem Alike.setBalance (balance : Word) :
    Alike owner holdings (left.setBalance owner balance) (right.setBalance owner balance) :=
  halike.touch.updateAccount

theorem Alike.debitAsset (asset quantity : Word) :
    Alike owner holdings (left.debitAsset owner asset quantity).2
      (right.debitAsset owner asset quantity).2 :=
  halike.touch.updateAccount

theorem Alike.mintAsset (asset quantity : Word) :
    Alike owner holdings ((Ledger.mintAsset owner asset quantity).run left).2
      ((Ledger.mintAsset owner asset quantity).run right).2 := by
  simp only [Ledger.mintAsset, Action.run_bind, Action.run_get, halike.asset?]
  split
  · split_ifs
    · exact halike.touch.updateAccount
    · exact halike
  · exact halike

theorem Alike.setMapValue (key1 key2 value : Word) :
    Alike owner holdings (left.setMapValue owner key1 key2 value)
      (right.setMapValue owner key1 key2 value) := by
  have hmaps : right.maps = left.maps := by rw [halike.rest]
  unfold Ledger.setMapValue
  rw [hmaps]
  split_ifs
  · refine ⟨?_, halike.accounts, halike.transactions⟩
    rw [halike.rest]
  · refine ⟨?_, halike.accounts, halike.transactions⟩
    rw [halike.rest]

theorem Alike.issueAsset (name1 name2 decimals : Word) :
    (right.issueAsset owner name1 name2 decimals).1 =
        (left.issueAsset owner name1 name2 decimals).1 ∧
      Alike owner holdings (left.issueAsset owner name1 name2 decimals).2
        (right.issueAsset owner name1 name2 decimals).2 := by
  have hids : right.ids = left.ids := by rw [halike.rest]
  have hdraw : right.ids.draw right.isFree = left.ids.draw left.isFree := by
    rw [hids, halike.isFree]
  have hid : (right.ids.draw right.isFree).1 = (left.ids.draw left.isFree).1 := by
    rw [hdraw]
  refine ⟨hid, ?_, halike.accounts, halike.transactions⟩
  simp only [Ledger.issueAsset, freshId, hdraw]
  rw [halike.rest]

end Changes

end Ledger

end ContractSim
