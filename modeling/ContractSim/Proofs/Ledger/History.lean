import ContractSim.Proofs.Ledger.Record
import ContractSim.Proofs.Ledger.Share

namespace ContractSim

namespace IdStream

-- The stream a number of words later.
def later (stream : IdStream) (count : Nat) : IdStream :=
  { stream with drawn := stream.drawn + count }

theorem later_later (stream : IdStream) (first second : Nat) :
    (stream.later first).later second = stream.later (first + second) := by
  rw [later, later, later, Nat.add_assoc]

-- Whole periods do not matter.
theorem current_later_mod (stream : IdStream) (count : Nat) :
    (stream.later (count % period)).current = (stream.later count).current := by
  have hsplit : stream.drawn + count =
      stream.drawn + count % period + 8 * (Word.modulus * (count / period)) := by
    rw [← Nat.mul_assoc, ← period, Nat.add_assoc, Nat.mod_add_div]
  have hnumber : UInt64.ofNat ((stream.drawn + count) / 8) =
      UInt64.ofNat ((stream.drawn + count % period) / 8) := by
    rw [hsplit, Nat.add_mul_div_left _ _ (by decide), ← UInt64.toNat_inj, UInt64.toNat_ofNat',
      UInt64.toNat_ofNat']
    exact Nat.add_mul_mod_self_left _ _ _
  have hplace : (stream.drawn + count) % 8 = (stream.drawn + count % period) % 8 := by
    rw [hsplit, Nat.add_mul_mod_self_left]
  simp only [current, later, hnumber, hplace]
  rfl

-- A search that comes to a word that passes the test finds one.
theorem accept_search {accept : Word → Bool} {limit count : Nat} {stream : IdStream}
    (hcount : count < limit) (haccept : accept (stream.later count).current = true) :
    accept (search accept limit stream).1 = true := by
  induction limit generalizing stream count with
  | zero => exact absurd hcount (Nat.not_lt_zero count)
  | succ limit ih =>
      rw [search]
      split_ifs with hhere
      · exact hhere
      · cases count with
        | zero => exact absurd haccept hhere
        | succ count =>
            refine @ih count stream.next (Nat.lt_of_succ_lt_succ hcount) ?_
            have hlater : stream.next.later count = stream.later (count + 1) := by
              rw [Nat.add_comm]
              exact stream.later_later 1 count
            rw [hlater]
            exact haccept

theorem accept_draw {accept : Word → Bool} {stream : IdStream} {count : Nat}
    (haccept : accept (stream.later count).current = true) :
    accept (stream.draw accept).1 = true := by
  rw [← current_later_mod] at haccept
  exact accept_search (Nat.mod_lt count (by decide)) haccept

end IdStream

namespace Ledger

-- Drawing words comes to a free id.
def Finds (ledger : Ledger) : Prop :=
  ∃ count, ledger.isFree (ledger.ids.later count).current = true

theorem isFree_freshId {ledger : Ledger} (hfinds : ledger.Finds) :
    ledger.isFree ledger.freshId.1 = true := by
  obtain ⟨count, hfree⟩ := hfinds
  exact IdStream.accept_draw hfree

-- The ids of transactions and assets.
def issuedIds (ledger : Ledger) : List Word :=
  ledger.transactions.map Transaction.id ++ ledger.assets.map Asset.id

theorem isFree_iff {ledger : Ledger} {id : Word} :
    ledger.isFree id = true ↔
      id ≠ 0 ∧ id ≠ Word.top ∧ id ∉ ledger.accountIds ∧ id ∉ ledger.issuedIds := by
  simp only [isFree, isUsed, accountIds, issuedIds, Bool.and_eq_true, bne_iff_ne, Bool.not_eq_true',
    Bool.or_eq_false_iff, List.any_eq_false, beq_iff_eq, List.mem_append, List.mem_map, not_or,
    not_exists, not_and]
  tauto

-- Ids that can be told apart, from each other and from the two that mean something else.
structure Distinct (ledger : Ledger) : Prop where
  nodup : ledger.issuedIds.Nodup
  proper : ∀ id ∈ ledger.issuedIds, id ≠ 0 ∧ id ≠ Word.top

-- The lists of a ledger have grown at their ends, and the stream of ids has moved on.
structure Extends (before after : Ledger) : Prop where
  accountIds : before.accountIds <+: after.accountIds
  transactionIds :
    before.transactions.map Transaction.id <+: after.transactions.map Transaction.id
  assets : before.assets <+: after.assets
  ids : ∃ count, after.ids = before.ids.later count

namespace Extends

variable {first second third : Ledger}

theorem refl (ledger : Ledger) : Extends ledger ledger :=
  ⟨List.prefix_refl _, List.prefix_refl _, List.prefix_refl _, 0, rfl⟩

theorem trans (hleft : Extends first second) (hright : Extends second third) :
    Extends first third where
  accountIds := hleft.accountIds.trans hright.accountIds
  transactionIds := hleft.transactionIds.trans hright.transactionIds
  assets := hleft.assets.trans hright.assets
  ids := by
    obtain ⟨count, hfirst⟩ := hleft.ids
    obtain ⟨more, hsecond⟩ := hright.ids
    exact ⟨count + more, by rw [hsecond, hfirst, IdStream.later_later]⟩

-- What is free later was free before, and would have come up in time.
theorem finds (hextends : Extends first second) (hfinds : second.Finds) : first.Finds := by
  obtain ⟨count, hids⟩ := hextends.ids
  obtain ⟨more, hfree⟩ := hfinds
  rw [hids, IdStream.later_later] at hfree
  refine ⟨count + more, ?_⟩
  rw [isFree_iff] at hfree ⊢
  obtain ⟨hzero, htop, hnoAccount, hnotIssued⟩ := hfree
  have hissued : first.issuedIds ⊆ second.issuedIds := by
    refine List.append_subset.mpr ⟨?_, ?_⟩
    · exact List.Subset.trans hextends.transactionIds.subset (List.subset_append_left _ _)
    · exact List.Subset.trans (hextends.assets.map Asset.id).subset
        (List.subset_append_right _ _)
  exact ⟨hzero, htop, fun hmem => hnoAccount (hextends.accountIds.subset hmem),
    fun hmem => hnotIssued (hissued hmem)⟩

end Extends

-- A ledger has grown, and ids are still told apart as long as a free one can be found.
structure Grows (before after : Ledger) : Prop extends Extends before after where
  opened : before.accountIds.Nodup → after.accountIds.Nodup
  distinct : after.Finds → before.Distinct → after.Distinct

namespace Grows

variable {first second third : Ledger}

theorem trans (hleft : Grows first second) (hright : Grows second third) : Grows first third where
  toExtends := hleft.toExtends.trans hright.toExtends
  opened hnodup := hright.opened (hleft.opened hnodup)
  distinct hfinds hdistinct :=
    hright.distinct hfinds (hleft.distinct (hright.finds hfinds) hdistinct)

-- Nothing is recorded and nothing issued.
theorem of_accountIds (haccounts : first.accountIds <+: second.accountIds)
    (hopened : first.accountIds.Nodup → second.accountIds.Nodup)
    (htransactions :
      second.transactions.map Transaction.id = first.transactions.map Transaction.id)
    (hassets : second.assets = first.assets) (hids : second.ids = first.ids) :
    Grows first second := by
  have hissued : second.issuedIds = first.issuedIds := by
    rw [issuedIds, htransactions, hassets, issuedIds]
  refine ⟨⟨haccounts, htransactions ▸ List.prefix_refl _, hassets ▸ List.prefix_refl _, 0, hids⟩,
    hopened, ?_⟩
  intro _ hdistinct
  constructor
  · rw [hissued]
    exact hdistinct.nodup
  · rw [hissued]
    exact hdistinct.proper

-- No account is opened either.
theorem of_eq (haccounts : second.accountIds = first.accountIds)
    (htransactions :
      second.transactions.map Transaction.id = first.transactions.map Transaction.id)
    (hassets : second.assets = first.assets) (hids : second.ids = first.ids) :
    Grows first second := by
  refine of_accountIds (haccounts ▸ List.prefix_refl _) ?_ htransactions hassets hids
  rw [haccounts]
  exact fun hnodup => hnodup

theorem refl (ledger : Ledger) : Grows ledger ledger := of_eq rfl rfl rfl rfl

-- A fresh id is given out.
theorem of_freshId (haccounts : second.accounts = first.accounts)
    (hextends : Extends first second)
    (hissued : second.issuedIds.Perm (first.freshId.1 :: first.issuedIds)) :
    Grows first second := by
  have hids : second.accountIds = first.accountIds := by rw [accountIds, haccounts, accountIds]
  refine ⟨hextends, ?_, ?_⟩
  · rw [hids]
    exact fun hnodup => hnodup
  · intro hfinds hdistinct
    obtain ⟨hzero, htop, -, hnew⟩ := isFree_iff.mp (isFree_freshId (hextends.finds hfinds))
    constructor
    · rw [hissued.nodup_iff]
      exact List.nodup_cons.mpr ⟨hnew, hdistinct.nodup⟩
    · intro id hmem
      rcases List.mem_cons.mp (hissued.mem_iff.mp hmem) with rfl | hold
      · exact ⟨hzero, htop⟩
      · exact hdistinct.proper id hold

end Grows

theorem exists_ids_freshId (ledger : Ledger) :
    ∃ count, ledger.freshId.2.ids = ledger.ids.later count := by
  obtain ⟨drawn, hmore, hids⟩ := ledger.ids.exists_draw_eq ledger.isFree
  refine ⟨drawn - ledger.ids.drawn, ?_⟩
  have hdrawn : ledger.ids.drawn + (drawn - ledger.ids.drawn) = drawn := by omega
  rw [IdStream.later, hdrawn]
  exact hids

theorem Opened.grows {id : Word} {before after : Ledger} (hopened : Opened id before after) :
    Grows before after := by
  have hids := hopened.accountIds
  have htransactions : after.transactions = before.transactions := by rw [hopened.rest]
  have hassets : after.assets = before.assets := by rw [hopened.rest]
  have hstream : after.ids = before.ids := by rw [hopened.rest]
  have hrecorded := congrArg (List.map Transaction.id) htransactions
  by_cases hhas : before.hasAccount id = true
  · rw [touch_of_hasAccount before hhas] at hids
    exact Grows.of_eq hids hrecorded hassets hstream
  · have htouch : (before.touch id).accountIds = before.accountIds ++ [id] := by
      rw [touch, if_neg hhas]
      exact List.map_append
    rw [htouch] at hids
    refine Grows.of_accountIds ?_ ?_ hrecorded hassets hstream
    · rw [hids]
      exact List.prefix_append _ _
    · intro hnodup
      have hnew : id ∉ before.accountIds := fun hmem => hhas ((hasAccount_iff before id).mpr hmem)
      rw [hids, (List.perm_append_singleton id before.accountIds).nodup_iff]
      exact List.nodup_cons.mpr ⟨hnew, hnodup⟩

theorem opened_debitAsset (ledger : Ledger) (id asset quantity : Word) :
    Opened id ledger (ledger.debitAsset id asset quantity).2 :=
  (opened_touch ledger id).updateAccount id fun _ => rfl

theorem grows_record (ledger : Ledger) (tx : Transaction) : Grows ledger (ledger.record tx).2 := by
  obtain ⟨count, hids⟩ := ledger.exists_ids_freshId
  have htransactions : (ledger.record tx).2.transactions.map Transaction.id =
      ledger.transactions.map Transaction.id ++ [ledger.freshId.1] := by
    simp [record, nextTimestamp, freshId]
  refine Grows.of_freshId rfl ⟨List.prefix_refl _, ?_, List.prefix_refl _, count, hids⟩ ?_
  · rw [htransactions]
    exact List.prefix_append _ _
  · rw [issuedIds, htransactions, List.append_assoc]
    exact List.perm_middle

theorem grows_issueAsset (ledger : Ledger) (issuer name1 name2 decimals : Word) :
    Grows ledger (ledger.issueAsset issuer name1 name2 decimals).2 := by
  obtain ⟨count, hids⟩ := ledger.exists_ids_freshId
  refine Grows.of_freshId rfl
    ⟨List.prefix_refl _, List.prefix_refl _, List.prefix_append _ _, count, hids⟩ ?_
  have hassets : (ledger.issueAsset issuer name1 name2 decimals).2.issuedIds =
      ledger.issuedIds ++ [ledger.freshId.1] := by
    simp [issuedIds, issueAsset, freshId]
  rw [hassets]
  exact List.perm_append_singleton _ _

theorem grows_mintAsset (ledger : Ledger) (issuer asset quantity : Word) :
    Grows ledger ((mintAsset issuer asset quantity).run ledger).2 := by
  rcases ledger.run_mintAsset_cases issuer asset quantity with hrun | ⟨-, hrun⟩
  · rw [hrun]
    exact Grows.refl ledger
  · rw [hrun]
    exact (opened_creditAsset ledger issuer asset quantity).grows

theorem grows_setMapValue (ledger : Ledger) (contract key1 key2 value : Word) :
    Grows ledger (ledger.setMapValue contract key1 key2 value) := by
  unfold setMapValue
  split_ifs
  · exact Grows.of_eq rfl rfl rfl rfl
  · exact Grows.of_eq rfl rfl rfl rfl

theorem grows_apply (ledger : Ledger) (tx : Transaction) :
    Grows ledger ((apply tx).run ledger).2 := by
  rcases ledger.apply_cases tx with ⟨_, hrun⟩ | ⟨paid, hopened, hrun⟩
  · rw [hrun]
    exact (opened_touch ledger tx.recipient).grows
  · rw [hrun]
    exact hopened.grows.trans (grows_record paid tx)

end Ledger

end ContractSim
