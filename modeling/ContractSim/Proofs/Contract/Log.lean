import ContractSim.Proofs.Contract.Units
import Mathlib.Data.List.Induction

namespace ContractSim

namespace Holding

-- One holding for each asset, in order of first use, with the sum of its units.
def summed (holdings : List Holding) : List Holding :=
  (holdings.map Holding.asset).eraseDups.map fun asset => ⟨asset, Word.clamp (total asset holdings)⟩

theorem total_concat (asset : Word) (holdings : List Holding) (holding : Holding) :
    total asset (holdings ++ [holding]) = total asset holdings + holding.units asset := by
  simp [total]

theorem any_summed (holdings : List Holding) (asset : Word) :
    (summed holdings).any (·.asset == asset) = true ↔ asset ∈ holdings.map Holding.asset := by
  rw [summed, List.any_map, List.any_eq_true]
  simp [List.mem_eraseDups]

theorem total_of_notMem {asset : Word} {holdings : List Holding}
    (hnone : asset ∉ holdings.map Holding.asset) : total asset holdings = 0 := by
  apply List.sum_eq_zero
  intro units hmem
  obtain ⟨holding, hholding, rfl⟩ := List.mem_map.mp hmem
  refine units_of_ne ?_
  rintro rfl
  exact hnone (List.mem_map_of_mem hholding)

-- A further holding is gathered into the sums.
theorem summed_concat (holdings : List Holding) (holding : Holding) :
    summed (holdings ++ [holding]) = gathered holding.asset holding.quantity (summed holdings) := by
  have hunits : holding.units holding.asset = holding.quantity.toNat := if_pos rfl
  have hother : ∀ asset, asset ≠ holding.asset →
      total asset (holdings ++ [holding]) = total asset holdings := by
    intro asset hne
    rw [total_concat, units_of_ne hne.symm, Nat.add_zero]
  have hself : Word.clamp (total holding.asset (holdings ++ [holding])) =
      Word.saturatingAdd (Word.clamp (total holding.asset holdings)) holding.quantity := by
    rw [total_concat, hunits, Word.saturatingAdd_clamp]
  unfold gathered
  split_ifs with hany
  · have hmem := (any_summed holdings holding.asset).mp hany
    have hkeys := nodup_eraseDups (holdings.map Holding.asset)
    rw [summed, summed, updateFirst_map _ (fun _ => rfl) hkeys, List.map_append, List.map_singleton,
      eraseDups_concat, if_pos hmem]
    apply List.map_congr_left
    intro asset _
    split_ifs with hasset
    · rw [hasset, hself]
    · rw [hother asset hasset]
  · have hmem := mt (any_summed holdings holding.asset).mpr hany
    have hzero := total_of_notMem hmem
    rw [summed, summed, List.map_append, List.map_singleton, eraseDups_concat, if_neg hmem,
      List.map_append, List.map_singleton, total_concat, hzero, hunits, Nat.zero_add,
      Word.clamp_toNat]
    congr 1
    apply List.map_congr_left
    intro asset hasset
    rw [hother]
    rintro rfl
    exact hmem (List.mem_eraseDups.mp hasset)

end Holding

-- One call that queues a payment.
structure Send where
  recipient : Word
  amount : Word
  token : Option Holding
  page : Option Register
  blockheight : Word
deriving DecidableEq, Repr

namespace Send

-- A token without units counts for nothing.
def holding? (send : Send) : Option Holding := send.token.filter (0 < ·.quantity)

-- The payment that a call queues when nothing waits for its recipient.
def opening (sender : Word) (send : Send) : Transaction :=
  { sender, recipient := send.recipient, amount := send.amount, tokens := send.holding?.toList,
    message := (send.page.map Quad.toList).getD [], blockheight := send.blockheight }

-- The calls of a log with one recipient.
def sentTo (log : List Send) (recipient : Word) : List Send :=
  log.filter (·.recipient == recipient)

-- The recipients of a log in order of first use.
def recipients (log : List Send) : List Word := (log.map Send.recipient).eraseDups

-- The pages sent to a recipient.
def pagesTo (log : List Send) (recipient : Word) : List Register :=
  (sentTo log recipient).filterMap Send.page

-- What a log amounts to for one recipient. The first call gives height and kind.
def payment (sender : Word) (log : List Send) (recipient : Word) : Transaction :=
  let sent := sentTo log recipient
  let first := sent.head?.map (opening sender)
  { sender, recipient,
    amount := Word.clamp (sent.map fun send => send.amount.toNat).sum,
    tokens := Holding.summed (sent.filterMap holding?),
    message := (pagesTo log recipient).flatMap Quad.toList,
    blockheight := (first.map Transaction.blockheight).getD 0,
    kind := (first.map Transaction.kind).getD .payment }

theorem sentTo_concat_self (log : List Send) (send : Send) :
    sentTo (log ++ [send]) send.recipient = sentTo log send.recipient ++ [send] := by
  simp [sentTo]

theorem sentTo_concat_of_ne (log : List Send) {send : Send} {recipient : Word}
    (hne : recipient ≠ send.recipient) :
    sentTo (log ++ [send]) recipient = sentTo log recipient := by
  simp [sentTo, hne.symm]

theorem payment_concat_of_ne (sender : Word) (log : List Send) {send : Send} {recipient : Word}
    (hne : recipient ≠ send.recipient) :
    payment sender (log ++ [send]) recipient = payment sender log recipient := by
  rw [payment, payment, pagesTo, pagesTo, sentTo_concat_of_ne log hne]

theorem payment_concat_of_new (sender : Word) {log : List Send} {send : Send}
    (hnew : send.recipient ∉ log.map Send.recipient) :
    payment sender (log ++ [send]) send.recipient = send.opening sender := by
  have hnone : sentTo log send.recipient = [] := by
    rw [sentTo, List.filter_eq_nil_iff]
    intro other hmem hsame
    exact hnew (List.mem_map.mpr ⟨other, hmem, beq_iff_eq.mp hsame⟩)
  have htokens : Holding.summed send.holding?.toList = send.holding?.toList := by
    cases send.holding? with
    | none => rfl
    | some holding => exact Holding.summed_concat [] holding
  have hsent : sentTo (log ++ [send]) send.recipient = [send] := by
    rw [sentTo_concat_self, hnone, List.nil_append]
  have hholdings : [send].filterMap holding? = send.holding?.toList := by
    cases hholding : send.holding? <;> simp [hholding]
  have hwords : ([send].filterMap Send.page).flatMap Quad.toList =
      (send.page.map Quad.toList).getD [] := by
    cases hpage : send.page <;> simp [hpage]
  simp only [payment, pagesTo, hsent, hholdings, hwords, htokens, List.map_cons, List.map_nil,
    List.sum_cons, List.sum_nil, Nat.add_zero, Word.clamp_toNat, List.head?_cons, Option.map_some,
    Option.getD_some]
  rfl

-- A further call to a recipient is merged into what waits for it.
theorem payment_concat_of_mem (sender : Word) {log : List Send} {send : Send}
    (hmem : send.recipient ∈ log.map Send.recipient) :
    payment sender (log ++ [send]) send.recipient =
      (payment sender log send.recipient).merge send.amount send.holding? send.page := by
  obtain ⟨first, rest, hsent⟩ : ∃ first rest, sentTo log send.recipient = first :: rest := by
    obtain ⟨other, hother, hsame⟩ := List.mem_map.mp hmem
    refine List.exists_cons_of_ne_nil (List.ne_nil_of_mem (a := other) ?_)
    exact List.mem_filter.mpr ⟨hother, beq_iff_eq.mpr hsame⟩
  have hamount : Word.clamp (((sentTo log send.recipient ++ [send]).map
        fun send => send.amount.toNat).sum) =
      Word.saturatingAdd (Word.clamp ((sentTo log send.recipient).map
        fun send => send.amount.toNat).sum) send.amount := by
    rw [Word.saturatingAdd_clamp, List.map_append, List.sum_append, List.map_singleton,
      List.sum_singleton]
  have hwords : (pagesTo (log ++ [send]) send.recipient).flatMap Quad.toList =
      (pagesTo log send.recipient).flatMap Quad.toList ++
        (send.page.map Quad.toList).getD [] := by
    rw [pagesTo, sentTo_concat_self, List.filterMap_append, List.flatMap_append]
    cases hpage : send.page <;> simp [hpage, pagesTo]
  have hopening : (sentTo log send.recipient ++ [send]).head? =
      (sentTo log send.recipient).head? := by
    rw [hsent]
    rfl
  simp only [payment, hwords, sentTo_concat_self, hamount, hopening, List.filterMap_append]
  cases hholding : send.holding? with
  | none => simp [Transaction.merge, hholding]
  | some holding =>
      simp [Transaction.merge, hholding, Transaction.addToken_eq, Holding.summed_concat]

theorem drop_flatMap_toList (pages : List Register) (count : Nat) :
    (pages.flatMap Quad.toList).drop (4 * count) = (pages.drop count).flatMap Quad.toList := by
  induction count generalizing pages with
  | zero => rfl
  | succ count ih =>
      cases pages with
      | nil => simp
      | cons page rest =>
          rw [Nat.mul_succ, Nat.add_comm, ← List.drop_drop, List.drop_succ_cons, ← ih]
          rfl

-- A message made of pages is read page by page.
theorem messagePage_of_pages {tx : Transaction} {pages : List Register}
    (hmessage : tx.message = pages.flatMap Quad.toList) (place : Word) :
    tx.messagePage place = (pages[place.toNat]?).getD Register.zero := by
  rw [Transaction.messagePage, hmessage, drop_flatMap_toList]
  cases hrest : pages.drop place.toNat with
  | nil =>
      have hnone : pages[place.toNat]? = none :=
        List.getElem?_eq_none_iff.mpr (List.drop_eq_nil_iff.mp hrest)
      rw [hnone]
      rfl
  | cons page rest =>
      have hsome : pages[place.toNat]? = some page := by
        rw [← Nat.add_zero place.toNat, ← List.getElem?_drop, hrest]
        rfl
      rw [hsome]
      rfl

end Send

namespace Contract

open Send

-- Queues payments one after another.
def enqueueAll (contract : Contract) (log : List Send) : Contract :=
  log.foldl (fun contract send => contract.enqueue send.recipient send.amount send.token send.page
    send.blockheight) contract

theorem enqueueAll_concat (contract : Contract) (log : List Send) (send : Send) :
    contract.enqueueAll (log ++ [send]) = (contract.enqueueAll log).enqueue send.recipient
      send.amount send.token send.page send.blockheight :=
  List.foldl_concat _ _ _ _

theorem id_enqueueAll (contract : Contract) (log : List Send) :
    (contract.enqueueAll log).id = contract.id := by
  induction log using List.reverseRecOn with
  | nil => rfl
  | append_singleton log send ih =>
      obtain ⟨queue, hqueue⟩ := exists_enqueue_eq (contract.enqueueAll log) send.recipient
        send.amount send.token send.page send.blockheight
      rw [enqueueAll_concat, hqueue]
      exact ih

-- The queue holds what the calls so far amount to, recipient by recipient.
theorem queue_enqueueAll {contract : Contract} (hempty : contract.queue = []) (log : List Send) :
    (contract.enqueueAll log).queue = (recipients log).map (payment contract.id log) := by
  induction log using List.reverseRecOn with
  | nil => exact hempty
  | append_singleton log send ih =>
      have hwaits : (contract.enqueueAll log).queue.any (·.recipient == send.recipient) = true ↔
          send.recipient ∈ log.map Send.recipient := by
        rw [ih, List.any_map, List.any_eq_true]
        simp [recipients, payment, List.mem_eraseDups]
      rw [enqueueAll_concat, enqueue, recipients, List.map_append, List.map_singleton,
        eraseDups_concat]
      by_cases hmem : send.recipient ∈ log.map Send.recipient
      · have hkeys := nodup_eraseDups (log.map Send.recipient)
        rw [if_pos hmem, if_pos (hwaits.mpr hmem)]
        dsimp only
        rw [ih, recipients, updateFirst_map _ (fun _ => rfl) hkeys]
        apply List.map_congr_left
        intro recipient _
        split_ifs with hsame
        · rw [hsame, payment_concat_of_mem contract.id hmem]
          rfl
        · rw [payment_concat_of_ne contract.id log hsame]
      · rw [if_neg hmem, if_neg (mt hwaits.mp hmem)]
        dsimp only
        rw [ih, recipients, id_enqueueAll, List.map_append, List.map_singleton,
          payment_concat_of_new contract.id hmem]
        congr 1
        apply List.map_congr_left
        intro recipient hrecipient
        rw [payment_concat_of_ne contract.id log]
        rintro rfl
        exact hmem (List.mem_eraseDups.mp hrecipient)

end Contract

end ContractSim
