import ContractSim.Proofs.Contract.Log
import ContractSim.Proofs.Ledger.Record
import ContractSim.Proofs.Simulation.Forge
import ContractSim.Simulation.Deploy

namespace ContractSim.Simulation

open Ledger Transaction Send

section Batches

variable {property : Ledger → Prop}
  (happly : ∀ ledger tx, property ledger → property ((apply tx).run ledger).2)

include happly

-- What every transaction keeps, applied or refused, is kept by a batch.
theorem dispatchQueue_induction {ledger : Ledger} (hledger : property ledger)
    (queue : List Transaction) : property (dispatchQueue ledger queue).2.1 := by
  induction queue generalizing ledger with
  | nil => exact hledger
  | cons tx rest ih =>
      have hnext := happly ledger tx.classified hledger
      rcases hrun : (apply tx.classified).run ledger with ⟨result, next⟩
      rw [hrun] at hnext
      cases result with
      | error error =>
          simp only [dispatchQueue, hrun]
          exact hnext
      | ok id =>
          simp only [dispatchQueue, hrun]
          exact ih hnext

theorem dispatchQueues_induction {ledger : Ledger} (hledger : property ledger)
    (contracts : List Contract) : property (dispatchQueues ledger contracts).2.1 := by
  induction contracts generalizing ledger with
  | nil => exact hledger
  | cons contract rest ih =>
      have hnext := dispatchQueue_induction happly hledger contract.queue
      rcases hrun : dispatchQueue ledger contract.queue with ⟨result, next, left⟩
      rw [hrun] at hnext
      cases result with
      | error error =>
          simp only [dispatchQueues, hrun]
          exact hnext
      | ok ids =>
          simp only [dispatchQueues, hrun]
          exact ih hnext

theorem applyAll_induction {ledger : Ledger} (hledger : property ledger)
    (transactions : List Transaction) : property ((applyAll transactions).run ledger).2 := by
  induction transactions generalizing ledger with
  | nil => exact hledger
  | cons tx rest ih =>
      have hnext := happly ledger tx hledger
      rcases hrun : (apply tx).run ledger with ⟨result, next⟩
      rw [hrun] at hnext
      cases result with
      | error error =>
          rw [applyAll, Action.run_bind_of_error hrun]
          exact hnext
      | ok id =>
          have hlast := ih hnext
          rcases hall : (applyAll rest).run next with ⟨result, last⟩
          rw [hall] at hlast
          rw [applyAll, Action.run_bind_of_ok hrun]
          cases result with
          | error error =>
              rw [Action.run_bind_of_error hall]
              exact hlast
          | ok ids =>
              rw [Action.run_bind_of_ok hall]
              exact hlast

theorem applyExternal_induction {simulation : Simulation} (hledger : property simulation.ledger)
    (external : List Transaction) :
    property ((applyExternal external).run simulation).2.ledger := by
  have hall := applyAll_induction happly hledger (simulation.due external)
  rw [applyExternal, Action.run_bind_of_ok (Action.run_get simulation)]
  cases hcheck : simulation.ledger.checkCredits (credits (simulation.due external)) with
  | error error =>
      rw [due] at hcheck
      simp only [hcheck]
      exact hledger
  | ok =>
      rw [due] at hcheck hall
      simp only [hcheck]
      exact hall

end Batches

theorem recorded_dispatchQueue {ledger after : Ledger} {queue left : List Transaction}
    {ids : List Word} (hrun : dispatchQueue ledger queue = (.ok ids, after, left)) :
    Recorded ledger (queue.map classified) ids after := by
  induction queue generalizing ledger ids with
  | nil =>
      cases hrun
      exact Recorded.nil _
  | cons tx rest ih =>
      rw [dispatchQueue] at hrun
      rcases happly : (Ledger.apply tx.classified).run ledger with ⟨result, next⟩
      rw [happly] at hrun
      cases result with
      | error error => cases hrun
      | ok id =>
          rcases hrest : dispatchQueue next rest with ⟨others, final, kept⟩
          simp only [hrest] at hrun
          cases others with
          | error error => cases hrun
          | ok others =>
              cases hrun
              exact (recorded_apply happly).append (ih hrest)

theorem recorded_dispatchQueues {ledger after : Ledger} {contracts left : List Contract}
    {ids : List Word} (hrun : dispatchQueues ledger contracts = (.ok ids, after, left)) :
    Recorded ledger ((contracts.flatMap Contract.queue).map classified) ids after := by
  induction contracts generalizing ledger ids left with
  | nil =>
      cases hrun
      exact Recorded.nil _
  | cons contract rest ih =>
      rw [dispatchQueues] at hrun
      rcases hqueue : dispatchQueue ledger contract.queue with ⟨first, next, kept⟩
      rw [hqueue] at hrun
      cases first with
      | error error => cases hrun
      | ok first =>
          rcases hrest : dispatchQueues next rest with ⟨others, final, more⟩
          simp only [hrest] at hrun
          cases others with
          | error error => cases hrun
          | ok others =>
              cases hrun
              rw [List.flatMap_cons, List.map_append]
              exact (recorded_dispatchQueue hqueue).append (ih hrest)

theorem exists_dispatchQueues_of_dispatch {simulation next : Simulation} {ids : List Word}
    (hrun : dispatch.run simulation = (.ok ids, next)) :
    ∃ ledger contracts,
      dispatchQueues simulation.ledger simulation.contracts = (.ok ids, ledger, contracts) ∧
        next = { simulation with ledger, contracts } := by
  rw [dispatch, Action.run_bind_of_ok (Action.run_get simulation)] at hrun
  cases hcheck : simulation.ledger.checkCredits
      (credits (simulation.contracts.flatMap Contract.queue)) with
  | error error =>
      rw [hcheck] at hrun
      cases hrun
  | ok =>
      rw [hcheck] at hrun
      rcases hqueues : dispatchQueues simulation.ledger simulation.contracts with
        ⟨result, ledger, contracts⟩
      simp only [hqueues] at hrun
      cases hrun
      exact ⟨ledger, contracts, rfl, rfl⟩

theorem recorded_dispatch {simulation next : Simulation} {ids : List Word}
    (hrun : dispatch.run simulation = (.ok ids, next)) :
    Recorded simulation.ledger (simulation.queued.map classified) ids next.ledger := by
  obtain ⟨ledger, contracts, hqueues, rfl⟩ := exists_dispatchQueues_of_dispatch hrun
  exact recorded_dispatchQueues hqueues

-- One payment of a contract: the calls that it comes from and where it goes.
structure Destination where
  sender : Word
  log : List Send
  recipient : Word

namespace Destination

def payment (destination : Destination) : Transaction :=
  Send.payment destination.sender destination.log destination.recipient

def pages (destination : Destination) : List Register :=
  pagesTo destination.log destination.recipient

end Destination

-- The payments of a contract with a log, recipient by recipient.
def destinations (contract : Contract) (log : List Send) : List Destination :=
  (recipients log).map fun recipient => ⟨contract.id, log, recipient⟩

-- The queue of a contract is what the calls of a log have made of an empty one. Other things may
-- have happened to the contract meanwhile.
def FilledBy (contract : Contract) (log : List Send) : Prop :=
  ∃ draft : Contract, draft.id = contract.id ∧ draft.queue = [] ∧
    contract.queue = (draft.enqueueAll log).queue

theorem queue_of_filledBy {contract : Contract} {log : List Send}
    (hfilled : FilledBy contract log) :
    contract.queue = (destinations contract log).map Destination.payment := by
  obtain ⟨draft, hid, hempty, hqueue⟩ := hfilled
  rw [hqueue, Contract.queue_enqueueAll hempty, destinations, List.map_map, hid]
  rfl

-- All payments of contracts with logs, contract by contract.
def allDestinations (contracts : List Contract) (logs : List (List Send)) : List Destination :=
  (List.zipWith destinations contracts logs).flatten

theorem queued_of_filledBy {simulation : Simulation} {logs : List (List Send)}
    (hfilled : List.Forall₂ FilledBy simulation.contracts logs) :
    simulation.queued =
      (allDestinations simulation.contracts logs).map Destination.payment := by
  unfold queued allDestinations
  generalize simulation.contracts = contracts at hfilled ⊢
  induction hfilled with
  | nil => rfl
  | cons hhead _ ih =>
      rw [List.flatMap_cons, ih, queue_of_filledBy hhead, List.zipWith_cons_cons,
        List.flatten_cons, List.map_append]

-- The queue of a contract sums up its calls, and a batch that is moved puts just these payments on
-- the ledger, with their pages in the order of the calls.
theorem payments_sum_up_sends :
    (∀ (contract : Contract) (log : List Send), contract.queue = [] →
      (contract.enqueueAll log).queue = (recipients log).map (payment contract.id log)) ∧
    ∀ (simulation next : Simulation) (logs : List (List Send)) (ids : List Word),
      List.Forall₂ FilledBy simulation.contracts logs →
      dispatch.run simulation = (.ok ids, next) →
      ∃ recorded, next.ledger.transactions = simulation.ledger.transactions ++ recorded ∧
        recorded.length = (allDestinations simulation.contracts logs).length ∧
        ∀ place destination,
          (allDestinations simulation.contracts logs)[place]? = some destination →
          ∃ tx, recorded[place]? = some tx ∧ ids[place]? = some tx.id ∧
            tx = simulation.ledger.entry place destination.payment.classified tx.id ∧
            ∀ page, tx.messagePage page = (destination.pages[page.toNat]?).getD Register.zero := by
  refine ⟨fun contract log hempty => Contract.queue_enqueueAll hempty log, ?_⟩
  intro simulation next logs ids hfilled hrun
  have hrecorded := recorded_dispatch hrun
  have hlength := hrecorded.length
  rw [queued_of_filledBy hfilled, List.map_map] at hrecorded hlength
  rw [List.length_map] at hlength
  refine ⟨_, hrecorded.transactions, ?_, ?_⟩
  · rw [List.length_mapIdx, List.length_zip, List.length_map, hlength, Nat.min_self]
  · intro place destination hplace
    obtain ⟨id, hid⟩ : ∃ id, ids[place]? = some id := by
      have hlt := (List.getElem?_eq_some_iff.mp hplace).1
      exact ⟨ids[place], List.getElem?_eq_getElem (by omega)⟩
    refine ⟨simulation.ledger.entry place destination.payment.classified id, ?_, hid, rfl, ?_⟩
    · have hpair : ((List.map (classified ∘ Destination.payment)
          (allDestinations simulation.contracts logs)).zip ids)[place]? =
          some (destination.payment.classified, id) := by
        rw [List.getElem?_zip_eq_some, List.getElem?_map, hplace]
        exact ⟨rfl, hid⟩
      rw [List.getElem?_mapIdx, hpair]
      rfl
    · intro page
      exact messagePage_of_pages rfl page

-- Two calls for one recipient around a call for another one. The sum of the amounts passes the
-- largest word, and the second token has no units.
def busyLog : List Send :=
  [⟨5, 0xffffffffffffffff, some ⟨7, 3⟩, some ⟨1, 2, 3, 4⟩, 1⟩, ⟨6, 1, none, none, 1⟩,
    ⟨5, 2, some ⟨8, 0⟩, some ⟨5, 6, 7, 8⟩, 1⟩]

-- A simulation with one contract.
def idle : Simulation := ((start {} (Ledger.start 1 0)).deploy { source := "NOP" }).2

-- The contract has made these calls.
def busy : Simulation := { idle with contracts := idle.contracts.map (·.enqueueAll busyLog) }

theorem payments_sum_up_sends_busy :
    ∃ ids next recorded, dispatch.run busy = (.ok ids, next) ∧
      next.ledger.transactions = busy.ledger.transactions ++ recorded ∧ recorded.length = 2 ∧
      ∃ tx, recorded[0]? = some tx ∧ tx.sender = 999 ∧ tx.recipient = 5 ∧ tx.amount = Word.top ∧
        tx.tokens = [⟨7, 3⟩] ∧ tx.kind = .assetTransfer ∧ tx.timestamp = 0x100000001 ∧
        tx.messagePage 1 = ⟨5, 6, 7, 8⟩ ∧ tx.messagePage 2 = Register.zero := by
  have hidle : (idle.contracts.map fun contract => (contract.id, contract.queue)) =
      [(999, [])] := by
    decide +kernel
  obtain ⟨contract, hone, hfields⟩ := List.map_eq_singleton_iff.mp hidle
  obtain ⟨hid, hempty⟩ : contract.id = 999 ∧ contract.queue = [] := by
    simpa only [Prod.mk.injEq] using hfields
  have hbusy : busy.contracts = [contract.enqueueAll busyLog] := by
    rw [busy, hone, List.map_singleton]
  have hsender : (contract.enqueueAll busyLog).id = 999 :=
    (contract.id_enqueueAll busyLog).trans hid
  have hfilled : List.Forall₂ FilledBy busy.contracts [busyLog] := by
    rw [hbusy]
    exact .cons ⟨contract, (contract.id_enqueueAll busyLog).symm, hempty, rfl⟩ .nil
  have hall : allDestinations busy.contracts [busyLog] =
      [⟨999, busyLog, 5⟩, ⟨999, busyLog, 6⟩] := by
    have hrecipients : recipients busyLog = [5, 6] := by decide
    rw [hbusy, allDestinations, List.zipWith_cons_cons, List.zipWith_nil_left, destinations,
      hsender, hrecipients]
    rfl
  have hok : (dispatch.run busy).1.isOk = true := by decide +kernel
  rcases hrun : dispatch.run busy with ⟨result, next⟩
  rw [hrun] at hok
  cases result with
  | error error => cases hok
  | ok ids =>
      obtain ⟨recorded, hlist, hlength, hplaces⟩ :=
        payments_sum_up_sends.2 busy next [busyLog] ids hfilled hrun
      rw [hall] at hlength hplaces
      obtain ⟨tx, htx, -, hentry, hpages⟩ := hplaces 0 ⟨999, busyLog, 5⟩ rfl
      refine ⟨ids, next, recorded, rfl, hlist, hlength, tx, htx, ?_⟩
      let first : Destination := ⟨999, busyLog, 5⟩
      have hvalues : first.payment.amount = Word.top ∧ first.payment.tokens = [⟨7, 3⟩] ∧
          first.payment.classified.kind = .assetTransfer ∧
          (busy.ledger.entry 0 first.payment 0).timestamp = 0x100000001 ∧
          (first.pages[(1 : Word).toNat]?).getD Register.zero = ⟨5, 6, 7, 8⟩ ∧
          (first.pages[(2 : Word).toNat]?).getD Register.zero = Register.zero := by
        decide +kernel
      rw [hpages, hpages, hentry]
      exact ⟨rfl, rfl, hvalues⟩

end ContractSim.Simulation
