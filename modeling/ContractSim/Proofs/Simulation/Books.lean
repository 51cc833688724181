import ContractSim.Proofs.Machine.Atomic
import ContractSim.Proofs.Simulation.Forge
import ContractSim.Proofs.Simulation.Install
import Mathlib.Data.List.Nodup

namespace ContractSim

open Ledger Transaction

-- What a contract has to do with money.
def Contract.books (contract : Contract) : Word × List Transaction × Word :=
  (contract.id, contract.queue, contract.feesPaid)

namespace Simulation

-- All money in sight: what accounts hold, what waits in queues and what has been paid in fees.
def worth (ledger : Ledger) (contracts : List Contract) : Nat :=
  ledger.totalBalance + (contracts.map Contract.queued).sum +
    (contracts.map fun contract => contract.feesPaid.toNat).sum

-- Every contract has an account of its own, and could queue all that the account holds.
structure Sound (ledger : Ledger) (contracts : List Contract) : Prop where
  nodup : (contracts.map Contract.id).Nodup
  hasAccount : ∀ contract ∈ contracts, ledger.hasAccount contract.id = true
  fits : ∀ contract ∈ contracts,
    (ledger.balance contract.id).toNat + contract.queued < Word.modulus

section SameBooks

variable {ledger next : Ledger} {contracts others : List Contract}

theorem map_of_same_books {β : Type} (view : Word × List Transaction × Word → β)
    (hbooks : others.map Contract.books = contracts.map Contract.books) :
    (others.map fun contract => view contract.books) =
      contracts.map fun contract => view contract.books := by
  have hviews := congrArg (List.map view) hbooks
  rw [List.map_map, List.map_map] at hviews
  exact hviews

theorem exists_same_books (hbooks : others.map Contract.books = contracts.map Contract.books)
    {contract : Contract} (hmem : contract ∈ others) :
    ∃ same ∈ contracts, same.books = contract.books := by
  have hmap := List.mem_map_of_mem (f := Contract.books) hmem
  rw [hbooks, List.mem_map] at hmap
  exact hmap

-- Contracts with the same books on a ledger with the same balances are as sound as before.
theorem Sound.of_same_books (hsound : Sound ledger contracts)
    (hledger : SameBalances ledger next)
    (hbooks : others.map Contract.books = contracts.map Contract.books) :
    Sound next others := by
  constructor
  · have hids : others.map Contract.id = contracts.map Contract.id :=
      map_of_same_books Prod.fst hbooks
    rw [hids]
    exact hsound.nodup
  · intro contract hmem
    obtain ⟨same, hsame, hequal⟩ := exists_same_books hbooks hmem
    have hid : same.id = contract.id := congrArg Prod.fst hequal
    rw [← hid]
    exact hledger.hasAccount _ (hsound.hasAccount same hsame)
  · intro contract hmem
    obtain ⟨same, hsame, hequal⟩ := exists_same_books hbooks hmem
    have hid : same.id = contract.id := congrArg Prod.fst hequal
    have hqueue : same.queue = contract.queue := congrArg (fun books => books.2.1) hequal
    rw [← hid, hledger.balance, Contract.queued, ← hqueue]
    exact hsound.fits same hsame

theorem worth_of_same_books (hledger : SameBalances ledger next)
    (hbooks : others.map Contract.books = contracts.map Contract.books) :
    worth next others = worth ledger contracts := by
  have hqueued : others.map Contract.queued = contracts.map Contract.queued :=
    map_of_same_books (fun books => totalAmount books.2.1) hbooks
  have hfees : others.map (fun contract => contract.feesPaid.toNat) =
      contracts.map fun contract => contract.feesPaid.toNat :=
    map_of_same_books (fun books => books.2.2.toNat) hbooks
  rw [worth, hledger.totalBalance, hqueued, hfees, worth]

end SameBooks

section Replace

variable {ledger : Ledger} {before after : List Contract} {contract : Contract}
  {machine : Machine} {fees steps : Nat}

theorem Sound.ne_of_mem (hsound : Sound ledger (before ++ contract :: after)) {other : Contract}
    (hmem : other ∈ before ++ after) : other.id ≠ contract.id := by
  have hnodup := hsound.nodup
  rw [List.map_append, List.map_cons, List.nodup_middle, List.nodup_cons, ← List.map_append]
    at hnodup
  intro hid
  exact hnodup.1 (hid ▸ List.mem_map_of_mem hmem)

-- A contract that spends what it has does no harm to the others.
theorem Sound.replace (hsound : Sound ledger (before ++ contract :: after))
    (hspends : Machine.Spends fees steps ⟨contract, ledger⟩ machine) :
    Sound machine.ledger (before ++ machine.contract :: after) := by
  have hself := hsound.fits contract (by simp)
  have hmembers : ∀ other ∈ before ++ machine.contract :: after,
      other = machine.contract ∨ other ∈ before ++ after := by
    intro other hmem
    simp only [List.mem_append, List.mem_cons] at hmem ⊢
    tauto
  have hold : ∀ other ∈ before ++ after, other ∈ before ++ contract :: after := by
    intro other hmem
    simp only [List.mem_append, List.mem_cons] at hmem ⊢
    tauto
  constructor
  · have hids : (before ++ machine.contract :: after).map Contract.id =
        (before ++ contract :: after).map Contract.id := by
      simp only [List.map_append, List.map_cons, hspends.id]
    rw [hids]
    exact hsound.nodup
  · intro other hmem
    rcases hmembers other hmem with rfl | hother
    · rw [hspends.id]
      exact hspends.hasAccount _ (hsound.hasAccount contract (by simp))
    · exact hspends.hasAccount _ (hsound.hasAccount other (hold other hother))
  · intro other hmem
    rcases hmembers other hmem with rfl | hother
    · have hqueued := hspends.queued hself
      have hbalance : machine.balance = machine.ledger.balance machine.contract.id := rfl
      have hbefore : Machine.balance ⟨contract, ledger⟩ = ledger.balance contract.id := rfl
      rw [← hbalance]
      rw [hbefore] at hqueued
      dsimp only at hqueued
      omega
    · rw [hspends.others other.id (hsound.ne_of_mem hother)]
      exact hsound.fits other (hold other hother)

theorem worth_replace (hsound : Sound ledger (before ++ contract :: after))
    (hspends : Machine.Spends fees steps ⟨contract, ledger⟩ machine)
    (hfees : contract.feesPaid ≤ machine.contract.feesPaid) :
    worth machine.ledger (before ++ machine.contract :: after) =
      worth ledger (before ++ contract :: after) := by
  have hself := hsound.fits contract (by simp)
  have hqueued := hspends.queued hself
  have htotal := hspends.totalBalance
  have hpaid := hspends.toNat_feesPaid hfees
  simp only [worth, List.map_append, List.map_cons, List.sum_append, List.sum_cons]
  dsimp only at hqueued htotal hpaid
  omega

end Replace

-- No counter of fees falls from one list of contracts to the next. A counter that passes the
-- largest word would start again from below. New contracts may come at the end.
def FeesGrow (before after : List Contract) : Prop :=
  ∀ pair ∈ (before.map Contract.feesPaid).zip (after.map Contract.feesPaid), pair.1 ≤ pair.2

-- Contracts that run one after another, behind others that do not, move money only from their
-- accounts to queues and fees.
theorem sound_runContracts (protocol : Protocol) (table : BreakpointTable)
    (before : List Contract) {ledger : Ledger} {rest : List Contract}
    (hsound : Sound ledger (before ++ rest)) :
    Sound (runContracts protocol table ledger rest).2.1
        (before ++ (runContracts protocol table ledger rest).2.2) ∧
      (runContracts protocol table ledger rest).2.1.amounts = ledger.amounts ∧
      (FeesGrow rest (runContracts protocol table ledger rest).2.2 →
        worth (runContracts protocol table ledger rest).2.1
            (before ++ (runContracts protocol table ledger rest).2.2) =
          worth ledger (before ++ rest)) := by
  induction rest generalizing ledger before with
  | nil => exact ⟨hsound, rfl, fun _ => rfl⟩
  | cons contract rest ih =>
      simp only [runContracts]
      split_ifs
      · obtain ⟨-, hspends⟩ := Machine.spends_run ⟨contract, ledger⟩ protocol (table.of contract.id)
        have hnext := hsound.replace hspends
        rw [List.append_cons] at hnext
        obtain ⟨hrest, hamounts, hworth⟩ := ih _ hnext
        rw [List.append_cons before]
        refine ⟨hrest, hamounts.trans hspends.amounts, ?_⟩
        intro hgrow
        rw [hworth fun pair hmem => hgrow pair (List.mem_cons_of_mem _ hmem), ← List.append_cons]
        exact worth_replace hsound hspends (hgrow _ List.mem_cons_self)
      · rw [List.append_cons] at hsound
        obtain ⟨hrest, hamounts, hworth⟩ := ih _ hsound
        rw [List.append_cons before contract rest,
          List.append_cons before contract (runContracts protocol table ledger rest).2.2]
        exact ⟨hrest, hamounts,
          fun hgrow => hworth fun pair hmem => hgrow pair (List.mem_cons_of_mem _ hmem)⟩

theorem books_activateContracts (ledger : Ledger) (contracts : List Contract) :
    (activateContracts ledger contracts).2.2.map Contract.books =
      contracts.map Contract.books := by
  induction contracts generalizing ledger with
  | nil => rfl
  | cons contract rest ih =>
      simp only [activateContracts]
      split_ifs
      · exact congrArg (contract.books :: ·) (ih ledger)
      · split
        all_goals
          rename_i next _
          exact congrArg (contract.books :: ·) (ih next)

-- What waits contract by contract is what waits in all.
theorem totalAmount_flatMap_queue (contracts : List Contract) :
    totalAmount (contracts.flatMap Contract.queue) = (contracts.map Contract.queued).sum := by
  induction contracts with
  | nil => rfl
  | cons contract rest ih =>
      rw [List.flatMap_cons, totalAmount_append, ih, List.map_cons, List.sum_cons, Contract.queued]

section Cleared

variable {ledger next : Ledger} {contracts : List Contract}

-- With all queues empty a word for each balance is enough.
theorem Sound.cleared (hsound : Sound ledger contracts)
    (hhas : ∀ id, ledger.hasAccount id = true → next.hasAccount id = true) :
    Sound next (contracts.map ({ · with queue := [] })) := by
  constructor
  · rw [List.map_map]
    exact hsound.nodup
  · intro contract hmem
    obtain ⟨full, hfull, rfl⟩ := List.mem_map.mp hmem
    exact hhas _ (hsound.hasAccount full hfull)
  · intro contract hmem
    obtain ⟨full, hfull, rfl⟩ := List.mem_map.mp hmem
    exact Word.toNat_lt_modulus _

theorem worth_cleared (ledger next : Ledger) (contracts : List Contract) :
    worth next (contracts.map ({ · with queue := [] })) + ledger.totalBalance +
        totalAmount (contracts.flatMap Contract.queue) =
      worth ledger contracts + next.totalBalance := by
  have hempty : ((contracts.map fun contract => { contract with queue := [] }).map
      Contract.queued).sum = 0 := by
    rw [List.map_map, List.sum_eq_zero_iff]
    intro amount hmem
    obtain ⟨contract, -, rfl⟩ := List.mem_map.mp hmem
    rfl
  have hfees : ((contracts.map fun contract => { contract with queue := [] }).map
      fun contract => contract.feesPaid.toNat) =
      contracts.map fun contract => contract.feesPaid.toNat := by
    rw [List.map_map]
    rfl
  rw [worth, hempty, hfees, worth, totalAmount_flatMap_queue]
  omega

end Cleared

theorem total_map_amount (transactions : List Transaction) :
    Word.total (transactions.map Transaction.amount) = totalAmount transactions := by
  rw [Word.total_eq_sum, List.map_map]
  rfl

-- What may be done to a simulation that is sound: it stays sound, records are only added, and money
-- comes only from new contracts and from outside.
structure Keeps (before : Simulation) (funds records : List Word) (after : Simulation) : Prop where
  sound : Sound after.ledger after.contracts
  amounts : ∃ dispatched, after.ledger.amounts = before.ledger.amounts ++ dispatched ++ records
  worth : FeesGrow before.contracts after.contracts →
    worth after.ledger after.contracts =
      worth before.ledger before.contracts + Word.total funds + Word.total records

theorem Keeps.refl {simulation : Simulation}
    (hsound : Sound simulation.ledger simulation.contracts) :
    Keeps simulation [] [] simulation :=
  ⟨hsound, ⟨[], by simp⟩, fun _ => rfl⟩

-- The amounts of the transactions from outside that a block records. They come last on the ledger,
-- and the report tells how many they are.
def recorded (simulation : Simulation) (external : List Transaction) (table : BreakpointTable) :
    List Word :=
  match simulation.forge external table with
  | (.ok report, next) =>
      next.ledger.amounts.drop (next.ledger.amounts.length - report.applied.length)
  | (.error _, _) => []

-- The records that a report tells of are those at the end of the ledger.
theorem recorded_eq {simulation next : Simulation} {external : List Transaction}
    {table : BreakpointTable} {report : ForgeReport} {earlier applied : List Word}
    (hforge : simulation.forge external table = (.ok report, next))
    (hamounts : next.ledger.amounts = earlier ++ applied)
    (hlength : report.applied.length = applied.length) :
    simulation.recorded external table = applied := by
  rw [recorded, hforge]
  dsimp only
  rw [hamounts, hlength, List.length_append, Nat.add_sub_cancel, List.drop_left]

-- What waits only changes its place when it is moved; what comes from outside is new.
theorem worth_settled {simulation : Simulation} {external : List Transaction}
    {dispatched applied : List Word} {paid settled : Ledger}
    (hpaid : Posted simulation.ledger (simulation.queued.map classified) dispatched paid)
    (hsettled : Posted paid external applied settled) :
    worth settled.advance (simulation.contracts.map ({ · with queue := [] })) =
      worth simulation.ledger simulation.contracts +
        Word.total (external.map Transaction.amount) := by
  have hworth := worth_cleared simulation.ledger settled.advance simulation.contracts
  have htotal : settled.advance.totalBalance = simulation.ledger.totalBalance +
      totalAmount (simulation.contracts.flatMap Contract.queue) + totalAmount external := by
    rw [← totalAmount_map_classified (simulation.contracts.flatMap Contract.queue)]
    exact hsettled.totalBalance.trans (congrArg (· + _) hpaid.totalBalance)
  rw [total_map_amount]
  omega

-- A block brings in exactly what it records from outside.
theorem keeps_forge {simulation : Simulation} (external : List Transaction)
    (table : BreakpointTable) (hsound : Sound simulation.ledger simulation.contracts) :
    Keeps simulation [] (simulation.recorded external table)
      (simulation.forge external table).2 := by
  rcases forge_cases simulation external table with
    ⟨-, error, hforge⟩ | ⟨-, report, paid, settled, hforge, hpaid, hsettled, -⟩
  · have hnone : simulation.recorded external table = [] := by
      rw [recorded, hforge]
    rw [hnone, hforge]
    exact Keeps.refl hsound
  · let ran := simulation.ran table
    let cleared := ran.contracts.map fun contract => { contract with queue := [] }
    obtain ⟨hran, hranAmounts, hranWorth⟩ :
        Sound ran.ledger ran.contracts ∧ ran.ledger.amounts = simulation.ledger.amounts ∧
        (FeesGrow simulation.contracts ran.contracts →
          worth ran.ledger ran.contracts = worth simulation.ledger simulation.contracts) :=
      sound_runContracts simulation.protocol table [] hsound
    have hactivate := sameBalances_activateContracts settled.advance cleared
    have hbooks := books_activateContracts settled.advance cleared
    have hcleared : Sound settled.advance cleared :=
      hran.cleared fun id hhas => hsettled.hasAccount id (hpaid.hasAccount id hhas)
    have hamounts : (activateContracts settled.advance cleared).2.1.amounts =
        simulation.ledger.amounts ++ (ran.queued.map classified).map Transaction.amount ++
          (ran.due external).map Transaction.amount := by
      rw [← hranAmounts, ← hpaid.amounts_eq.1]
      exact hactivate.amounts.trans hsettled.amounts_eq.1
    have hlength : report.applied.length = ((ran.due external).map Transaction.amount).length :=
      hsettled.amounts_eq.2.trans (List.length_map _).symm
    rw [recorded_eq hforge hamounts hlength, hforge]
    refine ⟨hcleared.of_same_books hactivate hbooks, ⟨_, hamounts⟩, ?_⟩
    intro hgrow
    -- Only the runs touch the counters of fees.
    have hfees : (activateContracts settled.advance cleared).2.2.map Contract.feesPaid =
        ran.contracts.map Contract.feesPaid :=
      (map_of_same_books (fun books => books.2.2) hbooks).trans List.map_map
    have hgrowRan : FeesGrow simulation.contracts ran.contracts := by
      rw [FeesGrow, ← hfees]
      exact hgrow
    calc worth (activateContracts settled.advance cleared).2.1
          (activateContracts settled.advance cleared).2.2
        = worth settled.advance cleared := worth_of_same_books hactivate hbooks
      _ = worth ran.ledger ran.contracts +
          Word.total ((ran.due external).map Transaction.amount) := worth_settled hpaid hsettled
      _ = worth simulation.ledger simulation.contracts +
          Word.total ((ran.due external).map Transaction.amount) := by rw [hranWorth hgrowRan]

theorem FeesGrow.of_append_cons {before after : List Contract} {old new : Contract}
    (hgrow : FeesGrow (before ++ old :: after) (before ++ new :: after)) :
    old.feesPaid ≤ new.feesPaid := by
  have hmem : (old.feesPaid, new.feesPaid) ∈
      ((before ++ old :: after).map Contract.feesPaid).zip
        ((before ++ new :: after).map Contract.feesPaid) := by
    rw [List.map_append, List.map_append, List.zip_append rfl]
    exact List.mem_append_right _ List.mem_cons_self
  exact hgrow _ hmem

-- A contract that is worked on alone brings in nothing.
theorem keeps_install {simulation : Simulation} {id : Word} {target : Contract}
    {machine : Machine} {fees steps : Nat}
    (hsound : Sound simulation.ledger simulation.contracts)
    (hfound : simulation.contract? id = some target)
    (hspends : Machine.Spends fees steps (simulation.machine target) machine) :
    Keeps simulation [] [] (simulation.install id machine) := by
  obtain ⟨before, after, hsplit, hbefore, htest⟩ := exists_split_of_find? hfound
  have hinstall : (simulation.install id machine).contracts =
      before ++ machine.contract :: after := by
    have hupdate := updateFirst_append_cons (fun contract : Contract => contract.id == id)
      (fun _ => machine.contract) before after target hbefore htest
    rw [← hsplit] at hupdate
    exact hupdate
  rw [hsplit] at hsound
  refine ⟨?_, ⟨[], ?_⟩, ?_⟩
  · rw [hinstall]
    exact hsound.replace hspends
  · rw [List.append_nil, List.append_nil]
    exact hspends.amounts
  · rw [hinstall, hsplit]
    exact fun hgrow => worth_replace hsound hspends hgrow.of_append_cons

-- A function that is called from outside answers, free of charge, and no other contract notices.
theorem exists_callFunction_eq {simulation : Simulation} {id : Word} {target : Contract}
    (hsound : Sound simulation.ledger simulation.contracts)
    (hfound : simulation.contract? id = some target) (function : ApiFunction)
    (first second : Word) :
    ∃ answer next called,
      simulation.callFunction id function first second = .ok (.ok answer, next) ∧
      Keeps simulation [] [] next ∧ next.contract? id = some called ∧
      called.feesPaid = target.feesPaid ∧ called.steps = target.steps ∧
      ∀ other, id ≠ other → next.contract? other = simulation.contract? other := by
  obtain ⟨answer, machine, hcall⟩ :=
    Machine.answers_call simulation.protocol function first second (simulation.machine target)
  have hspends := Machine.spends_callEffect
    ((simulation.machine target).callEffect_call simulation.protocol function first second)
  rw [hcall] at hspends
  have hid : machine.contract.id = id := hspends.id.trans (id_of_contract? hfound)
  refine ⟨answer, simulation.install id machine, machine.contract, ?_,
    keeps_install hsound hfound hspends, contract?_install hfound hid, ?_, hspends.steps, ?_⟩
  · simp only [callFunction, onMachine, hfound, hcall]
  · rw [hspends.feesPaid]
    exact UInt64.add_zero _
  · exact fun other hne => simulation.contract?_install_of_ne hid hne

end Simulation

end ContractSim
