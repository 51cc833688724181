import ContractSim.Proofs.Ledger.Activation
import ContractSim.Proofs.Simulation.Lifecycle

namespace ContractSim

-- A contract that rests without sleeping, and a transaction that is enough to wake it up.
structure Contract.Awaits (contract : Contract) (tx : Transaction) : Prop where
  recipient : tx.recipient = contract.id
  dead : contract.dead = false
  running : contract.running = false
  sleepUntil : contract.sleepUntil = none
  activationAmount : contract.activationAmount ≠ 0
  amount : contract.activationAmount ≤ tx.amount

namespace Simulation

open Ledger Transaction

-- Decides whether a contract wakes up. Dead and running ones do not.
def stirs (ledger : Ledger) (contract : Contract) : Bool × Ledger :=
  if contract.dead || contract.running then (false, ledger) else wakes ledger contract

-- All that can happen to a contract when its turn to wake up comes. Only a contract that neither
-- sleeps nor wakes for free has a transaction spent on it.
inductive Stirring (ledger : Ledger) (contract : Contract) : Bool × Ledger → Prop
  | passes (hskip : contract.dead = true ∨ contract.running = true) :
      Stirring ledger contract (false, ledger)
  | sleeps {untilBlock : Word} (hdead : contract.dead = false)
      (hrunning : contract.running = false) (hsleep : contract.sleepUntil = some untilBlock)
      (woken : Bool) : Stirring ledger contract (woken, ledger)
  | rises (hdead : contract.dead = false) (hrunning : contract.running = false)
      (hsleep : contract.sleepUntil = none) (hfree : contract.activationAmount = 0) :
      Stirring ledger contract (true, ledger)
  | waits (hdead : contract.dead = false) (hrunning : contract.running = false)
      (hsleep : contract.sleepUntil = none) (hcost : contract.activationAmount ≠ 0)
      (hnone : ∀ tx ∈ ledger.transactions,
        awakens contract.id contract.activationAmount tx = false) :
      Stirring ledger contract (false, ledger)
  | spends {next : Ledger} {before after : List Transaction} {tx : Transaction}
      (hawaits : contract.Awaits tx) (hprocessed : tx.processed = false)
      (hsplit : ledger.transactions = before ++ tx :: after)
      (hnext : next = { ledger with transactions := before ++ tx.spent :: after }) :
      Stirring ledger contract (true, next)

-- Neither a sleeper nor a contract that wakes for free uses up a transaction.
theorem wakes_of_free {contract : Contract}
    (hfree : contract.sleepUntil ≠ none ∨ contract.activationAmount = 0) (ledger : Ledger) :
    (wakes ledger contract).2 = ledger := by
  unfold wakes
  cases hsleep : contract.sleepUntil with
  | some untilBlock => rfl
  | none =>
      rcases hfree with hne | hzero
      · exact absurd hsleep hne
      · simp only [hzero, ite_true]

theorem stirs_cases (ledger : Ledger) (contract : Contract) :
    Stirring ledger contract (stirs ledger contract) := by
  unfold stirs
  split_ifs with hskip
  · exact .passes (Bool.or_eq_true_iff.mp hskip)
  · rw [Bool.or_eq_true, not_or, Bool.not_eq_true, Bool.not_eq_true] at hskip
    obtain ⟨hdead, hrunning⟩ := hskip
    cases hsleep : contract.sleepUntil with
    | some untilBlock =>
        simp only [wakes, hsleep]
        exact .sleeps hdead hrunning hsleep _
    | none =>
        by_cases hfree : contract.activationAmount = 0
        · simp only [wakes, hsleep, hfree, ite_true]
          exact .rises hdead hrunning hsleep hfree
        · rcases ledger.consumeActivation_cases contract.id contract.activationAmount with
            ⟨hnone, hconsume⟩ | ⟨id, before, tx, after, hsplit, hawakens, hconsume⟩
          · simp only [wakes, hsleep, hfree, ite_false, hconsume]
            exact .waits hdead hrunning hsleep hfree hnone
          · simp only [wakes, hsleep, hfree, ite_false, hconsume]
            obtain ⟨hrecipient, hprocessed, hamount⟩ := awakens_iff.mp hawakens
            exact .spends ⟨hrecipient, hdead, hrunning, hsleep, hfree, hamount⟩ hprocessed hsplit
              rfl

section Cons

variable {ledger next : Ledger} {contract : Contract} (rest : List Contract)

theorem activateContracts_of_woken (hstirs : stirs ledger contract = (true, next)) :
    activateContracts ledger (contract :: rest) =
      (contract.id :: (activateContracts next rest).1, (activateContracts next rest).2.1,
        contract.reactivate :: (activateContracts next rest).2.2) := by
  unfold stirs at hstirs
  split_ifs at hstirs with hskip
  · cases hstirs
  · simp only [activateContracts, hskip, hstirs]
    rfl

theorem activateContracts_of_passed (hstirs : stirs ledger contract = (false, next)) :
    activateContracts ledger (contract :: rest) =
      ((activateContracts next rest).1, (activateContracts next rest).2.1,
        contract :: (activateContracts next rest).2.2) := by
  unfold stirs at hstirs
  split_ifs at hstirs with hskip
  · cases hstirs
    simp only [activateContracts, hskip, ite_true]
  · simp only [activateContracts, hskip, hstirs]
    rfl

end Cons

-- A transaction stays as it is, or it is spent on a contract that awaited it and runs now.
def Rouses (contracts others : List Contract) (before after : Transaction) : Prop :=
  after = before ∨
    (before.processed = false ∧ after = before.spent ∧
      ∃ contract ∈ contracts, contract.Awaits before ∧ contract.reactivate ∈ others)

theorem Rouses.ages {contracts others : List Contract} {before after : Transaction}
    (hrouses : Rouses contracts others before after) : Ages before after := by
  rcases hrouses with rfl | ⟨hprocessed, rfl, -⟩
  · exact .inl rfl
  · exact .inr ⟨hprocessed, rfl⟩

theorem Rouses.cons {contracts others : List Contract} {before after : Transaction}
    (hrouses : Rouses contracts others before after) (contract other : Contract) :
    Rouses (contract :: contracts) (other :: others) before after := by
  rcases hrouses with rfl | ⟨hprocessed, rfl, found, hmem, hawaits, hwoken⟩
  · exact .inl rfl
  · exact .inr ⟨hprocessed, rfl, found, List.mem_cons_of_mem _ hmem, hawaits,
      List.mem_cons_of_mem _ hwoken⟩

-- What has been spent is not spent again.
theorem Rouses.trans {contracts others : List Contract} {first second third : Transaction}
    (hleft : Rouses contracts others first second)
    (hright : Rouses contracts others second third) : Rouses contracts others first third := by
  rcases hleft with rfl | ⟨hprocessed, rfl, hcontract⟩
  · exact hright
  · rcases hright with rfl | ⟨hspent, -⟩
    · exact .inr ⟨hprocessed, rfl, hcontract⟩
    · cases hspent

-- Each transaction that is spent wakes one contract.
theorem rouses_activateContracts (ledger : Ledger) (contracts : List Contract) :
    List.Forall₂ (Rouses contracts (activateContracts ledger contracts).2.2) ledger.transactions
      (activateContracts ledger contracts).2.1.transactions := by
  induction contracts generalizing ledger with
  | nil => exact List.forall₂_same.mpr fun _ _ => .inl rfl
  | cons contract rest ih =>
      have hcases := stirs_cases ledger contract
      rcases hstirs : stirs ledger contract with ⟨woken, next⟩
      rw [hstirs] at hcases
      cases woken with
      | false =>
          rw [activateContracts_of_passed rest hstirs]
          have hsame : next = ledger := by
            cases hcases with
            | passes | sleeps | waits => rfl
          rw [hsame]
          exact (ih ledger).imp fun _ _ hrouses => hrouses.cons contract contract
      | true =>
          rw [activateContracts_of_woken rest hstirs]
          have hrest := (ih next).imp fun _ _ hrouses =>
            hrouses.cons contract contract.reactivate
          cases hcases with
          | sleeps | rises => exact hrest
          | @spends _ before after tx hawaits hprocessed hsplit hnext =>
              have hself : Rouses (contract :: rest)
                  (contract.reactivate :: (activateContracts next rest).2.2) tx tx.spent :=
                .inr ⟨hprocessed, rfl, contract, List.mem_cons_self, hawaits, List.mem_cons_self⟩
              have hfirst : List.Forall₂ (Rouses (contract :: rest)
                  (contract.reactivate :: (activateContracts next rest).2.2))
                  ledger.transactions next.transactions := by
                have htransactions : next.transactions = before ++ tx.spent :: after := by
                  rw [hnext]
                rw [hsplit, htransactions]
                exact List.rel_append (List.forall₂_same.mpr fun _ _ => .inl rfl)
                  (.cons hself (List.forall₂_same.mpr fun _ _ => .inl rfl))
              exact forall₂_comp (fun _ _ _ hleft hright => hleft.trans hright) hfirst hrest

-- A contract that is left resting without sleeping asks for an amount that nobody has brought.
theorem awakens_activateContracts (ledger : Ledger) (contracts : List Contract) :
    ∀ contract ∈ (activateContracts ledger contracts).2.2,
      contract.dead = false → contract.running = false → contract.sleepUntil = none →
      contract.activationAmount ≠ 0 ∧
        ∀ tx ∈ (activateContracts ledger contracts).2.1.transactions,
          awakens contract.id contract.activationAmount tx = false := by
  induction contracts generalizing ledger with
  | nil => exact fun _ hmem => absurd hmem List.not_mem_nil
  | cons contract rest ih =>
      have hcases := stirs_cases ledger contract
      rcases hstirs : stirs ledger contract with ⟨woken, next⟩
      rw [hstirs] at hcases
      intro other hmem hdead hrunning hsleep
      cases woken with
      | true =>
          rw [activateContracts_of_woken rest hstirs] at hmem ⊢
          rcases List.mem_cons.mp hmem with rfl | hrest
          · cases hrunning
          · exact ih next other hrest hdead hrunning hsleep
      | false =>
          rw [activateContracts_of_passed rest hstirs] at hmem ⊢
          rcases List.mem_cons.mp hmem with rfl | hrest
          · cases hcases with
            | passes hskip =>
                rw [hdead, hrunning] at hskip
                exact absurd hskip (by decide)
            | sleeps _ _ hasleep =>
                rw [hsleep] at hasleep
                cases hasleep
            | waits _ _ _ hcost hnone =>
                -- Contracts behind this one may spend more, which makes no difference to it.
                refine ⟨hcost, ?_⟩
                exact forall_mem_of_forall₂ (rouses_activateContracts ledger rest)
                  (fun _ _ hrouses => awakens_of_ages hrouses.ages) hnone
          · exact ih next other hrest hdead hrunning hsleep

theorem sublist_activateContracts (ledger : Ledger) (contracts : List Contract) :
    (activateContracts ledger contracts).1.Sublist (contracts.map Contract.id) := by
  induction contracts generalizing ledger with
  | nil => exact List.Sublist.refl _
  | cons contract rest ih =>
      rcases hstirs : stirs ledger contract with ⟨woken, next⟩
      cases woken with
      | true =>
          rw [activateContracts_of_woken rest hstirs]
          exact (ih next).cons_cons _
      | false =>
          rw [activateContracts_of_passed rest hstirs]
          exact (ih next).cons _

-- A contract that wakes up neither from a sleep nor for free has one more transaction spent on it.
-- Nobody else has.
theorem spentOn_stirs (ledger : Ledger) (contract : Contract) (id : Word) :
    (stirs ledger contract).2.spentOn id =
      ledger.spentOn id +
        if (stirs ledger contract).1 = true ∧ contract.sleepUntil = none ∧
          contract.activationAmount ≠ 0 ∧ contract.id = id then 1 else 0 := by
  have hcases := stirs_cases ledger contract
  generalize stirs ledger contract = result at hcases ⊢
  cases hcases with
  | passes | waits =>
      rw [if_neg fun hwakes => Bool.false_ne_true hwakes.1, Nat.add_zero]
  | sleeps _ _ hsleep =>
      rw [if_neg fun hwakes => Option.some_ne_none _ (hsleep.symm.trans hwakes.2.1), Nat.add_zero]
  | rises _ _ _ hfree =>
      rw [if_neg fun hwakes => hwakes.2.2.1 hfree, Nat.add_zero]
  | spends hawaits hprocessed hsplit hnext =>
      rw [hnext, spentOn_spent hsplit hprocessed, hawaits.recipient]
      simp only [hawaits.sleepUntil, hawaits.activationAmount, ne_eq, not_false_eq_true, true_and]

theorem ledger_activateContracts_cons (ledger : Ledger) (contract : Contract)
    (rest : List Contract) :
    (activateContracts ledger (contract :: rest)).2.1 =
      (activateContracts (stirs ledger contract).2 rest).2.1 := by
  rcases hstirs : stirs ledger contract with ⟨woken, next⟩
  cases woken with
  | true => rw [activateContracts_of_woken rest hstirs]
  | false => rw [activateContracts_of_passed rest hstirs]

-- Waking up touches nothing on the ledger but transactions.
theorem exists_activateContracts_eq (ledger : Ledger) (contracts : List Contract) :
    ∃ transactions, (activateContracts ledger contracts).2.1 = { ledger with transactions } := by
  induction contracts generalizing ledger with
  | nil => exact ⟨ledger.transactions, rfl⟩
  | cons contract rest ih =>
      have hstirs : ∃ transactions, (stirs ledger contract).2 = { ledger with transactions } := by
        have hcases := stirs_cases ledger contract
        generalize stirs ledger contract = result at hcases ⊢
        cases hcases with
        | passes | sleeps | rises | waits => exact ⟨ledger.transactions, rfl⟩
        | spends _ _ _ hnext => exact ⟨_, hnext⟩
      obtain ⟨spent, hspent⟩ := hstirs
      obtain ⟨transactions, hrest⟩ := ih (stirs ledger contract).2
      refine ⟨transactions, ?_⟩
      rw [ledger_activateContracts_cons, hrest, hspent]

theorem mem_activateContracts_cons (ledger : Ledger) (contract : Contract) (rest : List Contract)
    (id : Word) :
    id ∈ (activateContracts ledger (contract :: rest)).1 ↔
      ((stirs ledger contract).1 = true ∧ id = contract.id) ∨
        id ∈ (activateContracts (stirs ledger contract).2 rest).1 := by
  rcases hstirs : stirs ledger contract with ⟨woken, next⟩
  cases woken with
  | true => simp only [activateContracts_of_woken rest hstirs, List.mem_cons, true_and]
  | false =>
      simp only [activateContracts_of_passed rest hstirs, Bool.false_eq_true, false_and, false_or]

theorem spentOn_activateContracts_of_not_mem {contracts : List Contract} {id : Word}
    (habsent : id ∉ contracts.map Contract.id) (ledger : Ledger) :
    (activateContracts ledger contracts).2.1.spentOn id = ledger.spentOn id := by
  induction contracts generalizing ledger with
  | nil => rfl
  | cons contract rest ih =>
      rw [List.map_cons, List.mem_cons, not_or] at habsent
      rw [ledger_activateContracts_cons, ih habsent.2, spentOn_stirs,
        if_neg fun hwakes => habsent.1 hwakes.2.2.2.symm, Nat.add_zero]

-- No contract comes twice, so each has its turn to spend a transaction once.
theorem spentOn_activateContracts {contracts : List Contract}
    (hnodup : (contracts.map Contract.id).Nodup) (ledger : Ledger) :
    ∀ contract ∈ contracts,
      (activateContracts ledger contracts).2.1.spentOn contract.id =
        ledger.spentOn contract.id +
          if contract.id ∈ (activateContracts ledger contracts).1 ∧
            contract.sleepUntil = none ∧ contract.activationAmount ≠ 0 then 1 else 0 := by
  induction contracts generalizing ledger with
  | nil => exact fun _ hmem => absurd hmem List.not_mem_nil
  | cons first rest ih =>
      rw [List.map_cons, List.nodup_cons] at hnodup
      obtain ⟨hfirst, hrest⟩ := hnodup
      intro contract hmem
      rw [ledger_activateContracts_cons]
      rcases List.mem_cons.mp hmem with rfl | hmem
      · have habsent : contract.id ∉ (activateContracts (stirs ledger contract).2 rest).1 :=
          fun hwoken => hfirst ((sublist_activateContracts _ rest).subset hwoken)
        rw [spentOn_activateContracts_of_not_mem hfirst, spentOn_stirs]
        simp only [mem_activateContracts_cons, habsent, or_false, and_true]
      · have hne : contract.id ≠ first.id :=
          fun hid => hfirst (hid ▸ List.mem_map_of_mem hmem)
        rw [ih hrest _ contract hmem, spentOn_stirs,
          if_neg fun hwakes => hne hwakes.2.2.2.symm, Nat.add_zero]
        simp only [mem_activateContracts_cons, hne, and_false, false_or]

-- The first contract with an id is the only one.
theorem contract?_of_mem {simulation : Simulation} {contract : Contract}
    (hnodup : (simulation.contracts.map Contract.id).Nodup)
    (hmem : contract ∈ simulation.contracts) :
    simulation.contract? contract.id = some contract :=
  find?_key_eq_some hnodup hmem

theorem map_terms_of_forall₂ {contracts others : List Contract}
    (hterms : List.Forall₂ (fun before after => after.terms = before.terms) contracts others) :
    others.map Contract.terms = contracts.map Contract.terms := by
  rw [← List.forall₂_eq_eq_eq, List.forall₂_map_left_iff, List.forall₂_map_right_iff]
  exact hterms.flip

theorem map_terms_ran (simulation : Simulation) (table : BreakpointTable) :
    (simulation.ran table).contracts.map Contract.terms =
      simulation.contracts.map Contract.terms := by
  have hturns := turns_runContracts simulation.protocol table simulation.ledger
    simulation.contracts
  exact map_terms_of_forall₂ (hturns.imp fun _ _ hturns => hturns.terms)

theorem map_id_terms (contracts : List Contract) :
    (contracts.map Contract.terms).map Terms.id = contracts.map Contract.id := by
  rw [List.map_map]
  rfl

-- Running changes nobody's id.
theorem map_id_ran (simulation : Simulation) (table : BreakpointTable) :
    (simulation.ran table).contracts.map Contract.id = simulation.contracts.map Contract.id := by
  rw [← map_id_terms, map_terms_ran, map_id_terms]

theorem exists_mem_ran {simulation : Simulation} (table : BreakpointTable) {contract : Contract}
    (hmem : contract ∈ simulation.contracts) :
    ∃ found ∈ (simulation.ran table).contracts, found.terms = contract.terms := by
  rw [← List.mem_map, map_terms_ran]
  exact List.mem_map_of_mem hmem

theorem transactions_runContracts (protocol : Protocol) (table : BreakpointTable)
    (ledger : Ledger) (contracts : List Contract) :
    (runContracts protocol table ledger contracts).2.1.transactions = ledger.transactions := by
  induction contracts generalizing ledger with
  | nil => rfl
  | cons contract rest ih =>
      simp only [runContracts]
      split_ifs
      · have hworks := Machine.works_slice ⟨contract, ledger⟩ protocol (table.of contract.id)
          fun _ => true
        exact (ih _).trans hworks.transactions
      · exact ih ledger

theorem transactions_deploy (simulation : Simulation) (deployment : Deployment) :
    (simulation.deploy deployment).2.ledger.transactions = simulation.ledger.transactions := by
  unfold deploy
  cases Contract.load deployment simulation.protocol simulation.ledger.height with
  | error error => rfl
  | ok contract =>
      have hcredit := transactions_credit simulation.ledger (freeId simulation.ledger contract.id)
        (deployment.initialBalance.getD simulation.protocol.defaultDeployBalance)
      dsimp only
      split
      all_goals
        rename_i hrun
        rw [hrun] at hcredit
        exact hcredit

-- What is recorded of transactions that have woken nobody has woken nobody.
theorem exists_unspent_of_posted {before after : Ledger} {transactions : List Transaction}
    {ids : List Word} (hposted : Posted before transactions ids after)
    (hunspent : ∀ tx ∈ transactions, tx.processed = false) :
    ∃ recorded, after.transactions = before.transactions ++ recorded ∧
      ∀ tx ∈ recorded, tx.processed = false := by
  obtain ⟨recorded, hlist, -, hrecorded⟩ := hposted.recorded
  refine ⟨recorded, hlist, forall_mem_of_forall₂ hrecorded ?_ hunspent⟩
  intro tx record hrecord hprocessed
  rw [hrecord]
  exact hprocessed

-- The contracts have run, all payments are on the ledger, and it is time to wake up.
structure Settles (before : Simulation) (table : BreakpointTable) (settled : Simulation) :
    Prop where
  contracts : settled.contracts = (before.ran table).contracts.map ({ · with queue := [] })
  transactions : ∃ recorded,
    settled.ledger.transactions = before.ledger.transactions ++ recorded ∧
      ∀ tx ∈ recorded, tx.processed = false

theorem Settles.map_id {before settled : Simulation} {table : BreakpointTable}
    (hsettles : Settles before table settled) :
    settled.contracts.map Contract.id = before.contracts.map Contract.id := by
  rw [hsettles.contracts, List.map_map]
  exact map_id_ran before table

theorem exists_settles_forge {simulation : Simulation} {external : List Transaction}
    {table : BreakpointTable} {report : ForgeReport}
    (hunspent : ∀ contract ∈ simulation.contracts, contract.Unspent)
    (hexternal : ∀ tx ∈ external, tx.processed = false)
    (hok : (simulation.forge external table).1 = .ok report) :
    ∃ settled, Settles simulation table settled ∧ report.activated = settled.activate.1 ∧
      (simulation.forge external table).2 = settled.activate.2 := by
  rcases forge_cases simulation external table with
    ⟨-, error, hforge⟩ | ⟨-, _, paid, settled, hforge, hpaid, hsettled, -, hactivated⟩
  · rw [hforge] at hok
    cases hok
  · rw [hforge] at hok ⊢
    cases hok
    refine ⟨((simulation.ran table).cleared settled).advanceHeight, ⟨rfl, ?_⟩, hactivated, rfl⟩
    have hqueued : ∀ tx ∈ (simulation.ran table).queued.map classified, tx.processed = false := by
      rw [List.forall_mem_map]
      intro tx hmem
      obtain ⟨contract, hcontract, hqueue⟩ := List.mem_flatMap.mp hmem
      exact forall_mem_of_forall₂ (turns_runContracts _ table simulation.ledger _)
        (fun _ _ hturns => hturns.unspent) hunspent contract hcontract tx hqueue
    have hdue : ∀ tx ∈ (simulation.ran table).due external, tx.processed = false :=
      fun tx hmem => hexternal tx (List.mem_filter.mp hmem).1
    obtain ⟨first, hfirst, hfirstUnspent⟩ := exists_unspent_of_posted hpaid hqueued
    obtain ⟨second, hsecond, hsecondUnspent⟩ := exists_unspent_of_posted hsettled hdue
    have hran : (simulation.ran table).ledger.transactions = simulation.ledger.transactions :=
      transactions_runContracts _ table simulation.ledger _
    refine ⟨first ++ second, ?_, List.forall_mem_append.mpr ⟨hfirstUnspent, hsecondUnspent⟩⟩
    rw [← hran, ← List.append_assoc, ← hfirst]
    exact hsecond

end Simulation

end ContractSim
