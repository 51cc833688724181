import ContractSim.Proofs.Session.Lifecycle
import ContractSim.Proofs.Simulation.Activation

namespace ContractSim.Session

open Simulation Ledger Transaction

-- The ids of the contracts that a command wakes up other than from a sleep.
def roused (session : Session) : SessionCommand → List Word
  | .forge =>
      match session.forge.1 with
      | .ok report =>
          report.activated.filter fun id =>
            ((session.simulation.ran session.debugger.table).contract? id).any
              (·.sleepUntil.isNone)
      | .error _ => []
  | _ => []

-- No payment that waits has woken anyone.
def Unspent (session : Session) : Prop :=
  ∀ contract ∈ session.simulation.contracts, contract.Unspent

theorem unspent_perform {session : Session} (hunspent : session.Unspent)
    (command : SessionCommand) : (session.perform command).Unspent := by
  obtain ⟨kept, new, hcontracts, hnew, hkept⟩ := session.contracts_perform command
  intro contract hmem
  rw [hcontracts] at hmem
  have hempty : contract.queue = [] → contract.Unspent := by
    intro hqueue tx hwaits
    rw [hqueue] at hwaits
    cases hwaits
  rcases List.mem_append.mp hmem with hold | hmem
  · rcases hkept with hturns | ⟨-, hlives⟩
    · exact forall_mem_of_forall₂ hturns (fun _ _ hturns => hturns.unspent) hunspent contract hold
    · have hqueues := forall_mem_of_forall₂ hlives
        (fun _ _ hlives _ => hlives.queue_eq) hunspent
      exact hempty (hqueues contract hold)
  · exact hempty (hnew contract hmem).queue

theorem forge_of_ok {session : Session} {report : ForgeReport}
    (hok : session.forge.1 = .ok report) :
    (session.simulation.forge session.due session.debugger.table).1 = .ok report := by
  rw [forge] at hok
  cases hforge : (session.simulation.forge session.due session.debugger.table).1 with
  | error error =>
      simp only [hforge, Except.mapError] at hok
      cases hok
  | ok other =>
      simp only [hforge, Except.mapError] at hok
      cases hok
      rfl

-- A block that is forged wakes contracts up when everything else is done.
theorem exists_settles {session : Session} (hunspent : session.Unspent) {report : ForgeReport}
    (hok : session.forge.1 = .ok report) :
    ∃ settled, Settles session.simulation session.debugger.table settled ∧
      report.activated = settled.activate.1 ∧
      session.forge.2.simulation = settled.activate.2 := by
  have hdue : ∀ tx ∈ session.due, tx.processed = false := by
    unfold due
    rw [List.forall_mem_map]
    exact fun _ _ => rfl
  exact exists_settles_forge hunspent hdue (forge_of_ok hok)

theorem forge_of_error {session : Session} {error : SessionError}
    (herror : session.forge.1 = .error error) : session.forge.2 = session := by
  rcases forge_cases session.simulation session.due session.debugger.table with
    ⟨-, _, hforge⟩ | ⟨-, _, _, _, hforge, -⟩
  · rw [forge, hforge]
  · rw [forge, hforge] at herror
    cases herror

theorem transactions_debug {session : Session} {id : Word} (command : DebugCommand)
    {act : Debugger → Simulation → Word → Except DebugError (DebugStatus × Simulation)}
    (hact : act session.debugger session.simulation id = command.perform session.simulation id) :
    (session.debug id act).2.simulation.ledger.transactions =
      session.simulation.ledger.transactions := by
  cases hfound : session.simulation.contract? id with
  | none =>
      obtain ⟨error, hperform⟩ := DebugCommand.perform_eq_error hfound command
      rw [debug, hact, hperform]
  | some target =>
      rw [debug, hact, DebugCommand.perform_eq_ok hfound]
      exact (Machine.works_slice (session.simulation.machine target) _ _ _).transactions

-- Nothing but a block touches the transactions.
theorem transactions_perform {session : Session} {command : SessionCommand}
    (hcommand : command ≠ .forge) :
    (session.perform command).simulation.ledger.transactions =
      session.simulation.ledger.transactions := by
  cases command with
  | deploy deployment => exact session.simulation.transactions_deploy deployment
  | loadScenario text => rw [perform, simulation_loadScenario]
  | toggleBreakpoint contract line => rw [perform, simulation_toggleBreakpoint]
  | addTransaction | clearBreakpoints => rfl
  | run contract => exact transactions_debug (.run session.debugger) rfl
  | stepInto contract => exact transactions_debug (.stepInto session.debugger) rfl
  | stepOver contract => exact transactions_debug (.stepOver session.debugger) rfl
  | stepOut contract => exact transactions_debug (.stepOut session.debugger) rfl
  | forge => exact absurd rfl hcommand

-- Transactions keep their places on the ledger.
theorem ages_perform {session : Session} (hunspent : session.Unspent) (command : SessionCommand)
    {index : Nat} {tx : Transaction}
    (htx : session.simulation.ledger.transactions[index]? = some tx) :
    ∃ later, (session.perform command).simulation.ledger.transactions[index]? = some later ∧
      Ages tx later := by
  by_cases hcommand : command = .forge
  · subst hcommand
    rw [perform]
    cases hforge : session.forge.1 with
    | error error =>
        rw [forge_of_error hforge]
        exact ⟨tx, htx, .inl rfl⟩
    | ok report =>
        obtain ⟨settled, hsettles, -, hnext⟩ := exists_settles hunspent hforge
        obtain ⟨recorded, htransactions, -⟩ := hsettles.transactions
        have hsettled : settled.ledger.transactions[index]? = some tx := by
          rw [htransactions, List.getElem?_append_left (List.getElem?_eq_some_iff.mp htx).1]
          exact htx
        obtain ⟨later, hlater, hrouses⟩ := exists_getElem?_of_forall₂
          (rouses_activateContracts settled.ledger settled.contracts) hsettled
        rw [hnext]
        exact ⟨later, hlater, hrouses.ages⟩
  · rw [transactions_perform hcommand]
    exact ⟨tx, htx, .inl rfl⟩

theorem ages_after {session : Session} (hunspent : session.Unspent)
    (commands : List SessionCommand) {index : Nat} {tx : Transaction}
    (htx : session.simulation.ledger.transactions[index]? = some tx) :
    ∃ later, (after commands session).simulation.ledger.transactions[index]? = some later ∧
      Ages tx later := by
  induction commands generalizing session tx with
  | nil => exact ⟨tx, htx, .inl rfl⟩
  | cons command rest ih =>
      obtain ⟨next, hnext, hfirst⟩ := ages_perform hunspent command htx
      obtain ⟨later, hlater, hrest⟩ := ih (unspent_perform hunspent command) hnext
      exact ⟨later, hlater, hfirst.trans hrest⟩

-- Contracts keep their terms, and new ones come last and run.
theorem terms_perform (session : Session) (command : SessionCommand) :
    ∃ kept new, (session.perform command).simulation.contracts = kept ++ new ∧
      (∀ contract ∈ new, contract.Stands .running) ∧
      List.Forall₂ (fun before after => after.terms = before.terms)
        session.simulation.contracts kept := by
  obtain ⟨kept, new, hcontracts, hnew, hkept⟩ := session.contracts_perform command
  refine ⟨kept, new, hcontracts, fun contract hmem => (hnew contract hmem).runs.stands, ?_⟩
  rcases hkept with hturns | ⟨-, hlives⟩
  · exact hturns.imp fun _ _ hturns => hturns.terms
  · exact hlives.imp fun _ _ hlives => hlives.terms

theorem exists_terms_perform (session : Session) (command : SessionCommand) :
    ∃ new, (session.perform command).simulation.contracts.map Contract.terms =
      session.simulation.contracts.map Contract.terms ++ new := by
  obtain ⟨kept, new, hcontracts, -, hkept⟩ := session.terms_perform command
  refine ⟨new.map Contract.terms, ?_⟩
  rw [hcontracts, List.map_append, map_terms_of_forall₂ hkept]

theorem mem_ids_perform {session : Session} (command : SessionCommand) {id : Word}
    (hmem : id ∈ session.simulation.contracts.map Contract.id) :
    id ∈ (session.perform command).simulation.contracts.map Contract.id := by
  obtain ⟨new, hterms⟩ := session.exists_terms_perform command
  rw [← map_id_terms] at hmem ⊢
  rw [hterms, List.map_append]
  exact List.mem_append_left _ hmem

-- A contract is an old one, or nobody has had its id before.
theorem old_or_new {session : Session} {command : SessionCommand}
    (hnodup : ((session.perform command).simulation.contracts.map Contract.id).Nodup)
    {contract : Contract} (hmem : contract ∈ (session.perform command).simulation.contracts) :
    (∃ old ∈ session.simulation.contracts, old.terms = contract.terms) ∨
      contract.id ∉ session.simulation.contracts.map Contract.id := by
  obtain ⟨new, hterms⟩ := session.exists_terms_perform command
  have hmap := List.mem_map_of_mem (f := Contract.terms) hmem
  rw [hterms, List.mem_append, List.mem_map] at hmap
  rcases hmap with hold | hnew
  · exact .inl hold
  · right
    intro hold
    rw [← map_id_terms, hterms, List.map_append] at hnodup
    rw [← map_id_terms] at hold
    exact List.disjoint_of_nodup_append hnodup hold (List.mem_map_of_mem (f := Terms.id) hnew)

-- The books on what has been spent: transactions are spent on contracts, and as many on each one
-- as it has been roused, unless it wakes up for free.
structure Tallied (session : Session) (woken : List Word) : Prop where
  sound : Sound session.simulation.ledger session.simulation.contracts
  unspent : session.Unspent
  recipients : ∀ tx ∈ session.simulation.ledger.transactions, tx.processed = true →
    tx.recipient ∈ session.simulation.contracts.map Contract.id
  listed : ∀ id ∈ woken, id ∈ session.simulation.contracts.map Contract.id
  spentOn : ∀ contract ∈ session.simulation.contracts,
    session.simulation.ledger.spentOn contract.id =
      if contract.activationAmount = 0 then 0 else woken.count contract.id

-- A command that is right about the contracts that it finds is right about new ones too, on which
-- nothing can have been spent.
theorem Tallied.perform {session : Session} {woken more : List Word}
    (htallied : Tallied session woken) {command : SessionCommand}
    (hreturns : session.Returns command)
    (hrecipients : ∀ tx ∈ (session.perform command).simulation.ledger.transactions,
      tx.processed = true → tx.recipient ∈ session.simulation.contracts.map Contract.id)
    (hlisted : ∀ id ∈ more, id ∈ session.simulation.contracts.map Contract.id)
    (hspentOn : ∀ contract ∈ session.simulation.contracts,
      (session.perform command).simulation.ledger.spentOn contract.id =
        session.simulation.ledger.spentOn contract.id +
          if contract.activationAmount = 0 then 0 else more.count contract.id) :
    Tallied (session.perform command) (woken ++ more) := by
  have hsound := (keeps_perform command hreturns htallied.sound).sound
  have hall : ∀ id ∈ woken ++ more, id ∈ session.simulation.contracts.map Contract.id :=
    List.forall_mem_append.mpr ⟨htallied.listed, hlisted⟩
  constructor
  · exact hsound
  · exact unspent_perform htallied.unspent command
  · exact fun tx hmem hprocessed => mem_ids_perform command (hrecipients tx hmem hprocessed)
  · exact fun id hmem => mem_ids_perform command (hall id hmem)
  · intro contract hmem
    rcases old_or_new hsound.nodup hmem with ⟨old, hold, hsame⟩ | hnobody
    · have hid : old.id = contract.id := congrArg Terms.id hsame
      have hamount : old.activationAmount = contract.activationAmount :=
        congrArg Terms.activationAmount hsame
      rw [← hid, ← hamount, hspentOn old hold, htallied.spentOn old hold, List.count_append]
      split_ifs
      · rfl
      · rfl
    · have hzero : (session.perform command).simulation.ledger.spentOn contract.id = 0 := by
        refine spentOn_eq_zero ?_
        intro tx htx hprocessed hrecipient
        rw [← hrecipient] at hnobody
        exact hnobody (hrecipients tx htx hprocessed)
      rw [hzero, List.count_eq_zero_of_not_mem fun hwoken => hnobody (hall _ hwoken), ite_self]

theorem Tallied.idle {session : Session} {woken : List Word} (htallied : Tallied session woken)
    {command : SessionCommand} (hreturns : session.Returns command)
    (htransactions : (session.perform command).simulation.ledger.transactions =
      session.simulation.ledger.transactions) :
    Tallied (session.perform command) (woken ++ []) := by
  refine htallied.perform hreturns ?_ (fun _ hmem => absurd hmem List.not_mem_nil) ?_
  · rw [htransactions]
    exact htallied.recipients
  · intro contract _
    rw [List.count_nil, ite_self, Nat.add_zero, Ledger.spentOn, transactionsTo, htransactions]
    rfl

section Settled

variable {session : Session} {settled : Simulation}

-- Counts what waking up spends, contract by contract.
theorem spentOn_settled
    (hnodup : (session.simulation.contracts.map Contract.id).Nodup)
    (hsettles : Settles session.simulation session.debugger.table settled)
    {contract : Contract} (hmem : contract ∈ session.simulation.contracts) :
    settled.activate.2.ledger.spentOn contract.id =
      session.simulation.ledger.spentOn contract.id +
        if contract.activationAmount = 0 then 0
        else (settled.activate.1.filter fun id =>
          ((session.simulation.ran session.debugger.table).contract? id).any
            (·.sleepUntil.isNone)).count contract.id := by
  let ran := session.simulation.ran session.debugger.table
  have hranNodup : (ran.contracts.map Contract.id).Nodup := by
    rw [map_id_ran]
    exact hnodup
  have hsettledNodup : (settled.contracts.map Contract.id).Nodup := by
    rw [hsettles.map_id]
    exact hnodup
  obtain ⟨found, hfound, hsame⟩ := exists_mem_ran session.debugger.table hmem
  have hid : found.id = contract.id := congrArg Terms.id hsame
  have hamount : found.activationAmount = contract.activationAmount :=
    congrArg Terms.activationAmount hsame
  have hplace : { found with queue := [] } ∈ settled.contracts := by
    rw [hsettles.contracts]
    exact List.mem_map_of_mem hfound
  have hspent : settled.activate.2.ledger.spentOn found.id =
      settled.ledger.spentOn found.id +
        if found.id ∈ settled.activate.1 ∧ found.sleepUntil = none ∧ found.activationAmount ≠ 0
        then 1 else 0 :=
    spentOn_activateContracts hsettledNodup settled.ledger { found with queue := [] } hplace
  have hlisted : found.id ∈ (settled.activate.1.filter fun id =>
      (ran.contract? id).any (·.sleepUntil.isNone)) ↔
        found.id ∈ settled.activate.1 ∧ found.sleepUntil = none := by
    rw [List.mem_filter, contract?_of_mem hranNodup hfound, Option.any_some,
      Option.isNone_iff_eq_none]
  have hwoken : settled.activate.1.Nodup :=
    hsettledNodup.sublist (sublist_activateContracts settled.ledger settled.contracts)
  obtain ⟨recorded, htransactions, hrecorded⟩ := hsettles.transactions
  rw [← hid, ← hamount, hspent, spentOn_append htransactions hrecorded, (hwoken.filter _).count]
  by_cases hfree : found.activationAmount = 0
  · rw [if_pos hfree, if_neg fun hwakes => hwakes.2.2 hfree]
  · rw [if_neg hfree]
    simp only [hfree, ne_eq, not_false_eq_true, and_true]
    exact congrArg _ (if_congr hlisted.symm rfl rfl)

-- Whatever has been spent by now was spent before, or is spent on a contract that is here.
theorem recipients_settled
    (hrecipients : ∀ tx ∈ session.simulation.ledger.transactions, tx.processed = true →
      tx.recipient ∈ session.simulation.contracts.map Contract.id)
    (hsettles : Settles session.simulation session.debugger.table settled) :
    ∀ tx ∈ settled.activate.2.ledger.transactions, tx.processed = true →
      tx.recipient ∈ session.simulation.contracts.map Contract.id := by
  obtain ⟨recorded, htransactions, hrecorded⟩ := hsettles.transactions
  have hbefore : ∀ tx ∈ settled.ledger.transactions, tx.processed = true →
      tx.recipient ∈ session.simulation.contracts.map Contract.id := by
    rw [htransactions, List.forall_mem_append]
    refine ⟨hrecipients, ?_⟩
    intro tx hmem hprocessed
    rw [hrecorded tx hmem] at hprocessed
    cases hprocessed
  refine forall_mem_of_forall₂ (rouses_activateContracts settled.ledger settled.contracts) ?_
    hbefore
  intro before after hrouses hprocessed
  rcases hrouses with rfl | ⟨-, rfl, contract, hmem, hawaits, -⟩
  · exact hprocessed
  · intro _
    have hid : contract.id ∈ settled.contracts.map Contract.id := List.mem_map_of_mem hmem
    rw [hsettles.map_id, ← hawaits.recipient] at hid
    exact hid

end Settled

theorem tallied_perform {session : Session} {woken : List Word}
    (htallied : Tallied session woken) {command : SessionCommand}
    (hreturns : session.Returns command) :
    Tallied (session.perform command) (woken ++ session.roused command) := by
  by_cases hcommand : command = .forge
  · subst hcommand
    cases hforge : session.forge.1 with
    | error error =>
        simp only [roused, hforge]
        exact htallied.idle hreturns (by rw [perform, forge_of_error hforge])
    | ok report =>
        obtain ⟨settled, hsettles, hactivated, hnext⟩ := exists_settles htallied.unspent hforge
        simp only [roused, hforge, hactivated]
        refine htallied.perform hreturns ?_ ?_ ?_
        · rw [perform, hnext]
          exact recipients_settled htallied.recipients hsettles
        · intro id hmem
          have hwoken := (sublist_activateContracts settled.ledger settled.contracts).subset
            (List.mem_filter.mp hmem).1
          rw [hsettles.map_id] at hwoken
          exact hwoken
        · intro contract hmem
          rw [perform, hnext]
          exact spentOn_settled htallied.sound.nodup hsettles hmem
  · have hnone : session.roused command = [] := by
      cases command with
      | forge => exact absurd rfl hcommand
      | _ => rfl
    rw [hnone]
    exact htallied.idle hreturns (transactions_perform hcommand)

-- The invariant of a run of commands.
theorem tallied_after {session : Session} {woken : List Word} (htallied : Tallied session woken)
    {commands : List SessionCommand} (hreturns : Along Returns commands session) :
    Tallied (after commands session) (woken ++ collect roused commands session) := by
  induction commands generalizing session woken with
  | nil =>
      rw [collect, List.append_nil]
      exact htallied
  | cons command rest ih =>
      rw [collect, ← List.append_assoc]
      exact ih (tallied_perform htallied hreturns.1) hreturns.2

theorem tallied_start (settings : Settings) : Tallied (start settings) [] where
  sound := ⟨List.nodup_nil, fun _ hmem => absurd hmem List.not_mem_nil,
    fun _ hmem => absurd hmem List.not_mem_nil⟩
  unspent _ hmem := absurd hmem List.not_mem_nil
  recipients _ hmem := absurd hmem List.not_mem_nil
  listed _ hmem := absurd hmem List.not_mem_nil
  spentOn _ hmem := absurd hmem List.not_mem_nil

-- One step at a time a session can be computed.
theorem perform_stepInto (session : Session) (id : Word) :
    session.perform (.stepInto id) =
      { session with simulation := session.simulation.stepped id } := by
  rw [perform, stepInto, debug]
  cases hfound : session.simulation.contract? id with
  | none =>
      simp only [Debugger.stepInto, Debugger.find, stepped, stepContract, onMachine, hfound]
      rfl
  | some target =>
      let machine := session.simulation.machine target
      let breakpoints := session.debugger.breakpoints target.id
      have hloop : Machine.Loop session.simulation.protocol breakpoints (fun _ => false) 1 machine
          (machine.step session.simulation.protocol breakpoints).1
          (machine.step session.simulation.protocol breakpoints).2 := .last rfl fun _ => rfl
      have hslice : machine.slice session.simulation.protocol breakpoints (fun _ => false) =
          machine.step session.simulation.protocol breakpoints := by
        rw [Machine.slice, hloop.stepWhile_eq]
        rfl
      have hsteps : session.debugger.stepInto session.simulation id =
          .ok (session.debugger.stepWhile session.simulation target fun _ => false) :=
        DebugCommand.perform_eq_ok hfound (.stepInto session.debugger)
      have hnext : (session.debugger.stepWhile session.simulation target fun _ => false).2 =
          session.simulation.install id (machine.step session.simulation.protocol []).2 := by
        rw [machine.step_snd session.simulation.protocol breakpoints, ← hslice,
          ← id_of_contract? hfound]
        rfl
      rw [hsteps, stepped_eq_install hfound]
      exact congrArg (fun simulation => { session with simulation }) hnext

-- How contracts wake up in a session as it stands, with the ids that have been roused so far.
structure WakeUps (session : Session) (woken : List Word) : Prop where
  -- After a block nobody waits for a payment that is there.
  missed : ∀ report, session.forge.1 = .ok report →
    ∀ contract ∈ session.forge.2.simulation.contracts,
      contract.dead = false → contract.running = false → contract.sleepUntil = none →
      contract.activationAmount ≠ 0 ∧
        ∀ tx ∈ session.forge.2.simulation.ledger.transactionsTo contract.id,
          tx.processed = false → tx.amount < contract.activationAmount
  -- Whatever is done next, a transaction stays in its place, and all that can happen to it is that
  -- it is spent.
  ages : ∀ (commands : List SessionCommand) (index : Nat) (tx : Transaction),
    session.simulation.ledger.transactions[index]? = some tx →
    ∃ later, (after commands session).simulation.ledger.transactions[index]? = some later ∧
      (later = tx ∨ (tx.processed = false ∧ later = { tx with processed := true }))
  -- Only a block that succeeds touches the transactions.
  idle : ∀ command, (command = .forge → ∃ error, session.forge.1 = .error error) →
    (session.perform command).simulation.ledger.transactions =
      session.simulation.ledger.transactions
  -- It spends them when it wakes contracts up and everything else is done: each on its recipient,
  -- which no other contract is, which awaited it, and which runs now.
  spends : ∀ report, session.forge.1 = .ok report →
    ∃ settled, Settles session.simulation session.debugger.table settled ∧
      report.activated = settled.activate.1 ∧
      session.forge.2.simulation = settled.activate.2 ∧
      List.Forall₂
        (fun tx later => later = tx ∨
          (tx.processed = false ∧ later = { tx with processed := true } ∧
            ∃ contract ∈ settled.contracts, contract.Awaits tx ∧
              contract.reactivate ∈ session.forge.2.simulation.contracts ∧
              ∀ other ∈ settled.contracts, other.id = tx.recipient → other = contract))
        settled.ledger.transactions session.forge.2.simulation.ledger.transactions
  -- Each time that a contract is roused costs one transaction.
  count : ∀ contract ∈ session.simulation.contracts, contract.activationAmount ≠ 0 →
    ((session.simulation.ledger.transactionsTo contract.id).filter
      Transaction.processed).length = woken.count contract.id
  -- Nothing is spent on contracts that wake up for free or from a sleep.
  free : ∀ contract ∈ session.simulation.contracts, contract.activationAmount = 0 →
    ∀ tx ∈ session.simulation.ledger.transactionsTo contract.id, tx.processed = false
  wakes : ∀ (ledger : Ledger) (contract : Contract),
    contract.sleepUntil ≠ none ∨ contract.activationAmount = 0 →
    (Simulation.wakes ledger contract).2 = ledger

-- Whatever is done to a session, no wake-up is lost, and no transaction pays for two.
theorem wake_ups_are_paid_once (settings : Settings) (commands : List SessionCommand)
    (hreturns : Along Returns commands (start settings)) :
    WakeUps (reached settings commands) (collect roused commands (start settings)) := by
  have htallied : Tallied (reached settings commands) (collect roused commands (start settings)) :=
    tallied_after (tallied_start settings) hreturns
  generalize reached settings commands = session at htallied
  generalize collect roused commands (start settings) = woken at htallied
  constructor
  · intro report hok contract hmem hdead hrunning hsleep
    obtain ⟨settled, -, -, hnext⟩ := exists_settles htallied.unspent hok
    rw [hnext] at hmem ⊢
    obtain ⟨hcost, hnone⟩ := awakens_activateContracts settled.ledger settled.contracts contract
      hmem hdead hrunning hsleep
    refine ⟨hcost, ?_⟩
    intro tx htx hprocessed
    obtain ⟨hledger, hrecipient⟩ := List.mem_filter.mp htx
    have hawakens := hnone tx hledger
    rw [Bool.eq_false_iff, ne_eq, awakens_iff] at hawakens
    rw [← UInt64.not_le]
    exact fun hamount => hawakens ⟨beq_iff_eq.mp hrecipient, hprocessed, hamount⟩
  · intro more index tx htx
    exact ages_after htallied.unspent more htx
  · intro command hidle
    by_cases hcommand : command = .forge
    · obtain ⟨error, herror⟩ := hidle hcommand
      rw [hcommand, perform, forge_of_error herror]
    · exact transactions_perform hcommand
  · intro report hok
    obtain ⟨settled, hsettles, hactivated, hnext⟩ := exists_settles htallied.unspent hok
    refine ⟨settled, hsettles, hactivated, hnext, ?_⟩
    have hnodup : (settled.contracts.map Contract.id).Nodup := by
      rw [hsettles.map_id]
      exact htallied.sound.nodup
    rw [hnext]
    refine (rouses_activateContracts settled.ledger settled.contracts).imp ?_
    intro tx later hrouses
    rcases hrouses with hsame | ⟨hprocessed, hspent, contract, hmem, hawaits, hwoken⟩
    · exact .inl hsame
    · refine .inr ⟨hprocessed, hspent, contract, hmem, hawaits, hwoken, ?_⟩
      intro other hother hid
      exact List.inj_on_of_nodup_map hnodup hother hmem (hid.trans hawaits.recipient)
  · intro contract hmem hcost
    have hspent := htallied.spentOn contract hmem
    rw [if_neg hcost] at hspent
    rw [← List.countP_eq_length_filter]
    exact hspent
  · intro contract hmem hfree tx htx
    have hspent := htallied.spentOn contract hmem
    rw [if_pos hfree, Ledger.spentOn, List.countP_eq_zero] at hspent
    exact Bool.eq_false_iff.mpr (hspent tx htx)
  · intro ledger contract hfree
    exact wakes_of_free hfree ledger

-- A contract that has stopped is paid, and runs again.
def knock : List SessionCommand :=
  [.deploy { source := "STP", activationAmount := some 5 }, .stepInto 999,
    .addTransaction ⟨1, 999, 7, 1, [], []⟩, .forge]

theorem wake_ups_are_paid_once_knock :
    Along Returns knock (start {}) ∧ collect roused knock (start {}) = [999] ∧
      ((reached {} knock).simulation.contracts.map fun contract =>
        (contract.id, contract.running, contract.activationAmount)) = [(999, true, 5)] ∧
      (((reached {} knock).simulation.ledger.transactionsTo 999).filter
        Transaction.processed).length = 1 := by
  have hreturns : Along Returns knock (start {}) :=
    ⟨⟨0, by decide +kernel⟩, trivial, trivial, trivial, trivial⟩
  have hroused : collect roused knock (start {}) = [999] := by
    simp only [knock, collect, perform_stepInto]
    decide +kernel
  have hcontracts : ((reached {} knock).simulation.contracts.map fun contract =>
      (contract.id, contract.running, contract.activationAmount)) = [(999, true, 5)] := by
    simp only [reached, knock, after, perform_stepInto]
    decide +kernel
  have hcount := (wake_ups_are_paid_once {} knock hreturns).count
  refine ⟨hreturns, hroused, hcontracts, ?_⟩
  obtain ⟨contract, hsingle, hfields⟩ := List.map_eq_singleton_iff.mp hcontracts
  obtain ⟨hid, -, hcost⟩ : contract.id = 999 ∧ contract.running = true ∧
      contract.activationAmount = 5 := by
    simpa only [Prod.mk.injEq] using hfields
  rw [hsingle, hroused] at hcount
  have hspent := hcount contract List.mem_cons_self (by rw [hcost]; decide)
  rw [hid] at hspent
  exact hspent

end ContractSim.Session
