import ContractSim.Proofs.Session.Activation
import ContractSim.Proofs.Session.Move
import ContractSim.Proofs.Simulation.History

namespace ContractSim.Session

open Ledger Simulation Transaction

-- A command that forges a block.
def forges (session : Session) : SessionCommand → Bool
  | .forge => session.forge.1.isOk
  | _ => false

theorem height_debug {session : Session} {id : Word} (command : DebugCommand)
    {act : Debugger → Simulation → Word → Except DebugError (DebugStatus × Simulation)}
    (hact : act session.debugger session.simulation id = command.perform session.simulation id) :
    (session.debug id act).2.height = session.height := by
  cases hfound : session.simulation.contract? id with
  | none =>
      obtain ⟨error, hperform⟩ := DebugCommand.perform_eq_error hfound command
      rw [debug, hact, hperform]
  | some target =>
      rw [debug, hact, DebugCommand.perform_eq_ok hfound]
      obtain ⟨fees, steps, -, hspends⟩ := Machine.spends_slice (session.simulation.machine target)
        session.simulation.protocol (command.debugger.breakpoints target.id)
        fun machine => command.goOn target machine.contract.codeStack.depth
      exact hspends.height

-- Only a block that is forged takes the height on.
theorem height_perform (session : Session) (command : SessionCommand) :
    (session.perform command).height =
      if session.forges command then session.height + 1 else session.height := by
  cases command with
  | deploy deployment => exact height_deploy session.simulation deployment
  | loadScenario text =>
      rw [perform, height, simulation_loadScenario]
      rfl
  | toggleBreakpoint contract line =>
      rw [perform, height, simulation_toggleBreakpoint]
      rfl
  | addTransaction | clearBreakpoints => rfl
  | run contract => exact height_debug (.run session.debugger) rfl
  | stepInto contract => exact height_debug (.stepInto session.debugger) rfl
  | stepOver contract => exact height_debug (.stepOver session.debugger) rfl
  | stepOut contract => exact height_debug (.stepOut session.debugger) rfl
  | forge =>
      rw [forges, perform]
      cases hforge : session.forge.1 with
      | error error =>
          rw [forge_of_error hforge]
          rfl
      | ok report => exact height_forge (forge_of_ok hforge)

-- Transactions are recorded by blocks that are forged, and by nothing else.
theorem continues_perform (session : Session) (command : SessionCommand) :
    ∃ kept new,
      (session.perform command).simulation.ledger.transactions = kept ++ new ∧
      List.Forall₂ Ages session.simulation.ledger.transactions kept ∧
      ∀ tx ∈ new, session.forges command = true ∧ tx.blockheight = session.height ∧
        tx.classified = tx := by
  by_cases hforges : session.forges command = true
  · cases command with
    | forge =>
        have hdue : ∀ tx ∈ session.due, tx.classified = tx := by
          unfold due
          rw [List.forall_mem_map]
          exact fun _ _ => rfl
        obtain ⟨kept, new, hlist, hkept, hnew⟩ :=
          continues_forge hdue session.debugger.table
        exact ⟨kept, new, hlist, hkept, fun tx hmem => ⟨hforges, hnew tx hmem⟩⟩
    | _ => cases hforges
  · have hsame : (session.perform command).simulation.ledger.transactions =
        session.simulation.ledger.transactions := by
      by_cases hcommand : command = .forge
      · subst hcommand
        cases hforge : session.forge.1 with
        | error error => rw [perform, forge_of_error hforge]
        | ok report =>
            rw [forges, hforge] at hforges
            exact absurd rfl hforges
      · exact transactions_perform hcommand
    refine ⟨session.simulation.ledger.transactions, [], ?_, ?_, List.forall_mem_nil _⟩
    · rw [hsame, List.append_nil]
    · exact List.forall₂_same.mpr fun _ _ => .inl rfl

theorem reached_concat (settings : Settings) (commands : List SessionCommand)
    (command : SessionCommand) :
    reached settings (commands ++ [command]) = (reached settings commands).perform command :=
  after_append commands [command] (start settings)

theorem reached_append_cons (settings : Settings) (earlier later : List SessionCommand)
    (command : SessionCommand) :
    reached settings (earlier ++ command :: later) =
      after later (reached settings (earlier ++ [command])) := by
  rw [reached, reached, List.append_cons, after_append]

theorem nodup_accountIds_reached (settings : Settings) (commands : List SessionCommand) :
    (reached settings commands).simulation.ledger.accountIds.Nodup :=
  (grows_moves (moves_after commands (start settings))).opened List.nodup_nil

-- A transaction has got its place on the ledger from a block that was forged at its height.
def RecordedBy (settings : Settings) (commands : List SessionCommand) (index : Nat)
    (tx : Transaction) : Prop :=
  ∃ earlier later, commands = earlier ++ .forge :: later ∧
    (reached settings earlier).forges .forge = true ∧
    (reached settings earlier).simulation.ledger.transactions.length ≤ index ∧
    index < (reached settings (earlier ++ [.forge])).simulation.ledger.transactions.length ∧
    tx.blockheight = (reached settings earlier).height

theorem recordedBy_reached (settings : Settings) (commands : List SessionCommand) {index : Nat}
    {tx : Transaction}
    (htx : (reached settings commands).simulation.ledger.transactions[index]? = some tx) :
    tx.classified = tx ∧ RecordedBy settings commands index tx := by
  induction commands using List.reverseRecOn generalizing tx with
  | nil => cases htx
  | append_singleton commands command ih =>
      have hlength := (List.getElem?_eq_some_iff.mp htx).1
      obtain ⟨kept, new, hlist, hkept, hnew⟩ :=
        (reached settings commands).continues_perform command
      rw [← reached_concat] at hlist
      rw [hlist] at htx
      by_cases hold : index < kept.length
      · rw [List.getElem?_append_left hold] at htx
        obtain ⟨young, hyoung, hages⟩ := exists_getElem?_of_forall₂ hkept.flip htx
        obtain ⟨hkind, earlier, later, rfl, hforges, hbefore, hafter, hheight⟩ := ih hyoung
        have hrecorded : RecordedBy settings (earlier ++ .forge :: later ++ [command]) index
            young :=
          ⟨earlier, later ++ [command], List.append_assoc _ _ _, hforges, hbefore, hafter, hheight⟩
        rcases hages with rfl | ⟨-, rfl⟩
        · exact ⟨hkind, hrecorded⟩
        · exact ⟨congrArg spent hkind, hrecorded⟩
      · rw [List.getElem?_append_right (Nat.not_lt.mp hold)] at htx
        obtain ⟨hforges, hheight, hkind⟩ := hnew tx (List.mem_of_getElem? htx)
        refine ⟨hkind, commands, [], ?_⟩
        cases command with
        | forge =>
            refine ⟨rfl, hforges, ?_, hlength, hheight⟩
            rw [hkept.length_eq]
            exact Nat.not_lt.mp hold
        | _ => cases hforges

-- The history that a ledger keeps.
structure HistoryInOrder (settings : Settings) (commands : List SessionCommand) : Prop where
  -- Ids are told apart as long as drawing words comes to a free one. Ids in use stay in use, and
  -- the stream only moves on: if the next draw has an end, every draw before had one.
  distinct : (reached settings commands).simulation.ledger.Finds →
    (reached settings commands).simulation.ledger.issuedIds.Nodup ∧
      ∀ id ∈ (reached settings commands).simulation.ledger.issuedIds, id ≠ 0 ∧ id ≠ Word.top
  accounts : (reached settings commands).simulation.ledger.accountIds.Nodup
  recorded : ∀ index tx,
    (reached settings commands).simulation.ledger.transactions[index]? = some tx →
      tx.kind = TransactionKind.classify tx.tokens tx.message ∧
        RecordedBy settings commands index tx
  -- Whatever is done next, the lists only grow, and transactions are at most spent.
  opens : ∀ command, (reached settings commands).simulation.ledger.accountIds <+:
    ((reached settings commands).perform command).simulation.ledger.accountIds
  issues : ∀ command, (reached settings commands).simulation.ledger.assets <+:
    ((reached settings commands).perform command).simulation.ledger.assets
  records : ∀ command, ∃ kept new,
    ((reached settings commands).perform command).simulation.ledger.transactions = kept ++ new ∧
      List.Forall₂ Ages (reached settings commands).simulation.ledger.transactions kept ∧
      ((reached settings commands).forges command = false → new = [])
  height : ∀ command, ((reached settings commands).perform command).height =
    if (reached settings commands).forges command then (reached settings commands).height + 1
    else (reached settings commands).height

-- What is on the ledger stays there.
theorem history_is_append_only (settings : Settings) (commands : List SessionCommand) :
    HistoryInOrder settings commands := by
  have hgrows := grows_moves (moves_after commands (start settings))
  have hperform : ∀ command, Grows (reached settings commands).simulation.ledger
      ((reached settings commands).perform command).simulation.ledger :=
    fun command => grows_moves ((reached settings commands).moves_perform command)
  constructor
  · intro hfinds
    have hdistinct := hgrows.distinct hfinds ⟨List.nodup_nil, List.forall_mem_nil _⟩
    exact ⟨hdistinct.nodup, hdistinct.proper⟩
  · exact hgrows.opened List.nodup_nil
  · intro index tx htx
    obtain ⟨hkind, hrecorded⟩ := recordedBy_reached settings commands htx
    exact ⟨(congrArg Transaction.kind hkind).symm, hrecorded⟩
  · exact fun command => (hperform command).accountIds
  · exact fun command => (hperform command).assets
  · intro command
    obtain ⟨kept, new, hlist, hkept, hnew⟩ :=
      (reached settings commands).continues_perform command
    refine ⟨kept, new, hlist, hkept, ?_⟩
    intro hforges
    rw [List.eq_nil_iff_forall_not_mem]
    intro tx hmem
    rw [(hnew tx hmem).1] at hforges
    cases hforges
  · exact (reached settings commands).height_perform

-- Two payments from outside at the first height, and one at the next.
def postings : List SessionCommand :=
  [.addTransaction ⟨5, 7, 100, 1, [⟨9, 4⟩], []⟩, .addTransaction ⟨5, 8, 200, 1, [], [3]⟩, .forge,
    .addTransaction ⟨5, 7, 300, 2, [], []⟩, .forge]

theorem history_is_append_only_postings :
    (reached {} postings).simulation.ledger.Finds ∧
      (reached {} postings).simulation.ledger.issuedIds.length = 3 ∧
      (reached {} postings).simulation.ledger.issuedIds.Nodup := by
  have hfinds : (reached {} postings).simulation.ledger.Finds := ⟨0, by decide +kernel⟩
  have hlength : (reached {} postings).simulation.ledger.issuedIds.length = 3 := by
    decide +kernel
  exact ⟨hfinds, hlength, ((history_is_append_only {} postings).distinct hfinds).1⟩

end ContractSim.Session
