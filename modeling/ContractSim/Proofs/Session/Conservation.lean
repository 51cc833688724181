import ContractSim.Proofs.Debugger.Replay
import ContractSim.Proofs.Simulation.Deploy
import ContractSim.Session

namespace ContractSim

-- All that can be done to a session.
inductive SessionCommand where
  | deploy (deployment : Deployment)
  | loadScenario (text : String)
  | addTransaction (entry : ScenarioEntry)
  | toggleBreakpoint (contract : Word) (line : Nat)
  | clearBreakpoints
  | run (contract : Word)
  | stepInto (contract : Word)
  | stepOver (contract : Word)
  | stepOut (contract : Word)
  | forge

namespace Session

open Simulation

-- The session after a command, whether the command succeeds or not.
def perform (session : Session) : SessionCommand → Session
  | .deploy deployment => (session.deploy deployment).2
  | .loadScenario text => (session.loadScenario text).2
  | .addTransaction entry => session.addTransaction entry
  | .toggleBreakpoint contract line => (session.toggleBreakpoint contract line).2
  | .clearBreakpoints => session.clearBreakpoints
  | .run contract => (session.run contract).2
  | .stepInto contract => (session.stepInto contract).2
  | .stepOver contract => (session.stepOver contract).2
  | .stepOut contract => (session.stepOut contract).2
  | .forge => session.forge.2

-- The balance that a command credits to a new contract.
def funded (session : Session) : SessionCommand → List Word
  | .deploy deployment => session.simulation.funded deployment
  | _ => []

-- The amounts of the transactions from outside that a command records on the ledger.
def recorded (session : Session) : SessionCommand → List Word
  | .forge => session.simulation.recorded session.due session.debugger.table
  | _ => []

-- A command that comes to an end. A deployment looks for an id that is not taken until it finds
-- one.
def Returns (session : Session) : SessionCommand → Prop
  | .deploy _ => ∃ id, isTaken session.simulation.ledger id = false
  | _ => True

-- No counter of fees passes the largest word.
def FeesFit (session : Session) (command : SessionCommand) : Prop :=
  FeesGrow session.simulation.contracts (session.perform command).simulation.contracts

-- Debugger commands spend what the contract has.
theorem keeps_debug {session : Session} {id : Word} (command : DebugCommand)
    {act : Debugger → Simulation → Word → Except DebugError (DebugStatus × Simulation)}
    (hact : act session.debugger session.simulation id = command.perform session.simulation id)
    (hsound : Sound session.simulation.ledger session.simulation.contracts) :
    Keeps session.simulation [] [] (session.debug id act).2.simulation := by
  cases hfound : session.simulation.contract? id with
  | none =>
      obtain ⟨error, hperform⟩ := DebugCommand.perform_eq_error hfound command
      rw [debug, hact, hperform]
      exact Keeps.refl hsound
  | some target =>
      obtain ⟨fees, steps, -, hspends⟩ := Machine.spends_slice (session.simulation.machine target)
        session.simulation.protocol (command.debugger.breakpoints target.id)
        fun machine => command.goOn target machine.contract.codeStack.depth
      rw [debug, hact, DebugCommand.perform_eq_ok hfound]
      have hinstall := keeps_install hsound hfound hspends
      rw [← id_of_contract? hfound] at hinstall
      exact hinstall

theorem simulation_loadScenario (session : Session) (text : String) :
    (session.loadScenario text).2.simulation = session.simulation := by
  unfold loadScenario
  split
  · rfl
  · rfl

theorem simulation_toggleBreakpoint (session : Session) (contract : Word) (line : Nat) :
    (session.toggleBreakpoint contract line).2.simulation = session.simulation := by
  unfold toggleBreakpoint
  split
  · rfl
  · rfl

-- One command at a time, money is kept.
theorem keeps_perform {session : Session} (command : SessionCommand)
    (hreturns : session.Returns command)
    (hsound : Sound session.simulation.ledger session.simulation.contracts) :
    Keeps session.simulation (session.funded command) (session.recorded command)
      (session.perform command).simulation := by
  cases command with
  | deploy deployment => exact keeps_deploy deployment hsound hreturns
  | loadScenario text =>
      rw [perform, simulation_loadScenario]
      exact Keeps.refl hsound
  | addTransaction entry => exact Keeps.refl hsound
  | toggleBreakpoint contract line =>
      rw [perform, simulation_toggleBreakpoint]
      exact Keeps.refl hsound
  | clearBreakpoints => exact Keeps.refl hsound
  | run contract => exact keeps_debug (.run session.debugger) rfl hsound
  | stepInto contract => exact keeps_debug (.stepInto session.debugger) rfl hsound
  | stepOver contract => exact keeps_debug (.stepOver session.debugger) rfl hsound
  | stepOut contract => exact keeps_debug (.stepOut session.debugger) rfl hsound
  | forge => exact keeps_forge session.due session.debugger.table hsound

-- The session after commands in turn.
def after : List SessionCommand → Session → Session
  | [], session => session
  | command :: rest, session => after rest (session.perform command)

-- A property of every command in the session that it finds.
def Along (property : Session → SessionCommand → Prop) : List SessionCommand → Session → Prop
  | [], _ => True
  | command :: rest, session =>
      property session command ∧ Along property rest (session.perform command)

instance decidableAlong {property : Session → SessionCommand → Prop}
    [∀ session command, Decidable (property session command)] :
    (commands : List SessionCommand) → (session : Session) →
      Decidable (Along property commands session)
  | [], _ => .isTrue trivial
  | command :: rest, session =>
      have : Decidable (Along property rest (session.perform command)) := decidableAlong rest _
      inferInstanceAs (Decidable (property session command ∧ _))

theorem after_append (left right : List SessionCommand) (session : Session) :
    after (left ++ right) session = after right (after left session) := by
  induction left generalizing session with
  | nil => rfl
  | cons command rest ih => exact ih (session.perform command)

theorem along_append {property : Session → SessionCommand → Prop}
    {left right : List SessionCommand} {session : Session} :
    Along property (left ++ right) session ↔
      Along property left session ∧ Along property right (after left session) := by
  induction left generalizing session with
  | nil => exact (and_iff_right trivial).symm
  | cons command rest ih =>
      rw [List.cons_append, Along, Along, after, ih, and_assoc]

-- What all commands give, in the sessions that they find.
def collect (give : Session → SessionCommand → List Word) :
    List SessionCommand → Session → List Word
  | [], _ => []
  | command :: rest, session =>
      give session command ++ collect give rest (session.perform command)

-- The invariant of a run of commands, from any session that is sound.
theorem sound_after {commands : List SessionCommand} {session : Session}
    (hreturns : Along Returns commands session) (hfees : Along FeesFit commands session)
    (hsound : Sound session.simulation.ledger session.simulation.contracts) :
    Sound (after commands session).simulation.ledger
        (after commands session).simulation.contracts ∧
      (session.simulation.ledger.amounts ++ collect recorded commands session).Sublist
        (after commands session).simulation.ledger.amounts ∧
      worth (after commands session).simulation.ledger
          (after commands session).simulation.contracts =
        worth session.simulation.ledger session.simulation.contracts +
          Word.total (collect funded commands session) +
          Word.total (collect recorded commands session) := by
  induction commands generalizing session with
  | nil =>
      refine ⟨hsound, ?_, rfl⟩
      rw [collect, List.append_nil]
      exact List.Sublist.refl _
  | cons command rest ih =>
      have hstep := keeps_perform command hreturns.1 hsound
      obtain ⟨hfinal, hamounts, hworth⟩ := ih hreturns.2 hfees.2 hstep.sound
      refine ⟨hfinal, ?_, ?_⟩
      · obtain ⟨dispatched, hrecorded⟩ := hstep.amounts
        refine List.Sublist.trans ?_ hamounts
        rw [hrecorded, collect, ← List.append_assoc]
        refine List.Sublist.append_right ?_ _
        refine List.Sublist.append_right ?_ _
        exact List.sublist_append_left _ _
      · have hfirst := hstep.worth hfees.1
        rw [after, collect, collect, Word.total_append, Word.total_append]
        omega

-- The session that commands lead to from the start.
def reached (settings : Settings) (commands : List SessionCommand) : Session :=
  after commands (start settings)

-- No money comes or goes unseen. What accounts hold, what waits and what has been paid in fees is
-- what deployments have credited and what has been recorded from outside. A contract can always
-- queue its whole balance without loss.
theorem money_is_conserved (settings : Settings) (commands : List SessionCommand)
    (hreturns : Along Returns commands (start settings))
    (hfees : Along FeesFit commands (start settings)) :
    (reached settings commands).simulation.ledger.totalBalance +
        ((reached settings commands).simulation.contracts.map Contract.queued).sum +
        ((reached settings commands).simulation.contracts.map
          fun contract => contract.feesPaid.toNat).sum =
      Word.total (collect funded commands (start settings)) +
        Word.total (collect recorded commands (start settings)) ∧
    (collect recorded commands (start settings)).Sublist
      (reached settings commands).simulation.ledger.amounts ∧
    ∀ contract ∈ (reached settings commands).simulation.contracts,
      ((reached settings commands).simulation.ledger.balance contract.id).toNat +
          contract.queued < Word.modulus ∧
        ∀ recipient amount token page height,
          amount ≤ (reached settings commands).simulation.ledger.balance contract.id →
            (contract.enqueue recipient amount token page height).queued =
              contract.queued + amount.toNat := by
  have hstart : Sound (start settings).simulation.ledger (start settings).simulation.contracts :=
    ⟨List.nodup_nil, fun _ hmem => absurd hmem List.not_mem_nil,
      fun _ hmem => absurd hmem List.not_mem_nil⟩
  obtain ⟨hsound, hamounts, hworth⟩ := sound_after hreturns hfees hstart
  have hnothing : worth (start settings).simulation.ledger
      (start settings).simulation.contracts = 0 := rfl
  rw [hnothing, Nat.zero_add] at hworth
  refine ⟨hworth, hamounts, ?_⟩
  intro contract hmem
  have hfits := hsound.fits contract hmem
  refine ⟨hfits, ?_⟩
  intro recipient amount token page height hle
  rw [UInt64.le_iff_toNat_le] at hle
  exact contract.queued_enqueue recipient amount token page height
    (Nat.lt_of_le_of_lt (by rw [Nat.add_comm]; exact Nat.add_le_add_right hle _) hfits)

-- A transaction from outside, a block for it, and a contract that runs.
def sample : List SessionCommand :=
  [.addTransaction ⟨1, 5, 7, 1, [], []⟩, .forge, .deploy { source := "FIN" }, .run 999]

theorem money_is_conserved_sample :
    Along Returns sample (start {}) ∧ Along FeesFit sample (start {}) ∧
      (reached {} sample).simulation.ledger.totalBalance +
          ((reached {} sample).simulation.contracts.map Contract.queued).sum +
          ((reached {} sample).simulation.contracts.map
            fun contract => contract.feesPaid.toNat).sum = 1000000000 + 7 := by
  have hreturns : Along Returns sample (start {}) :=
    ⟨trivial, trivial, ⟨0, by decide +kernel⟩, trivial, trivial⟩
  have hnew : (after (sample.take 3) (start {})).simulation.contracts.map Contract.feesPaid =
      [0] := by
    decide +kernel
  have hgrow : ∀ others,
      FeesGrow (after (sample.take 3) (start {})).simulation.contracts others := by
    rintro others ⟨counter, later⟩ hmem
    rw [hnew] at hmem
    obtain rfl := List.mem_singleton.mp (List.of_mem_zip hmem).1
    exact UInt64.le_iff_toNat_le.mpr (Nat.zero_le later.toNat)
  have hnobody : ∀ others, FeesGrow [] others :=
    fun _ _ hmem => absurd hmem List.not_mem_nil
  have hfees : Along FeesFit sample (start {}) :=
    ⟨hnobody _, hnobody _, hnobody _, hgrow _, trivial⟩
  have hfunded : Word.total (collect funded sample (start {})) = 1000000000 := by
    decide +kernel
  have hrecorded : Word.total (collect recorded sample (start {})) = 7 := by
    decide +kernel
  have hconserved := (money_is_conserved {} sample hreturns hfees).1
  rw [hfunded, hrecorded] at hconserved
  exact ⟨hreturns, hfees, hconserved⟩

end Session

end ContractSim
