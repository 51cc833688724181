import ContractSim.Proofs.Session.Block
import ContractSim.Proofs.Simulation.Timestamp

namespace ContractSim

open Ledger Transaction

namespace Simulation

theorem sequence_deploy (simulation : Simulation) (deployment : Deployment) :
    (simulation.deploy deployment).2.ledger.sequence = simulation.ledger.sequence := by
  rcases simulation.deploy_outcomes deployment with
    hsame | ⟨id, htouch⟩ | ⟨deployed, balance, record, -, hnew⟩
  · rw [hsame]
  · rw [htouch, (opened_touch simulation.ledger id).rest]
  · rw [hnew, register, (opened_setBalance simulation.ledger deployed.id balance).rest]

end Simulation

namespace Session

open Simulation

theorem sequence_debug {session : Session} {id : Word} (command : DebugCommand)
    {act : Debugger → Simulation → Word → Except DebugError (DebugStatus × Simulation)}
    (hact : act session.debugger session.simulation id = command.perform session.simulation id)
    (hhoused : session.simulation.Housed) :
    (session.debug id act).2.simulation.ledger.sequence = session.simulation.ledger.sequence := by
  cases hfound : session.simulation.contract? id with
  | none =>
      obtain ⟨error, hperform⟩ := DebugCommand.perform_eq_error hfound command
      rw [debug, hact, hperform]
  | some target =>
      rw [debug, hact, DebugCommand.perform_eq_ok hfound]
      have hhas := hhoused target (List.mem_of_find?_eq_some hfound)
      exact @Machine.sequence_slice (session.simulation.machine target) hhas _ _ _

theorem sequence_perform {session : Session} {command : SessionCommand}
    (hcommand : command ≠ .forge) (hhoused : session.simulation.Housed) :
    (session.perform command).simulation.ledger.sequence =
      session.simulation.ledger.sequence := by
  cases command with
  | deploy deployment => exact session.simulation.sequence_deploy deployment
  | loadScenario text => rw [perform, simulation_loadScenario]
  | toggleBreakpoint contract line => rw [perform, simulation_toggleBreakpoint]
  | addTransaction | clearBreakpoints => rfl
  | run contract => exact sequence_debug (.run session.debugger) rfl hhoused
  | stepInto contract => exact sequence_debug (.stepInto session.debugger) rfl hhoused
  | stepOver contract => exact sequence_debug (.stepOver session.debugger) rfl hhoused
  | stepOut contract => exact sequence_debug (.stepOut session.debugger) rfl hhoused
  | forge => exact absurd rfl hcommand

-- A block records fewer transactions than there are places in a block.
def Brief (session : Session) (command : SessionCommand) : Prop :=
  (session.perform command).simulation.ledger.transactions.length <
    session.simulation.ledger.transactions.length + 2 ^ 32

theorem timely_perform {session : Session} {command : SessionCommand}
    (htimely : Timely session.simulation.ledger) (hhoused : session.simulation.Housed)
    (hbrief : session.Brief command) (hclimbs : session.Climbs command) :
    Timely (session.perform command).simulation.ledger := by
  rcases session.forged_cases command with
    ⟨hnone, hlist, hheight⟩ | ⟨report, rfl, hok, -, hheight⟩
  · have hsequence : (session.perform command).simulation.ledger.sequence =
        session.simulation.ledger.sequence := by
      by_cases hcommand : command = .forge
      · subst hcommand
        rw [perform_forge_of_forged_eq_nil hnone]
      · exact sequence_perform hcommand hhoused
    constructor
    · exact hsequence.trans htimely.sequence
    · have hsame : (session.perform command).simulation.ledger.height =
        session.simulation.ledger.height := hheight
      rw [hlist, hsame]
      exact htimely.past
    · rw [hlist]
      exact htimely.dated
    · rw [hlist]
      exact htimely.order
  · have hforge : session.simulation.forge session.due session.debugger.table =
        (.ok report, (session.perform .forge).simulation) :=
      Prod.ext (forge_of_ok hok) rfl
    obtain ⟨hsequence, kept, block, hlist, hkept, hstamped⟩ :=
      exists_stampedAt_forge hhoused htimely.sequence hforge
    have hfits : block.length < 2 ^ 32 := by
      rw [Brief, hlist, List.length_append, hkept.length_eq] at hbrief
      exact Nat.add_lt_add_iff_left.mp hbrief
    have hforges : session.forges .forge = true := by
      rw [forges, hok]
      rfl
    exact htimely.forge hheight (hclimbs hforges) hsequence hlist hkept hstamped hfits

theorem timely_after {commands : List SessionCommand} {session : Session}
    (htimely : Timely session.simulation.ledger) (hhoused : session.simulation.Housed)
    (hbrief : Along Brief commands session) (hclimbs : Along Climbs commands session) :
    Timely (after commands session).simulation.ledger := by
  induction commands generalizing session with
  | nil => exact htimely
  | cons command rest ih =>
      have hstill : (session.perform command).simulation.Housed :=
        after_induction Housed (fun _ _ hmove => hmove.housed) hhoused [command]
      exact ih (timely_perform htimely hhoused hbrief.1 hclimbs.1) hstill hbrief.2 hclimbs.2

-- How timestamps tell the order of a ledger.
structure GrowWith (ledger : Ledger) : Prop where
  -- Below the height 2 ^ 32 they do so for the whole ledger, and hold the heights.
  low : ledger.height.toNat ≤ 2 ^ 32 →
    (ledger.transactions.map Transaction.timestamp).Pairwise (· < ·) ∧
      ∀ tx ∈ ledger.transactions, tx.timestamp.toNat / 2 ^ 32 = tx.blockheight.toNat
  -- Above it they hold what is left of a height modulo 2 ^ 32, and start again with every multiple.
  dated : ∀ tx ∈ ledger.transactions,
    tx.timestamp.toNat / 2 ^ 32 = tx.blockheight.toNat % 2 ^ 32
  order : ledger.transactions.Pairwise fun earlier later =>
    earlier.blockheight.toNat / 2 ^ 32 = later.blockheight.toNat / 2 ^ 32 →
      earlier.timestamp < later.timestamp

-- Timestamps grow with the ledger, from one multiple of 2 ^ 32 to the next.
theorem timestamps_grow_with_ledger (settings : Settings) (commands : List SessionCommand)
    (hbrief : Along Brief commands (start settings))
    (hclimbs : Along Climbs commands (start settings)) :
    GrowWith (reached settings commands).simulation.ledger := by
  have htimely : Timely (reached settings commands).simulation.ledger :=
    timely_after (timely_start _ _) (fun _ hmem => absurd hmem List.not_mem_nil) hbrief hclimbs
  generalize (reached settings commands).simulation.ledger = ledger at htimely ⊢
  refine ⟨?_, htimely.dated, htimely.order⟩
  intro hlow
  have hsmall : ∀ tx ∈ ledger.transactions, tx.blockheight.toNat < 2 ^ 32 :=
    fun tx hmem => Nat.lt_of_lt_of_le (UInt64.lt_iff_toNat_lt.mp (htimely.past tx hmem)) hlow
  constructor
  · rw [List.pairwise_map]
    refine htimely.order.imp_of_mem ?_
    intro earlier later hearlier hlater hprecedes
    apply hprecedes
    rw [Nat.div_eq_of_lt (hsmall earlier hearlier), Nat.div_eq_of_lt (hsmall later hlater)]
  · intro tx hmem
    rw [htimely.dated tx hmem, Nat.mod_eq_of_lt (hsmall tx hmem)]

def startingAt (height : Word) : Settings := { simulation := { startBlock := height } }

-- Two payments at a height, and one at the next.
def paidAt (height : Word) : List SessionCommand :=
  [.addTransaction ⟨5, 7, 100, height, [], []⟩, .addTransaction ⟨5, 8, 200, height, [], []⟩, .forge,
    .addTransaction ⟨5, 7, 300, height + 1, [], []⟩, .forge]

theorem timestamps_grow_with_ledger_last_low :
    Along Brief (paidAt 0xfffffffe) (start (startingAt 0xfffffffe)) ∧
      Along Climbs (paidAt 0xfffffffe) (start (startingAt 0xfffffffe)) ∧
      (reached (startingAt 0xfffffffe) (paidAt 0xfffffffe)).height = 0x100000000 ∧
      ∃ first second third : Transaction,
        (reached (startingAt 0xfffffffe) (paidAt 0xfffffffe)).simulation.ledger.transactions =
          [first, second, third] ∧
        first.timestamp < second.timestamp ∧ second.timestamp < third.timestamp ∧
        third.timestamp.toNat / 2 ^ 32 = third.blockheight.toNat := by
  have hbrief : Along Brief (paidAt 0xfffffffe) (start (startingAt 0xfffffffe)) := by
    simp only [Along, Brief, paidAt]
    decide +kernel
  have hclimbs : Along Climbs (paidAt 0xfffffffe) (start (startingAt 0xfffffffe)) := by
    simp only [Along, Climbs, paidAt]
    decide +kernel
  have hheight : (reached (startingAt 0xfffffffe) (paidAt 0xfffffffe)).height = 0x100000000 := by
    decide +kernel
  have hlength :
      (reached (startingAt 0xfffffffe) (paidAt 0xfffffffe)).simulation.ledger.transactions.length =
        3 := by
    decide +kernel
  obtain ⟨first, second, third, hlist⟩ := List.length_eq_three.mp hlength
  obtain ⟨horder, hdated⟩ := (timestamps_grow_with_ledger (startingAt 0xfffffffe)
    (paidAt 0xfffffffe) hbrief hclimbs).low (Nat.le_of_eq (congrArg UInt64.toNat hheight))
  rw [hlist] at horder hdated
  simp only [List.map_cons, List.pairwise_cons, List.mem_cons, forall_eq_or_imp] at horder
  exact ⟨hbrief, hclimbs, hheight, first, second, third, hlist, horder.1.1, horder.2.1.1,
    hdated third (by simp)⟩

-- At the height 2 ^ 32 the timestamps start again, under settings that are accepted.
theorem timestamps_start_again :
    (startingAt 0xffffffff).validate = .ok () ∧
      Along Brief (paidAt 0xffffffff) (start (startingAt 0xffffffff)) ∧
      (let ledger := (reached (startingAt 0xffffffff) (paidAt 0xffffffff)).simulation.ledger
      ¬ (ledger.transactions.map Transaction.timestamp).Pairwise (· < ·) ∧
        ∃ tx ∈ ledger.transactions, tx.blockheight = 0x100000000 ∧ tx.timestamp = 1) := by
  refine ⟨by decide +kernel, ?_, by decide +kernel⟩
  simp only [Along, Brief, paidAt]
  decide +kernel

end Session

end ContractSim
