import ContractSim.CommandLine
import ContractSim.Proofs.Machine.Metering
import ContractSim.Proofs.Session.Sleep
import ContractSim.Proofs.Termination

namespace ContractSim

namespace Machine

-- What a run reports and leaves, by the lines whose instructions it has run.
structure Metered (protocol : Protocol) (machine : Machine) (lines : List Nat) (result : RunResult)
    (final : Machine) : Prop where
  steps : result.steps = lines.length
  fees : result.fees.toNat = machine.contract.program.feesOf protocol lines
  -- What has left the balance otherwise waits in the queue.
  balance : machine.balance.toNat + machine.contract.queued < Word.modulus →
    machine.contract.queued ≤ final.contract.queued ∧
      machine.balance.toNat = final.balance.toNat + result.fees.toNat +
        (final.contract.queued - machine.contract.queued)
  -- Only code is run, and a listing of the program shows what it costs.
  code : ∀ line ∈ lines, ∃ source instruction,
    machine.contract.program.lines[line]? = some source ∧ source.content = .code instruction ∧
    CommandLine.listLine protocol (source, line) = CommandLine.row line
      (toString (machine.contract.program.feeAt protocol line)) instruction.text
  -- Every instruction is run by a step of its own, which has found its fee.
  paid : ∀ index line, lines[index]? = some line →
    Runs protocol (walk protocol index machine) line ∧
      machine.contract.program.feeAt protocol line ≤ (walk protocol index machine).balance
  -- What cannot be paid for is not run: the contract is as the steps before have left it, and
  -- frozen.
  short : result.outcome = .halted .outOfBalance → ∃ instruction,
    machine.contract.program.line? final.contract.ip = some (.code instruction) ∧
    final.balance < machine.contract.program.feeAt protocol final.contract.ip ∧
    final = (walk protocol lines.length machine).frozenAt final.contract.ip

theorem metered_of_traces {protocol : Protocol} {breakpoints : Breakpoints} {machine : Machine}
    {lines : List Nat}
    (htraces : Traces protocol breakpoints machine lines
      (machine.run protocol breakpoints).1.outcome (machine.run protocol breakpoints).2) :
    Metered protocol machine lines (machine.run protocol breakpoints).1
      (machine.run protocol breakpoints).2 := by
  have hspends := htraces.spends
  have hfees : (machine.run protocol breakpoints).1.fees.toNat =
      machine.contract.program.feesOf protocol lines := hspends.fees_eq
  have hprogram : ∀ index,
      (walk protocol index machine).contract.program = machine.contract.program :=
    fun index => congrArg Terms.program (works_walk protocol index machine).terms
  refine ⟨hspends.steps_eq, hfees, ?_, ?_, ?_, ?_⟩
  · intro hfits
    have hqueued := hspends.queued hfits
    have hbalance := hspends.balance
    omega
  · intro line hmem
    obtain ⟨index, hindex⟩ := List.mem_iff_getElem?.mp hmem
    obtain ⟨-, instruction, -, hline, -⟩ := htraces.runs_walk hindex
    rw [hprogram] at hline
    obtain ⟨source, hsource, hcode⟩ := Option.map_eq_some_iff.mp hline
    refine ⟨source, instruction, hsource, hcode, ?_⟩
    rw [Program.feeAt_of_code hline, CommandLine.listLine, hcode]
    rfl
  · intro index line hindex
    have hruns := htraces.runs_walk hindex
    refine ⟨hruns, ?_⟩
    rcases runs_or_idles (walk protocol index machine) protocol with
      ⟨other, hother, hpaid, -⟩ | ⟨hidles, -⟩
    · rw [hprogram, ← hruns.unique hother] at hpaid
      exact hpaid
    · exact absurd hruns (hidles line)
  · intro hout
    rw [hout] at htraces
    obtain ⟨line, instruction, hline, hshort, hfrozen⟩ := htraces.freezes
    have hip : (machine.run protocol breakpoints).2.contract.ip = line := by
      rw [hfrozen]
      rfl
    rw [hip, Program.feeAt_of_code hline]
    exact ⟨instruction, hline, hshort, hfrozen⟩

end Machine

-- Between two states of a contract every instruction has been paid for with the least fee or more,
-- unless the counter of fees has passed the largest word.
def Contract.Pays (leastFee : Nat) (before after : Contract) : Prop :=
  ∃ steps, after.steps = before.steps + steps ∧
    (before.feesPaid ≤ after.feesPaid →
      before.feesPaid.toNat + steps * leastFee ≤ after.feesPaid.toNat)

namespace Simulation

theorem treats_pays (protocol : Protocol) :
    Treats protocol (Contract.Pays protocol.leastFee) (Contract.Pays protocol.leastFee) where
  refl contract := ⟨0, rfl, fun _ => by rw [Nat.zero_mul, Nat.add_zero]⟩
  slice machine breakpoints goOn := by
    obtain ⟨fees, steps, hfees, hspends⟩ := machine.spends_slice protocol breakpoints goOn
    refine ⟨steps, hspends.steps, ?_⟩
    intro hgrows
    rw [hspends.toNat_feesPaid hgrows]
    exact Nat.add_le_add_left hfees _
  rests _ _ hpays := hpays
  wakes _ _ hpays _ _ := hpays

-- All instructions that contracts have run are paid for.
def Counted (leastFee : Nat) (contracts : List Contract) : Prop :=
  ∀ contract ∈ contracts, contract.steps * leastFee ≤ contract.feesPaid.toNat

theorem counted_of_pays {leastFee : Nat} {before after new : List Contract}
    (hpays : List.Forall₂ (Contract.Pays leastFee) before after)
    (hgrow : FeesGrow before (after ++ new)) (hcounted : Counted leastFee before) :
    Counted leastFee after := by
  induction hpays with
  | nil => exact List.forall_mem_nil _
  | @cons old later _ _ hhead _ ih =>
      obtain ⟨hold, hrest⟩ := List.forall_mem_cons.mp hcounted
      obtain ⟨steps, hsteps, hfees⟩ := hhead
      have hlater := hfees (hgrow (old.feesPaid, later.feesPaid) List.mem_cons_self)
      refine List.forall_mem_cons.mpr ⟨?_, ?_⟩
      · rw [hsteps, Nat.add_mul]
        omega
      · exact ih (fun pair hmem => hgrow pair (List.mem_cons_of_mem _ hmem)) hrest

end Simulation

namespace Session

open Machine Simulation

theorem counted_perform {session : Session} {command : SessionCommand}
    (hfees : session.FeesFit command)
    (hcounted : Counted session.simulation.protocol.leastFee session.simulation.contracts) :
    Counted session.simulation.protocol.leastFee (session.perform command).simulation.contracts := by
  obtain ⟨kept, new, hcontracts, hnew, hkept⟩ :=
    (treats_pays session.simulation.protocol).perform command
  have hpays : List.Forall₂ (Contract.Pays session.simulation.protocol.leastFee)
      session.simulation.contracts kept :=
    hkept.elim (fun hturns => hturns) (fun hlives => hlives.2)
  rw [FeesFit, hcontracts] at hfees
  rw [hcontracts, Counted, List.forall_mem_append]
  refine ⟨counted_of_pays hpays hfees hcounted, ?_⟩
  intro contract hmem
  rw [(hnew contract hmem).steps, Nat.zero_mul]
  exact Nat.zero_le _

theorem counted_after {commands : List SessionCommand} {session : Session}
    (hfees : Along FeesFit commands session)
    (hcounted : Counted session.simulation.protocol.leastFee session.simulation.contracts) :
    Counted session.simulation.protocol.leastFee
      (after commands session).simulation.contracts := by
  induction commands generalizing session with
  | nil => exact hcounted
  | cons command rest ih =>
      have hprotocol : (session.perform command).simulation.protocol =
          session.simulation.protocol := protocol_after [command] session
      have hnext := counted_perform hfees.1 hcounted
      rw [← hprotocol] at hnext ⊢
      exact ih hfees.2 hnext

-- As long as the fees of a contract can be counted in a word, its instructions can.
theorem steps_fit {settings : Settings} (hvalid : settings.validate = .ok ())
    {commands : List SessionCommand} (hfees : Along FeesFit commands (start settings)) :
    ∀ contract ∈ (reached settings commands).simulation.contracts,
      contract.steps * settings.protocol.leastFee ≤ contract.feesPaid.toNat ∧
        contract.steps < Word.modulus := by
  intro contract hmem
  have hpaid : contract.steps * settings.protocol.leastFee ≤ contract.feesPaid.toNat :=
    counted_after hfees (List.forall_mem_nil _) contract hmem
  have hsteps : contract.steps ≤ contract.steps * settings.protocol.leastFee :=
    Nat.le_mul_of_pos_right _ (settings.leastFee_pos hvalid)
  have hword := contract.feesPaid.toNat_lt_modulus
  exact ⟨hpaid, by omega⟩

-- Fees are metered exactly. A run that ends has one sequence of lines whose instructions it has
-- run; it reports their number and what they cost, and nothing else has left the balance but what
-- is queued. In a session balance and queue of a contract always fit in a word together.
theorem fees_are_metered_exactly :
    (∀ (machine : Machine) (protocol : Protocol) (breakpoints : Breakpoints),
      (machine.run protocol breakpoints).1.outcome ≠ .running →
      ∃ lines,
        (∀ other, Traces protocol breakpoints machine other
            (machine.run protocol breakpoints).1.outcome (machine.run protocol breakpoints).2 ↔
          other = lines) ∧
        Metered protocol machine lines (machine.run protocol breakpoints).1
          (machine.run protocol breakpoints).2) ∧
    ∀ settings commands, Along Returns commands (start settings) →
      ∀ contract ∈ (reached settings commands).simulation.contracts,
        (reached settings commands).simulation.ledger.hasAccount contract.id = true ∧
        ((reached settings commands).simulation.ledger.balance contract.id).toNat +
          contract.queued < Word.modulus := by
  refine ⟨?_, ?_⟩
  · intro machine protocol breakpoints hends
    rcases run_cases machine protocol breakpoints with hnone | ⟨count, hloop⟩
    · rw [hnone] at hends
      exact absurd rfl hends
    · obtain ⟨lines, htraces⟩ := exists_traces_of_loop hloop
      refine ⟨lines, ?_, metered_of_traces htraces⟩
      intro other
      constructor
      · exact htraces.unique
      · rintro rfl
        exact htraces
  · intro settings commands hreturns contract hmem
    have hsound := sound_reached hreturns
    exact ⟨hsound.hasAccount contract hmem, hsound.fits contract hmem⟩

-- A contract that can pay for two of its three instructions.
def thrifty : Simulation :=
  (reached {} [.deploy
    { source := "again:\nINC @x\nFUN clear_A\nFIN", initialBalance := some 8100000 }]).simulation

def miser : Contract := (thrifty.contract? 999).get (by decide +kernel)

theorem fees_are_metered_exactly_thrifty :
    ((thrifty.machine miser).run thrifty.protocol []).1.outcome = .halted .outOfBalance ∧
      ∃ lines, lines.length = 2 ∧ miser.program.feesOf thrifty.protocol lines = 8085000 ∧
        ((thrifty.machine miser).run thrifty.protocol []).2 =
          (walk thrifty.protocol 2 (thrifty.machine miser)).frozenAt 3 := by
  have hloop : Loop thrifty.protocol [] (fun _ => true) 3 (thrifty.machine miser)
      (.halted .outOfBalance) (walk thrifty.protocol 3 (thrifty.machine miser)) :=
    .of_walk (by decide +kernel) (by decide +kernel) nofun
  have hrun := hloop.run_eq
  have hout : ((thrifty.machine miser).run thrifty.protocol []).1.outcome =
      .halted .outOfBalance := by
    rw [hrun]
  have hip : ((thrifty.machine miser).run thrifty.protocol []).2.contract.ip = 3 := by
    rw [hrun]
    decide +kernel
  have hsteps : ((thrifty.machine miser).run thrifty.protocol []).1.steps = 2 := by
    rw [hrun]
    decide +kernel
  have hfees : ((thrifty.machine miser).run thrifty.protocol []).1.fees.toNat = 8085000 := by
    rw [hrun]
    decide +kernel
  obtain ⟨lines, -, hmetered⟩ := fees_are_metered_exactly.1 (thrifty.machine miser)
    thrifty.protocol [] (by rw [hout]; nofun)
  obtain ⟨-, -, -, hfrozen⟩ := hmetered.short hout
  have hlength := hmetered.steps.symm.trans hsteps
  rw [hip, hlength] at hfrozen
  exact ⟨hout, lines, hlength, hmetered.fees.symm.trans hfees, hfrozen⟩

end Session

end ContractSim
