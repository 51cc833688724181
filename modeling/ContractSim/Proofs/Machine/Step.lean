import ContractSim.Proofs.Machine.Atomic
import ContractSim.Proofs.Machine.Loop

namespace ContractSim.Machine

-- The machine with control at a line.
def arrived (machine : Machine) (line : Nat) : Machine :=
  { machine with contract := { machine.contract with ip := line } }

-- All that a step can do, whatever the breakpoints. An instruction that raises a fault has done
-- nothing but cost its fee.
inductive Advance (machine : Machine) (protocol : Protocol) : Outcome × Machine → Prop
  | rests (hrunning : machine.contract.running = false) :
      Advance machine protocol (.halted .notRunning, machine)
  | ends (hrunning : machine.contract.running = true)
      (hnext : machine.contract.program.nextExecutable? machine.contract.ip = none) :
      Advance machine protocol (machine.die .endOfCode)
  | stumbles (hrunning : machine.contract.running = true) {line : Nat}
      (hnext : machine.contract.program.nextExecutable? machine.contract.ip = some line)
      (hline : ∀ instruction,
        machine.contract.program.line? line ≠ some (.code instruction)) :
      Advance machine protocol ((machine.arrived line).die
        (.invalidInstruction line (machine.contract.program.trimmedLine line)))
  | freezes (hrunning : machine.contract.running = true) {line : Nat} {instruction : Instruction}
      (hnext : machine.contract.program.nextExecutable? machine.contract.ip = some line)
      (hline : machine.contract.program.line? line = some (.code instruction))
      (hshort : machine.balance < protocol.fee (FeeClass.ofInstruction instruction)) :
      Advance machine protocol (machine.arrived line).freeze
  | flows (hrunning : machine.contract.running = true) {line : Nat} {instruction : Instruction}
      {fee : Word} {flow : Flow} {after : Machine}
      (hnext : machine.contract.program.nextExecutable? machine.contract.ip = some line)
      (hline : machine.contract.program.line? line = some (.code instruction))
      (hfee : fee = protocol.fee (FeeClass.ofInstruction instruction))
      (hpaid : fee ≤ machine.balance)
      (hrun : (execute protocol line instruction).run ((machine.arrived line).charged fee) =
        (.ok flow, after)) :
      Advance machine protocol (after.transfer line flow)
  | faults (hrunning : machine.contract.running = true) {line : Nat} {instruction : Instruction}
      {fee : Word} {fault : Fault}
      (hnext : machine.contract.program.nextExecutable? machine.contract.ip = some line)
      (hline : machine.contract.program.line? line = some (.code instruction))
      (hfee : fee = protocol.fee (FeeClass.ofInstruction instruction))
      (hpaid : fee ≤ machine.balance)
      (hrun : (execute protocol line instruction).run ((machine.arrived line).charged fee) =
        (.error fault, (machine.arrived line).charged fee)) :
      Advance machine protocol (((machine.arrived line).charged fee).handle fault)

theorem advance_cases (machine : Machine) (protocol : Protocol) :
    Advance machine protocol (machine.advance protocol) := by
  cases hrunning : machine.contract.running with
  | false =>
      have hadvance : machine.advance protocol = (.halted .notRunning, machine) := by
        simp only [advance, hrunning, Bool.not_false, ite_true]
      rw [hadvance]
      exact .rests hrunning
  | true =>
      cases hnext : machine.contract.program.nextExecutable? machine.contract.ip with
      | none =>
          have hadvance : machine.advance protocol = machine.die .endOfCode := by
            simp only [advance, hrunning, Bool.not_true, Bool.false_eq_true, ite_false, hnext]
          rw [hadvance]
          exact .ends hrunning hnext
      | some line =>
          by_cases hcode : ∃ instruction,
              machine.contract.program.line? line = some (.code instruction)
          · obtain ⟨instruction, hline⟩ := hcode
            have hadvance : machine.advance protocol =
                (machine.arrived line).chargeAndPerform protocol line instruction := by
              simp only [advance, hrunning, Bool.not_true, Bool.false_eq_true, ite_false, hnext,
                hline, arrived]
            rw [hadvance, chargeAndPerform_eq]
            split_ifs with hshort
            · exact .freezes hrunning hnext hline hshort
            · have hpaid := UInt64.not_lt.mp hshort
              rcases hrun : (execute protocol line instruction).run
                ((machine.arrived line).charged (protocol.fee
                  (FeeClass.ofInstruction instruction))) with ⟨result, after⟩
              rw [perform, hrun]
              cases result with
              | ok flow => exact .flows hrunning hnext hline rfl hpaid hrun
              | error fault =>
                  obtain rfl := atomic_execute protocol line instruction _ _ _ hrun
                  exact .faults hrunning hnext hline rfl hpaid hrun
          · have hadvance : machine.advance protocol = (machine.arrived line).die
                (.invalidInstruction line (machine.contract.program.trimmedLine line)) := by
              simp only [advance, hrunning, Bool.not_true, Bool.false_eq_true, ite_false, hnext,
                arrived]
              split
              · rename_i instruction hline
                exact absurd ⟨instruction, hline⟩ hcode
              · rfl
            rw [hadvance]
            exact .stumbles hrunning hnext fun instruction hline => hcode ⟨instruction, hline⟩

-- Without breakpoints there is nothing to report.
theorem step_nil (machine : Machine) (protocol : Protocol) :
    machine.step protocol [] = machine.advance protocol := by
  have hkind := runsOrHalts_advance machine protocol
  unfold step
  generalize machine.advance protocol = result at hkind ⊢
  obtain ⟨outcome, next⟩ := result
  obtain rfl | ⟨reason, rfl⟩ := hkind
  · rw [notice, if_neg List.not_mem_nil]
  · rfl

theorem snd_advance_of_step {machine next : Machine} {protocol : Protocol}
    {breakpoints : Breakpoints} {outcome : Outcome}
    (hstep : machine.step protocol breakpoints = (outcome, next)) :
    (machine.advance protocol).2 = next := by
  rw [← step_nil, step_snd machine protocol breakpoints, hstep]

theorem advance_of_step_running {machine next : Machine} {protocol : Protocol}
    {breakpoints : Breakpoints} (hstep : machine.step protocol breakpoints = (.running, next)) :
    machine.advance protocol = (.running, next) := by
  rw [← step_nil]
  exact (step_of_running hstep).1

-- A step goes on or halts as the contract does.
theorem step_of_advance_running {machine next : Machine} {protocol : Protocol}
    (hadvance : machine.advance protocol = (.running, next)) (breakpoints : Breakpoints) :
    ∃ outcome, outcome.isHalt = false ∧ machine.step protocol breakpoints = (outcome, next) := by
  rw [step, hadvance, notice]
  split_ifs
  · exact ⟨_, rfl, rfl⟩
  · exact ⟨_, rfl, rfl⟩

theorem step_eq_halted_iff {machine next : Machine} {protocol : Protocol}
    {breakpoints : Breakpoints} {reason : HaltReason} :
    machine.step protocol breakpoints = (.halted reason, next) ↔
      machine.advance protocol = (.halted reason, next) := by
  constructor
  · intro hstep
    rw [← step_nil]
    exact step_of_halted hstep
  · intro hadvance
    rw [step, hadvance]
    rfl

-- The instruction that the next step is to run.
def instruction? (machine : Machine) : Option Instruction :=
  (machine.contract.program.nextExecutable? machine.contract.ip).bind fun line =>
    match machine.contract.program.line? line with
    | some (.code instruction) => some instruction
    | _ => none

theorem instruction?_eq_some {machine : Machine} {line : Nat} {instruction : Instruction}
    (hnext : machine.contract.program.nextExecutable? machine.contract.ip = some line)
    (hline : machine.contract.program.line? line = some (.code instruction)) :
    machine.instruction? = some instruction := by
  simp only [instruction?, hnext, Option.bind_some, hline]

theorem exists_line_of_instruction? {machine : Machine} {instruction : Instruction}
    (hinstruction : machine.instruction? = some instruction) :
    ∃ line, machine.contract.program.nextExecutable? machine.contract.ip = some line ∧
      machine.contract.program.line? line = some (.code instruction) := by
  obtain ⟨line, hnext, hcode⟩ := Option.bind_eq_some_iff.mp hinstruction
  refine ⟨line, hnext, ?_⟩
  split at hcode
  · rename_i hline
    cases hcode
    exact hline
  · cases hcode

theorem ledger_transfer (machine : Machine) (line : Nat) (flow : Flow) :
    (machine.transfer line flow).2.ledger = machine.ledger ∧
      (machine.transfer line flow).2.contract.queue = machine.contract.queue := by
  cases flow with
  | next | jump | stop | sleep | retry | finish => exact ⟨rfl, rfl⟩

theorem ledger_handle (machine : Machine) (fault : Fault) :
    (machine.handle fault).2.ledger = machine.ledger ∧
      (machine.handle fault).2.contract.queue = machine.contract.queue := by
  unfold handle
  split
  · split_ifs
    · exact ⟨rfl, rfl⟩
    · exact ⟨rfl, rfl⟩
  · exact ⟨rfl, rfl⟩

-- A step leaves ledger and queue alone, or has them from an instruction that was paid for.
theorem executed_advance (machine : Machine) (protocol : Protocol) :
    ((machine.advance protocol).2.ledger = machine.ledger ∧
      (machine.advance protocol).2.contract.queue = machine.contract.queue) ∨
    ∃ line instruction fee after,
      machine.instruction? = some instruction ∧ fee ≤ machine.balance ∧
      Executed ((machine.arrived line).charged fee) instruction after ∧
      (machine.advance protocol).2.ledger = after.ledger ∧
      (machine.advance protocol).2.contract.queue = after.contract.queue := by
  have hcases := advance_cases machine protocol
  generalize machine.advance protocol = result at hcases ⊢
  cases hcases with
  | rests | ends | stumbles | freezes => exact .inl ⟨rfl, rfl⟩
  | @flows _ line instruction fee flow after hnext hline _ hpaid hrun =>
      have hexecuted := executed_execute ((machine.arrived line).charged fee) protocol line
        instruction
      rw [hrun] at hexecuted
      exact .inr ⟨line, instruction, fee, after, instruction?_eq_some hnext hline, hpaid,
        hexecuted, ledger_transfer after line flow⟩
  | @faults _ line instruction fee fault hnext hline _ hpaid _ =>
      exact .inr ⟨line, instruction, fee, _, instruction?_eq_some hnext hline, hpaid,
        .idle _ instruction, ledger_handle _ fault⟩

end ContractSim.Machine
