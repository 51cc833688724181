import ContractSim.Proofs.Machine.Fault
import ContractSim.Proofs.Machine.Frame

namespace ContractSim

-- What the line with an index costs.
def Program.feeAt (program : Program) (protocol : Protocol) (index : Nat) : Word :=
  ((program.line? index).map fun content => protocol.fee (FeeClass.ofLine content)).getD 0

theorem Program.feeAt_of_code {program : Program} {index : Nat} {instruction : Instruction}
    (hline : program.line? index = some (.code instruction)) (protocol : Protocol) :
    program.feeAt protocol index = protocol.fee (FeeClass.ofInstruction instruction) := by
  rw [feeAt, hline]
  rfl

-- What a number of lines costs together.
def Program.feesOf (program : Program) (protocol : Protocol) (lines : List Nat) : Nat :=
  (lines.map fun line => (program.feeAt protocol line).toNat).sum

namespace Machine

-- The next step runs the instruction of a line: it ends as this instruction leaves the machine,
-- from wherever the instruction was begun.
def Runs (protocol : Protocol) (machine : Machine) (line : Nat) : Prop :=
  machine.contract.program.nextExecutable? machine.contract.ip = some line ∧
    ∃ instruction begun, machine.contract.program.line? line = some (.code instruction) ∧
      machine.advance protocol = perform begun protocol line instruction

theorem Runs.unique {protocol : Protocol} {machine : Machine} {line other : Nat}
    (hruns : Runs protocol machine line) (hother : Runs protocol machine other) :
    line = other :=
  Option.some.inj (hruns.1.symm.trans hother.1)

-- No instruction reports what is reported of one that is not run.
theorem perform_ne_halted (machine : Machine) (protocol : Protocol) (line : Nat)
    (instruction : Instruction) {reason : HaltReason}
    (hreason : reason = .notRunning ∨ reason = .outOfBalance) :
    (machine.perform protocol line instruction).1 ≠ .halted reason := by
  unfold perform
  split
  · rename_i flow after _
    cases flow with
    | next | jump => nofun
    | stop | sleep | retry | finish =>
        rintro ⟨⟩
        simp at hreason
  · rename_i fault after _
    rcases handle_cases after fault with ⟨_, -, -, hhandle⟩ | ⟨-, hhandle⟩
    · rw [hhandle]
      nofun
    · rw [hhandle]
      rintro ⟨⟩
      simp at hreason

-- A step runs an instruction that the contract can pay for, and charges its fee; or it halts, and
-- charges nothing.
theorem runs_or_idles (machine : Machine) (protocol : Protocol) :
    (∃ line, Runs protocol machine line ∧
      machine.contract.program.feeAt protocol line ≤ machine.balance ∧
      Spends (machine.contract.program.feeAt protocol line).toNat 1 machine
        (machine.advance protocol).2) ∨
    ((∀ line, ¬Runs protocol machine line) ∧ Spends 0 0 machine (machine.advance protocol).2 ∧
      (machine.advance protocol).1.isHalt = true) := by
  have hcases := advance_cases machine protocol
  generalize hresult : machine.advance protocol = result at hcases ⊢
  have harrive : ∀ line, Spends 0 0 machine (machine.arrived line) :=
    fun line => Spends.of_contract rfl rfl rfl rfl
  -- Whether the instruction flows on or raises a fault, it is run and paid for.
  have hpays : ∀ {line : Nat} {instruction : Instruction} {fee : Word},
      machine.contract.program.nextExecutable? machine.contract.ip = some line →
      machine.contract.program.line? line = some (.code instruction) →
      fee = protocol.fee (FeeClass.ofInstruction instruction) → fee ≤ machine.balance →
      result = ((machine.arrived line).charged fee).perform protocol line instruction →
      ∃ line, Runs protocol machine line ∧
        machine.contract.program.feeAt protocol line ≤ machine.balance ∧
        Spends (machine.contract.program.feeAt protocol line).toNat 1 machine result.2 := by
    intro line instruction fee hnext hline hfee hpaid hperform
    refine ⟨line, ⟨hnext, instruction, _, hline, hresult.trans hperform⟩, ?_⟩
    rw [Program.feeAt_of_code hline, ← hfee, hperform]
    have hcharged := (harrive line).trans ((machine.arrived line).spends_charged hpaid)
    rw [Nat.zero_add] at hcharged
    exact ⟨hpaid, hcharged.trans_free (spends_perform _ protocol line instruction)⟩
  -- A step that tells why no instruction was run has run none.
  have hnone : ∀ {reason : HaltReason}, (reason = .notRunning ∨ reason = .outOfBalance) →
      result.1 = .halted reason → ∀ line, ¬Runs protocol machine line := by
    rintro reason hreason hhalted line ⟨-, instruction, begun, -, hperform⟩
    refine begun.perform_ne_halted protocol line instruction hreason ?_
    rw [← hperform, hresult, hhalted]
  cases hcases with
  | rests => exact .inr ⟨hnone (.inl rfl) rfl, Spends.refl machine, rfl⟩
  | ends _ hnext =>
      refine .inr ⟨?_, spends_die machine .endOfCode, rfl⟩
      rintro line ⟨hsome, -⟩
      cases hnext.symm.trans hsome
  | stumbles _ hnext hline =>
      refine .inr ⟨?_, (harrive _).trans (spends_die _ _), rfl⟩
      rintro other ⟨hother, instruction, -, hcode, -⟩
      cases hnext.symm.trans hother
      exact hline instruction hcode
  | freezes => exact .inr ⟨hnone (.inr rfl) rfl, Spends.of_contract rfl rfl rfl rfl, rfl⟩
  | flows _ hnext hline hfee hpaid hrun =>
      refine .inl (hpays hnext hline hfee hpaid ?_)
      rw [perform, hrun]
  | faults _ hnext hline hfee hpaid hrun =>
      refine .inl (hpays hnext hline hfee hpaid ?_)
      rw [perform, hrun]

-- A run to its end, with the lines whose instructions it runs in order.
inductive Traces (protocol : Protocol) (breakpoints : Breakpoints) :
    Machine → List Nat → Outcome → Machine → Prop
  | idles {machine next : Machine} {outcome : Outcome}
      (hidles : ∀ line, ¬Runs protocol machine line)
      (hstep : machine.step protocol breakpoints = (outcome, next)) (hend : outcome ≠ .running) :
      Traces protocol breakpoints machine [] outcome next
  | runs {machine next : Machine} {line : Nat} {outcome : Outcome}
      (hruns : Runs protocol machine line)
      (hstep : machine.step protocol breakpoints = (outcome, next)) (hend : outcome ≠ .running) :
      Traces protocol breakpoints machine [line] outcome next
  | more {machine next final : Machine} {line : Nat} {lines : List Nat} {outcome : Outcome}
      (hruns : Runs protocol machine line)
      (hstep : machine.step protocol breakpoints = (.running, next))
      (hrest : Traces protocol breakpoints next lines outcome final) :
      Traces protocol breakpoints machine (line :: lines) outcome final

variable {protocol : Protocol} {breakpoints : Breakpoints}

-- A step that goes on has run an instruction.
theorem exists_runs_of_step {machine next : Machine}
    (hstep : machine.step protocol breakpoints = (.running, next)) :
    ∃ line, Runs protocol machine line := by
  rcases runs_or_idles machine protocol with ⟨line, hruns, -⟩ | ⟨-, -, hhalt⟩
  · exact ⟨line, hruns⟩
  · rw [advance_of_step_running hstep] at hhalt
    cases hhalt

theorem exists_traces_of_loop {count : Nat} {machine final : Machine} {outcome : Outcome}
    (hloop : Loop protocol breakpoints (fun _ => true) count machine outcome final) :
    ∃ lines, Traces protocol breakpoints machine lines outcome final := by
  induction hloop with
  | @last machine _ outcome hstep hend =>
      have hends : outcome ≠ .running := by
        intro hrunning
        cases hend hrunning
      by_cases hruns : ∃ line, Runs protocol machine line
      · obtain ⟨line, hruns⟩ := hruns
        exact ⟨[line], .runs hruns hstep hends⟩
      · exact ⟨[], .idles (not_exists.mp hruns) hstep hends⟩
  | more hstep _ _ ih =>
      obtain ⟨line, hruns⟩ := exists_runs_of_step hstep
      obtain ⟨lines, hrest⟩ := ih
      exact ⟨line :: lines, .more hruns hstep hrest⟩

namespace Traces

variable {machine final : Machine} {lines : List Nat} {outcome : Outcome}

theorem unique (htraces : Traces protocol breakpoints machine lines outcome final)
    {other : List Nat} {reported : Outcome} {last : Machine}
    (hother : Traces protocol breakpoints machine other reported last) : other = lines := by
  induction htraces generalizing other with
  | idles hidles =>
      cases hother with
      | idles => rfl
      | runs hruns | more hruns => exact absurd hruns (hidles _)
  | runs hruns hstep hend =>
      cases hother with
      | idles hidles => exact absurd hruns (hidles _)
      | runs hsame => rw [hruns.unique hsame]
      | more _ hmore =>
          cases hstep.symm.trans hmore
          exact absurd rfl hend
  | more hruns hstep _ ih =>
      cases hother with
      | idles hidles => exact absurd hruns (hidles _)
      | runs _ hlast hend =>
          cases hstep.symm.trans hlast
          exact absurd rfl hend
      | more hsame hmore hrest =>
          cases hstep.symm.trans hmore
          rw [hruns.unique hsame, ih hrest]

-- The contract pays for the lines of its run, each at its price, and for nothing else.
theorem spends (htraces : Traces protocol breakpoints machine lines outcome final) :
    Spends (machine.contract.program.feesOf protocol lines) lines.length machine final := by
  have hone : ∀ {machine next : Machine} {line : Nat} {outcome : Outcome},
      Runs protocol machine line → machine.step protocol breakpoints = (outcome, next) →
      Spends (machine.contract.program.feeAt protocol line).toNat 1 machine next := by
    intro machine next line outcome hruns hstep
    rw [← snd_advance_of_step hstep]
    rcases runs_or_idles machine protocol with ⟨other, hother, -, hspends⟩ | ⟨hidles, -⟩
    · rw [hruns.unique hother]
      exact hspends
    · exact absurd hruns (hidles line)
  induction htraces with
  | @idles machine next outcome hidles hstep =>
      rw [← snd_advance_of_step hstep]
      rcases runs_or_idles machine protocol with ⟨line, hruns, -⟩ | ⟨-, hspends, -⟩
      · exact absurd hruns (hidles line)
      · exact hspends
  | runs hruns hstep => exact hone hruns hstep
  | @more machine next final line lines outcome hruns hstep _ ih =>
      rw [program_of_step hstep] at ih
      rw [List.length_cons, Nat.add_comm]
      exact (hone hruns hstep).trans ih

-- The instructions are run by the steps in turn.
theorem runs_walk (htraces : Traces protocol breakpoints machine lines outcome final)
    {index line : Nat} (hline : lines[index]? = some line) :
    Runs protocol (walk protocol index machine) line := by
  induction htraces generalizing index with
  | idles => cases hline
  | runs hruns =>
      cases index with
      | zero =>
          cases hline
          exact hruns
      | succ index => cases hline
  | more hruns hstep _ ih =>
      cases index with
      | zero =>
          cases hline
          exact hruns
      | succ index =>
          rw [walk_succ, (step_of_running hstep).1]
          exact ih hline

-- A contract that cannot pay stays as its last instruction has left it, but for being frozen.
theorem freezes
    (htraces : Traces protocol breakpoints machine lines (.halted .outOfBalance) final) :
    ∃ line instruction,
      machine.contract.program.line? line = some (.code instruction) ∧
      final.balance < protocol.fee (FeeClass.ofInstruction instruction) ∧
      final = (walk protocol lines.length machine).frozenAt line := by
  generalize hout : Outcome.halted .outOfBalance = outcome at htraces
  induction htraces with
  | @idles machine next outcome hidles hstep =>
      subst hout
      have hadvance := step_eq_halted_iff.mp hstep
      obtain ⟨line, instruction, -, hline, hshort, hfrozen⟩ :=
        advance_of_outOfBalance (congrArg Prod.fst hadvance)
      rw [hadvance] at hfrozen
      subst hfrozen
      exact ⟨line, instruction, hline, hshort, rfl⟩
  | @runs machine next line outcome hruns hstep =>
      subst hout
      obtain ⟨-, instruction, begun, -, hperform⟩ := hruns
      rw [step_eq_halted_iff.mp hstep] at hperform
      exact absurd (congrArg Prod.fst hperform).symm
        (begun.perform_ne_halted protocol line instruction (.inr rfl))
  | @more machine next final line lines outcome _ hstep _ ih =>
      obtain ⟨line, instruction, hline, hshort, hfrozen⟩ := ih hout
      rw [program_of_step hstep] at hline
      refine ⟨line, instruction, hline, hshort, ?_⟩
      rw [List.length_cons, walk_succ, (step_of_running hstep).1]
      exact hfrozen

end Traces

end Machine

end ContractSim
