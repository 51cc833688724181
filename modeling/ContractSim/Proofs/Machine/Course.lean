import ContractSim.Proofs.Contract.Load
import ContractSim.Proofs.Machine.Control
import ContractSim.Proofs.Machine.Fault

namespace ContractSim

namespace Machine

-- A jump with a condition that holds and a label that is defined is made. A call of a subroutine
-- needs room for its return line.
theorem execute_of_goal (machine : Machine) {instruction : Instruction} {label : String}
    {target : Nat} (hgoal : instruction.goal? machine.contract.memory = some label)
    (htarget : machine.contract.program.label? label = some target)
    (hroom : instruction = .jumpSub label →
      machine.contract.codeStack.depth < machine.contract.codeStack.limit)
    (protocol : Protocol) (line : Nat) :
    ∃ after, (execute protocol line instruction).run machine = (.ok (.jump target), after) := by
  have hjumpIf : ∀ condition, condition = true →
      (jumpIf condition label).run machine = (.ok (.jump target), machine) := by
    rintro _ rfl
    rw [jumpIf, if_pos rfl, Action.run_bind, run_resolve, htarget]
    rfl
  cases instruction with
  | jump other =>
      cases hgoal
      refine ⟨machine, ?_⟩
      rw [execute, Action.run_bind, run_resolve, htarget]
      rfl
  | jumpSub other =>
      cases hgoal
      have hpush : machine.contract.codeStack.push (line + 1) =
          .ok { machine.contract.codeStack with
            entries := (line + 1) :: machine.contract.codeStack.entries } :=
        if_neg (Nat.not_le.mpr (hroom rfl))
      simp only [execute, Action.run_bind, Action.run_get, run_resolve, htarget, run_orFault, hpush,
        run_modifyContract, Action.run_pure]
      exact ⟨_, rfl⟩
  | branchZero source other =>
      simp only [Instruction.goal?] at hgoal
      split_ifs at hgoal with hzero
      cases hgoal
      refine ⟨machine, ?_⟩
      simp only [execute, Action.run_bind, run_readCell]
      exact hjumpIf _ (beq_iff_eq.mpr hzero)
  | branchNotZero source other =>
      simp only [Instruction.goal?] at hgoal
      split_ifs at hgoal with hother
      cases hgoal
      refine ⟨machine, ?_⟩
      simp only [execute, Action.run_bind, run_readCell]
      exact hjumpIf _ (bne_iff_ne.mpr hother)
  | branch condition left right other =>
      simp only [Instruction.goal?] at hgoal
      split_ifs at hgoal with hholds
      cases hgoal
      refine ⟨machine, ?_⟩
      simp only [execute, Action.run_bind, run_readCell]
      exact hjumpIf _ hholds
  | _ => cases hgoal

theorem lands_goto {machine : Machine} {source : String} {target : Nat}
    (hprogram : machine.contract.program = Program.parse source)
    (htarget : target < Source.length source) :
    Source.Lands source target (machine.goto target).contract.ip := by
  rw [goto, Contract.goto, hprogram]
  exact Source.lands_landing (Nat.le_of_lt htarget)

section Controlled

variable {machine : Machine} {source : String} {instruction : Instruction}
  (hcontrolled : machine.contract.Controlled source)
  (hline : Source.line? source machine.contract.ip = some (.code instruction))

include hcontrolled hline

-- A running contract that can pay runs the instruction where it stands.
theorem advance_eq_perform {protocol : Protocol} (hrunning : machine.contract.running = true)
    (hpaid : protocol.fee (FeeClass.ofInstruction instruction) ≤ machine.balance) :
    machine.advance protocol =
      (machine.charged (protocol.fee (FeeClass.ofInstruction instruction))).perform protocol
        machine.contract.ip instruction := by
  have hnext := Source.nextExecutable?_self (⟨_, hline, rfl⟩ : Source.Executable source _)
  rw [← Source.line?_parse, ← hcontrolled.program] at hline
  rw [← hcontrolled.program] at hnext
  have hadvance : machine.advance protocol =
      (machine.arrived machine.contract.ip).chargeAndPerform protocol machine.contract.ip
        instruction := by
    simp only [advance, hrunning, Bool.not_true, Bool.false_eq_true, ite_false, hnext, hline,
      arrived]
  rw [hadvance, chargeAndPerform_eq]
  exact if_neg (UInt64.not_lt.mpr hpaid)

-- A jump that is made goes where a scan of the source goes.
theorem lands_of_goal {protocol : Protocol} (hrunning : machine.contract.running = true)
    (hpaid : protocol.fee (FeeClass.ofInstruction instruction) ≤ machine.balance)
    {label : String} {target : Nat}
    (hgoal : instruction.goal? machine.contract.memory = some label)
    (hdefines : Source.Defines source label target)
    (hroom : instruction = .jumpSub label →
      machine.contract.codeStack.depth < machine.contract.codeStack.limit) :
    ∃ next, machine.advance protocol = (.running, next) ∧
      Source.Lands source target next.contract.ip := by
  have hlabel := Source.label?_of_defines hdefines
  rw [← hcontrolled.program] at hlabel
  obtain ⟨after, hrun⟩ := execute_of_goal
    (machine.charged (protocol.fee (FeeClass.ofInstruction instruction))) hgoal hlabel hroom
    protocol machine.contract.ip
  have heffect := effect_execute
    (machine.charged (protocol.fee (FeeClass.ofInstruction instruction))) protocol
    machine.contract.ip instruction
  rw [hrun] at heffect
  have hprogram : after.contract.program = Program.parse source := by
    rw [(frame_effect heffect).contract]
    exact hcontrolled.program
  refine ⟨after.goto target, ?_, ?_⟩
  · rw [advance_eq_perform hcontrolled hline hrunning hpaid, perform, hrun]
    rfl
  · exact lands_goto hprogram hdefines.lt_length

-- So does a fault that a handler takes.
theorem lands_of_fault {protocol : Protocol} (hrunning : machine.contract.running = true)
    (hpaid : protocol.fee (FeeClass.ofInstruction instruction) ≤ machine.balance)
    {fault : Fault} {after : Machine} {handler : Nat}
    (hrun : (execute protocol machine.contract.ip instruction).run
      (machine.charged (protocol.fee (FeeClass.ofInstruction instruction))) =
        (.error fault, after))
    (hrecoverable : fault.isRecoverable = true) (herr : machine.contract.err = some handler) :
    ∃ label next, Source.Defines source label handler ∧
      machine.advance protocol = (.running, next) ∧
      Source.Lands source handler next.contract.ip := by
  obtain ⟨label, hdefines⟩ := hcontrolled.control.err handler herr
  obtain rfl := atomic_execute protocol machine.contract.ip instruction _ _ _ hrun
  have hperform := advance_eq_perform hcontrolled hline hrunning hpaid
  rw [perform, hrun] at hperform
  rcases handle_cases (machine.charged (protocol.fee (FeeClass.ofInstruction instruction)))
    fault with ⟨found, hfound, -, hhandle⟩ | ⟨hdeadly, -⟩
  · cases herr.symm.trans hfound
    refine ⟨label, _, hdefines, hperform.trans hhandle, ?_⟩
    exact lands_goto hcontrolled.program hdefines.lt_length
  · rcases hdeadly with hnone | hdeadly
    · cases herr.symm.trans hnone
    · rw [hdeadly] at hrecoverable
      cases hrecoverable

end Controlled

-- A step that kills or freezes the contract leaves control where it was.
theorem ip_of_halt {machine next : Machine} {source : String} {protocol : Protocol}
    {reason : HaltReason} (hcontrolled : machine.contract.Controlled source)
    (hadvance : machine.advance protocol = (.halted reason, next))
    (hreason : reason = .outOfBalance ∨ ∃ fault, reason = .dead fault) :
    next.contract.ip = machine.contract.ip := by
  have hsame : ∀ line,
      machine.contract.program.nextExecutable? machine.contract.ip = some line →
      line = machine.contract.ip := by
    intro line hnext
    rw [hcontrolled.program] at hnext
    exact hcontrolled.ip.eq_of_nextExecutable? hnext
  have hcases := advance_cases machine protocol
  rw [hadvance] at hcases
  generalize hresult : (Outcome.halted reason, next) = result at hcases
  cases hcases with
  | rests | ends =>
      cases hresult
      rfl
  | stumbles _ hnext | freezes _ hnext =>
      cases hresult
      exact hsame _ hnext
  | @flows _ _ _ _ flow =>
      -- No flow is a death or a freeze.
      cases flow with
      | next | jump => cases hresult
      | stop | sleep | retry | finish =>
          cases hresult
          obtain hout | ⟨fault, hdead⟩ := hreason
          · cases hout
          · cases hdead
  | @faults _ line _ fee fault hnext =>
      rcases handle_cases ((machine.arrived line).charged fee) fault with
        ⟨handler, -, -, hhandle⟩ | ⟨-, hhandle⟩
      · rw [hhandle] at hresult
        cases hresult
      · rw [hhandle] at hresult
        cases hresult
        exact hsame _ hnext

end Machine

namespace Contract

-- A contract that is loaded stands at its first executable line.
theorem controlled_load {deployment : Deployment} {protocol : Protocol} {height : Word}
    {contract : Contract} (hload : load deployment protocol height = .ok contract) :
    contract.Controlled deployment.source := by
  obtain ⟨header, first, id, creator, activationAmount, dataPages, userStackPages,
    codeStackPages, -, hfirst, -, rfl⟩ := exists_load_eq hload
  have hstands : Source.Stands deployment.source first :=
    .inl (Source.executable_of_nextExecutable? hfirst).1
  exact ⟨rfl, hstands,
    { pcs := hstands
      err := nofun
      returns := nofun
      userStack := .empty .user userStackPages
      codeStack := .empty .code codeStackPages }⟩

-- The contracts that come of a deployment by steps, on whatever ledger, and by activations. The
-- id, the noted balance and the queue are also changed from outside.
inductive Yields (deployment : Deployment) : Contract → Prop
  | loaded {protocol : Protocol} {height : Word} {contract : Contract}
      (hload : load deployment protocol height = .ok contract) : Yields deployment contract
  | settled {contract : Contract} (hyields : Yields deployment contract) (id previousBalance : Word)
      (queue : List Transaction) : Yields deployment { contract with id, previousBalance, queue }
  | stepped {contract : Contract} (hyields : Yields deployment contract) (ledger : Ledger)
      (protocol : Protocol) (breakpoints : Breakpoints) :
      Yields deployment ((Machine.mk contract ledger).step protocol breakpoints).2.contract
  | activated {contract : Contract} (hyields : Yields deployment contract) :
      Yields deployment contract.reactivate

theorem Yields.controlled {deployment : Deployment} {contract : Contract}
    (hyields : Yields deployment contract) : contract.Controlled deployment.source := by
  induction hyields with
  | loaded hload => exact controlled_load hload
  | settled _ id previousBalance queue ih | activated _ ih => exact ⟨ih.program, ih.ip, ih.control⟩
  | @stepped contract _ ledger protocol breakpoints ih =>
      have hcontrolled : (Machine.mk contract ledger).contract.Controlled deployment.source := ih
      rw [← Machine.step_snd, Machine.step_nil]
      exact Machine.controlled_advance hcontrolled protocol

-- Control is always well formed. It is at an executable line or at the end,
-- and so is the line of a new start; the handler is where a label is first defined, returns go
-- behind calls, and the stacks are within their pages. Jumps that are taken, and faults that the
-- handler takes, land where a plain scan of the source finds the next executable line from the
-- label on; a step that kills or freezes does not move control at all.
theorem control_is_well_formed {deployment : Deployment} {contract : Contract}
    (hyields : Yields deployment contract) :
    Source.Stands deployment.source contract.ip ∧
    Source.Stands deployment.source contract.pcs ∧
    (∀ handler, contract.err = some handler →
      ∃ label, Source.Defines deployment.source label handler) ∧
    (∀ entry ∈ contract.codeStack.entries, ∃ line label,
      Source.line? deployment.source line = some (.code (.jumpSub label)) ∧ entry = line + 1) ∧
    contract.userStack.depth ≤ 16 * contract.userStackPages.toNat ∧
    contract.codeStack.depth ≤ 16 * contract.codeStackPages.toNat ∧
    ∀ ledger protocol breakpoints,
      (∀ instruction, contract.running = true →
        Source.line? deployment.source contract.ip = some (.code instruction) →
        protocol.fee (FeeClass.ofInstruction instruction) ≤ ledger.balance contract.id →
        (∀ label target, instruction.goal? contract.memory = some label →
          Source.Defines deployment.source label target →
          (instruction = .jumpSub label →
            contract.codeStack.depth < contract.codeStack.limit) →
          ∃ outcome next, outcome.isHalt = false ∧
            (Machine.mk contract ledger).step protocol breakpoints = (outcome, next) ∧
            Source.Lands deployment.source target next.contract.ip) ∧
        ∀ fault after handler,
          (Machine.execute protocol contract.ip instruction).run
            ((Machine.mk contract ledger).charged
              (protocol.fee (FeeClass.ofInstruction instruction))) = (.error fault, after) →
          fault.isRecoverable = true → contract.err = some handler →
          ∃ label outcome next, Source.Defines deployment.source label handler ∧
            outcome.isHalt = false ∧
            (Machine.mk contract ledger).step protocol breakpoints = (outcome, next) ∧
            Source.Lands deployment.source handler next.contract.ip) ∧
      ∀ reason next,
        (Machine.mk contract ledger).step protocol breakpoints = (.halted reason, next) →
        (reason = .outOfBalance ∨ ∃ fault, reason = .dead fault) →
        next.contract.ip = contract.ip := by
  have hcontrolled := hyields.controlled
  have hsound := hcontrolled.control
  refine ⟨hcontrolled.ip, hsound.pcs, hsound.err, hsound.returns,
    hsound.userStack.1.trans hsound.userStack.2, hsound.codeStack.1.trans hsound.codeStack.2, ?_⟩
  intro ledger protocol breakpoints
  have hcontrolled : (Machine.mk contract ledger).contract.Controlled deployment.source :=
    hcontrolled
  refine ⟨?_, ?_⟩
  · intro instruction hrunning hline hpaid
    refine ⟨?_, ?_⟩
    · intro label target hgoal hdefines hroom
      obtain ⟨next, hadvance, hlands⟩ := Machine.lands_of_goal hcontrolled hline hrunning
        hpaid hgoal hdefines hroom
      obtain ⟨outcome, hgoes, hstep⟩ := Machine.step_of_advance_running hadvance breakpoints
      exact ⟨outcome, next, hgoes, hstep, hlands⟩
    · intro fault after handler hrun hrecoverable herr
      obtain ⟨label, next, hdefines, hadvance, hlands⟩ := Machine.lands_of_fault hcontrolled hline
        hrunning hpaid hrun hrecoverable herr
      obtain ⟨outcome, hgoes, hstep⟩ := Machine.step_of_advance_running hadvance breakpoints
      exact ⟨label, outcome, next, hdefines, hgoes, hstep, hlands⟩
  · intro reason next hstep hreason
    exact Machine.ip_of_halt hcontrolled (Machine.step_eq_halted_iff.mp hstep) hreason

-- A contract that calls a subroutine which is behind other labels and a blank line.
def calling : Deployment where
  source := "again:\nJSR :sub\nFIN\nother:\nsub:\n\nRET\nsub:"

theorem control_is_well_formed_calling :
    ∃ contract, load calling {} 1 = .ok contract ∧ Yields calling contract ∧
      Source.Defines calling.source "sub" 4 ∧
      ∃ outcome next, outcome.isHalt = false ∧
        (Machine.mk contract (Ledger.start 1 1)).step { feePerUnit := 0 } [] = (outcome, next) ∧
        Source.Lands calling.source 4 next.contract.ip ∧
        Source.Stands calling.source next.contract.ip ∧
        ∀ entry ∈ next.contract.codeStack.entries, ∃ line label,
          Source.line? calling.source line = some (.code (.jumpSub label)) ∧
            entry = line + 1 := by
  have hdefines : Source.Defines calling.source "sub" 4 :=
    ⟨by decide +kernel, by decide +kernel⟩
  have hline : Source.line? calling.source 1 = some (.code (.jumpSub "sub")) := by decide +kernel
  have hloads : ((load calling {} 1).toOption.map fun contract =>
      (contract.ip, contract.running, contract.codeStack)) =
        some (1, true, Stack.empty .code 1) := by decide +kernel
  cases hload : load calling {} 1 with
  | error error =>
      rw [hload] at hloads
      cases hloads
  | ok contract =>
      rw [hload] at hloads
      simp only [Except.toOption, Option.map_some, Option.some.injEq, Prod.mk.injEq] at hloads
      obtain ⟨hip, hrunning, hstack⟩ := hloads
      have hyields : Yields calling contract := .loaded hload
      obtain ⟨-, -, -, -, -, -, hsteps⟩ := control_is_well_formed hyields
      obtain ⟨hgoes, -⟩ := hsteps (Ledger.start 1 1) { feePerUnit := 0 } []
      obtain ⟨hjumps, -⟩ := hgoes (.jumpSub "sub") hrunning (by rw [hip, hline])
        UInt64.zero_le
      obtain ⟨outcome, next, hgoes, hstep, hlands⟩ := hjumps "sub" 4 rfl hdefines (by
        intro
        rw [hstack]
        decide)
      have hnext : Yields calling next.contract := by
        have hstepped := hyields.stepped (Ledger.start 1 1) { feePerUnit := 0 } []
        rwa [hstep] at hstepped
      obtain ⟨hip, -, -, hreturns, -⟩ := control_is_well_formed hnext
      exact ⟨contract, rfl, hyields, hdefines, outcome, next, hgoes, hstep, hlands, hip, hreturns⟩

end Contract

end ContractSim
