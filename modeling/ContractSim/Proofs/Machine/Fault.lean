import ContractSim.Proofs.Machine.Step

namespace ContractSim.Machine

-- The machine at a line whose instruction has cost a fee. Only the counters of the contract and
-- the balance of its account are new.
def billed (machine : Machine) (line : Nat) (fee : Word) : Machine where
  contract :=
    { machine.contract with
      ip := line, feesPaid := machine.contract.feesPaid + fee, steps := machine.contract.steps + 1 }
  ledger := machine.ledger.updateAccount machine.contract.id
    ({ · with balance := machine.balance - fee })

-- The machine of a contract that a fault has killed.
def killed (machine : Machine) (fault : Fault) : Machine :=
  { machine with
    contract :=
      { machine.contract with
        dead := true, exception := some fault.message, running := false,
        previousBalance := machine.balance } }

-- The machine of a contract that cannot pay for a line.
def frozenAt (machine : Machine) (line : Nat) : Machine :=
  { machine with
    contract :=
      { machine.contract with
        ip := line, running := false, frozen := true, stopped := true,
        previousBalance := machine.balance } }

theorem charged_arrived {machine : Machine}
    (hhas : machine.ledger.hasAccount machine.contract.id = true) (line : Nat) (fee : Word) :
    (machine.arrived line).charged fee = machine.billed line fee := by
  have hledger : (machine.arrived line).withdrawn fee = (machine.billed line fee).ledger := by
    unfold withdrawn Ledger.setBalance
    rw [Ledger.touch_of_hasAccount]
    · rfl
    · exact hhas
  rw [charged, hledger]
  rfl

-- A handler takes the faults that it can take. All others are deadly.
theorem handle_cases (machine : Machine) (fault : Fault) :
    (∃ handler, machine.contract.err = some handler ∧ fault.isRecoverable = true ∧
      machine.handle fault = (.running, machine.goto handler)) ∨
    ((machine.contract.err = none ∨ fault.isRecoverable = false) ∧
      machine.handle fault = (.halted (.dead fault), machine.killed fault)) := by
  cases herr : machine.contract.err with
  | none =>
      right
      refine ⟨.inl rfl, ?_⟩
      simp only [handle, herr]
      rfl
  | some handler =>
      cases hrecoverable : fault.isRecoverable with
      | true =>
          left
          refine ⟨handler, rfl, rfl, ?_⟩
          simp only [handle, herr, hrecoverable, ite_true]
      | false =>
          right
          refine ⟨.inr rfl, ?_⟩
          simp only [handle, herr, hrecoverable, Bool.false_eq_true, ite_false]
          rfl

-- Faults of instructions are what is left to handle once the fee is paid.
theorem advance_of_fault {machine after : Machine} {protocol : Protocol} {line : Nat}
    {instruction : Instruction} {fee : Word} {fault : Fault}
    (hhas : machine.ledger.hasAccount machine.contract.id = true)
    (hrunning : machine.contract.running = true)
    (hnext : machine.contract.program.nextExecutable? machine.contract.ip = some line)
    (hline : machine.contract.program.line? line = some (.code instruction))
    (hfee : fee = protocol.fee (FeeClass.ofInstruction instruction))
    (hpaid : fee ≤ machine.balance)
    (hrun : (execute protocol line instruction).run (machine.billed line fee) =
      (.error fault, after)) :
    machine.advance protocol = (machine.billed line fee).handle fault := by
  rw [← charged_arrived hhas] at hrun ⊢
  have hcases := advance_cases machine protocol
  generalize machine.advance protocol = result at hcases
  cases hcases with
  | rests hrests =>
      rw [hrests] at hrunning
      cases hrunning
  | ends _ hends =>
      rw [hends] at hnext
      cases hnext
  | stumbles _ hother hcode =>
      rw [hother] at hnext
      cases hnext
      exact absurd hline (hcode instruction)
  | freezes _ hother hcode hshort =>
      rw [hother] at hnext
      cases hnext
      rw [hcode] at hline
      cases hline
      rw [← hfee] at hshort
      exact absurd hpaid (UInt64.not_le.mpr hshort)
  | flows _ hother hcode hprice _ hflow =>
      rw [hother] at hnext
      cases hnext
      rw [hcode] at hline
      cases hline
      rw [hprice, ← hfee, hrun] at hflow
      cases hflow
  | faults _ hother hcode hprice _ hfault =>
      rw [hother] at hnext
      cases hnext
      rw [hcode] at hline
      cases hline
      rw [hprice, ← hfee] at hfault ⊢
      rw [hrun] at hfault
      cases hfault
      rfl

-- Only a contract that cannot pay for its next line freezes.
theorem advance_of_outOfBalance {machine : Machine} {protocol : Protocol}
    (hout : (machine.advance protocol).1 = .halted .outOfBalance) :
    ∃ line instruction,
      machine.contract.program.nextExecutable? machine.contract.ip = some line ∧
      machine.contract.program.line? line = some (.code instruction) ∧
      machine.balance < protocol.fee (FeeClass.ofInstruction instruction) ∧
      (machine.advance protocol).2 = machine.frozenAt line := by
  have hcases := advance_cases machine protocol
  generalize machine.advance protocol = result at hcases hout ⊢
  cases hcases with
  | rests | ends | stumbles => cases hout
  | freezes _ hnext hline hshort => exact ⟨_, _, hnext, hline, hshort, rfl⟩
  | @flows _ _ _ _ flow =>
      cases flow with
      | next | jump | stop | sleep | retry | finish => cases hout
  | @faults _ line _ fee fault =>
      rcases handle_cases ((machine.arrived line).charged fee) fault with
        ⟨handler, -, -, hhandle⟩ | ⟨-, hhandle⟩
      · rw [hhandle] at hout
        cases hout
      · rw [hhandle] at hout
        cases hout

-- Faults are atomic: an instruction that raises one has changed nothing, so that its step has cost
-- the fee and goes to the handler or kills the contract, which notes its balance as every halt
-- does. Calls raise no fault, and a contract that cannot pay is not charged.
theorem faults_are_atomic (machine : Machine)
    (hhas : machine.ledger.hasAccount machine.contract.id = true) :
    (∀ protocol line instruction fault after,
      (execute protocol line instruction).run machine = (.error fault, after) →
        after = machine) ∧
    (∀ protocol function first second, ∃ answer after,
      (call protocol function first second).run machine = (.ok answer, after)) ∧
    (∀ protocol breakpoints line instruction fault after,
      machine.contract.running = true →
      machine.contract.program.nextExecutable? machine.contract.ip = some line →
      machine.contract.program.line? line = some (.code instruction) →
      protocol.fee (FeeClass.ofInstruction instruction) ≤ machine.balance →
      (execute protocol line instruction).run
        (machine.billed line (protocol.fee (FeeClass.ofInstruction instruction))) =
          (.error fault, after) →
      (∃ handler outcome,
        machine.contract.err = some handler ∧ fault.isRecoverable = true ∧
        outcome.isHalt = false ∧
        machine.step protocol breakpoints = (outcome,
          (machine.billed line (protocol.fee (FeeClass.ofInstruction instruction))).goto
            handler)) ∨
      ((machine.contract.err = none ∨ fault.isRecoverable = false) ∧
        machine.step protocol breakpoints = (.halted (.dead fault),
          (machine.billed line (protocol.fee (FeeClass.ofInstruction instruction))).killed
            fault))) ∧
    ∀ protocol breakpoints,
      (machine.step protocol breakpoints).1 = .halted .outOfBalance →
      ∃ line instruction,
        machine.contract.program.nextExecutable? machine.contract.ip = some line ∧
        machine.contract.program.line? line = some (.code instruction) ∧
        machine.balance < protocol.fee (FeeClass.ofInstruction instruction) ∧
        (machine.step protocol breakpoints).2 = machine.frozenAt line := by
  refine ⟨?_, ?_, ?_, ?_⟩
  · intro protocol line instruction fault after hrun
    exact atomic_execute protocol line instruction machine fault after hrun
  · intro protocol function first second
    exact answers_call protocol function first second machine
  · intro protocol breakpoints line instruction fault after hrunning hnext hline hpaid hrun
    have hadvance := advance_of_fault hhas hrunning hnext hline rfl hpaid hrun
    rcases handle_cases (machine.billed line
        (protocol.fee (FeeClass.ofInstruction instruction))) fault with
      ⟨handler, herr, hrecoverable, hhandle⟩ | ⟨hfatal, hhandle⟩
    · left
      rw [hhandle] at hadvance
      obtain ⟨outcome, hhalt, hstep⟩ := step_of_advance_running hadvance breakpoints
      exact ⟨handler, outcome, herr, hrecoverable, hhalt, hstep⟩
    · right
      rw [hhandle] at hadvance
      exact ⟨hfatal, step_eq_halted_iff.mpr hadvance⟩
  · intro protocol breakpoints hout
    have hadvance := step_eq_halted_iff.mp (Prod.ext hout rfl)
    have hfrozen := advance_of_outOfBalance (congrArg Prod.fst hadvance)
    rw [hadvance] at hfrozen
    exact hfrozen

-- A contract that divides by zero.
def stumbling : Machine where
  contract :=
    { id := 7, creator := 5, program := Program.parse "DIV @a $a",
      memory := ((Memory.empty 1).declare "a").2, userStack := Stack.empty .user 1,
      codeStack := Stack.empty .code 1, ip := 0, pcs := 0, previousBalance := 1000000,
      activationAmount := 0, creationBlock := 0, dataPages := 1, userStackPages := 1,
      codeStackPages := 1 }
  ledger := { Ledger.start 1 1 with accounts := [{ id := 7, balance := 1000000, assets := [] }] }

theorem faults_are_atomic_stumbling :
    stumbling.ledger.hasAccount stumbling.contract.id = true ∧
      stumbling.step {} [] =
        (.halted (.dead .divisionByZero), (stumbling.billed 0 735000).killed .divisionByZero) ∧
      (stumbling.step { feePerUnit := 2000000 } []).2 = stumbling.frozenAt 0 := by
  have hhas : stumbling.ledger.hasAccount stumbling.contract.id = true := by decide +kernel
  have hnext : stumbling.contract.program.nextExecutable? stumbling.contract.ip = some 0 := by
    decide +kernel
  obtain ⟨-, -, hfaults, hfreezes⟩ := faults_are_atomic stumbling hhas
  refine ⟨hhas, ?_, ?_⟩
  · rcases hfaults {} [] 0 (.arith .div "a" "a") .divisionByZero (stumbling.billed 0 735000)
        rfl hnext (by decide +kernel) (by decide +kernel) rfl with
      ⟨handler, -, herr, -⟩ | ⟨-, hstep⟩
    · cases herr
    · exact hstep
  · obtain ⟨line, -, hother, -, -, hstep⟩ :=
      hfreezes { feePerUnit := 2000000 } [] (by decide +kernel)
    rw [hnext] at hother
    cases hother
    exact hstep

-- The fee and the flags are not all that a deadly step changes: the noted balance is new as well.
theorem dying_notes_balance :
    (stumbling.step {} []).1 = .halted (.dead .divisionByZero) ∧
      stumbling.contract.previousBalance = 1000000 ∧
      (stumbling.step {} []).2.contract.previousBalance = 265000 := by
  decide +kernel

end ContractSim.Machine
