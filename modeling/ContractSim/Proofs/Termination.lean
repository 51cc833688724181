import ContractSim.Debugger
import ContractSim.Proofs.Machine.Loop
import ContractSim.Settings.Basic

namespace ContractSim

-- Settings that are accepted have no free instruction. Fees are cut off at the largest word, and
-- never to zero.
theorem Settings.leastFee_pos (settings : Settings) (hvalid : settings.validate = .ok ()) :
    0 < settings.protocol.leastFee := by
  unfold validate at hvalid
  dsimp only at hvalid
  split_ifs at hvalid with hunit hunits
  rw [not_or] at hunits
  have hstandard : 0 < (settings.protocol.fee .standard).toNat :=
    Word.saturatingMul_pos hunits.1 hunit
  have hapi : 0 < (settings.protocol.fee .api).toNat :=
    Word.saturatingMul_pos hunits.2 hunit
  unfold Protocol.leastFee
  omega

namespace Machine

variable {protocol : Protocol}

theorem balance_step_lt (hfee : 0 < protocol.leastFee) (machine : Machine)
    (breakpoints : Breakpoints)
    (hrunning : (machine.step protocol breakpoints).1.isHalt = false) :
    (machine.step protocol breakpoints).2.balance < machine.balance := by
  rw [UInt64.lt_iff_toNat_lt]
  rcases spends_step machine protocol breakpoints with ⟨-, hhalt⟩ | ⟨fee, hleast, hspends⟩
  · rw [hrunning] at hhalt
    cases hhalt
  · have hbalance := hspends.balance
    omega

theorem balance_execute_le (protocol : Protocol) (machine : Machine) (line : Nat)
    (instruction : Instruction) :
    ((execute protocol line instruction).run machine).2.balance ≤ machine.balance :=
  UInt64.le_iff_toNat_le.mpr
    (spends_effect (effect_execute machine protocol line instruction)).balance

theorem balance_call_le (protocol : Protocol) (machine : Machine) (function : ApiFunction)
    (first second : Word) :
    ((call protocol function first second).run machine).2.balance ≤ machine.balance :=
  UInt64.le_iff_toNat_le.mpr
    (spends_callEffect (callEffect_call machine protocol function first second)).balance

-- The balance falls with every step that runs on, so the steps come to an end.
theorem exists_stepWhile_eq (hfee : 0 < protocol.leastFee) (breakpoints : Breakpoints)
    (goOn : Machine → Bool) (machine : Machine) :
    ∃ outcome final, stepWhile protocol breakpoints goOn machine = some (outcome, final) := by
  induction hbalance : machine.balance.toNat using Nat.strong_induction_on generalizing machine with
  | _ balance ih =>
      rw [stepWhile]
      rcases hstep : machine.step protocol breakpoints with ⟨outcome, next⟩
      cases outcome with
      | running =>
          have hlower := balance_step_lt hfee machine breakpoints (by rw [hstep]; rfl)
          rw [hstep, UInt64.lt_iff_toNat_lt, hbalance] at hlower
          by_cases hon : goOn next = true
          · simp only [hon, ite_true]
            exact ih next.balance.toNat hlower next rfl
          · simp only [hon, Bool.false_eq_true, ite_false]
            exact ⟨.running, next, rfl⟩
      | breakpoint line => exact ⟨.breakpoint line, next, rfl⟩
      | halted reason => exact ⟨.halted reason, next, rfl⟩

-- A run that reports that the contract plainly runs is one without a result.
theorem outcome_run_eq_running_iff (machine : Machine) (breakpoints : Breakpoints) :
    (machine.run protocol breakpoints).1.outcome = .running ↔
      stepWhile protocol breakpoints (fun _ => true) machine = none := by
  have houtcome : (machine.run protocol breakpoints).1.outcome =
      ((stepWhile protocol breakpoints (fun _ => true) machine).getD (.running, machine)).1 := rfl
  rw [houtcome]
  cases hresult : stepWhile protocol breakpoints (fun _ => true) machine with
  | none => simp
  | some result =>
      obtain ⟨count, hloop⟩ := Loop.of_stepWhile hresult
      simp [hloop.ne_running]

theorem outcome_run_ne_running (hfee : 0 < protocol.leastFee) (machine : Machine)
    (breakpoints : Breakpoints) : (machine.run protocol breakpoints).1.outcome ≠ .running := by
  rw [Ne, outcome_run_eq_running_iff]
  obtain ⟨outcome, final, hresult⟩ :=
    exists_stepWhile_eq hfee breakpoints (fun _ => true) machine
  rw [hresult]
  exact Option.some_ne_none _

-- The balance pays for every instruction of a slice.
theorem steps_stepWhile_le (hfee : 0 < protocol.leastFee) {breakpoints : Breakpoints}
    {goOn : Machine → Bool} {machine final : Machine} {outcome : Outcome}
    (hresult : stepWhile protocol breakpoints goOn machine = some (outcome, final)) :
    final.contract.steps - machine.contract.steps ≤
      machine.balance.toNat / protocol.leastFee := by
  obtain ⟨count, hloop⟩ := Loop.of_stepWhile hresult
  obtain ⟨fees, steps, -, hfees, hspends⟩ := hloop.spends
  have hbalance := hspends.balance
  rw [hspends.steps_eq, Nat.le_div_iff_mul_le hfee]
  omega

theorem steps_run_le (hfee : 0 < protocol.leastFee) (machine : Machine)
    (breakpoints : Breakpoints) :
    (machine.run protocol breakpoints).1.steps ≤ machine.balance.toNat / protocol.leastFee := by
  obtain ⟨hsteps, hspends⟩ := spends_run machine protocol breakpoints
  have hbalance := hspends.balance
  rw [Nat.le_div_iff_mul_le hfee]
  omega

-- The instructions of a slice can be counted in a word.
theorem steps_slice_lt (hfee : 0 < protocol.leastFee) (machine : Machine)
    (breakpoints : Breakpoints) (goOn : Machine → Bool) :
    (machine.slice protocol breakpoints goOn).2.contract.steps - machine.contract.steps <
      Word.modulus := by
  obtain ⟨fees, steps, hfees, hspends⟩ := spends_slice machine protocol breakpoints goOn
  have hbalance := hspends.balance
  have hword := machine.balance.toNat_lt_modulus
  have hsteps : steps ≤ steps * protocol.leastFee := Nat.le_mul_of_pos_right steps hfee
  rw [hspends.steps_eq]
  omega

end Machine

theorem Debugger.stepWhile_eq {debugger : Debugger} {simulation : Simulation}
    {contract : Contract} {goOn : Nat → Bool} {outcome : Outcome} {final : Machine}
    (hresult : Machine.stepWhile simulation.protocol (debugger.breakpoints contract.id)
      (fun machine => goOn machine.contract.codeStack.depth) (simulation.machine contract) =
        some (outcome, final)) :
    debugger.stepWhile simulation contract goOn =
      (statusOf final.contract.ip (final.contract.steps - contract.steps) outcome,
        simulation.install contract.id final) := by
  simp only [stepWhile, Machine.slice, hresult, Option.getD_some]

-- Every run of a block ends, whatever the runs before it have left of the ledger.
theorem Simulation.outcome_runContracts_ne_running {protocol : Protocol}
    (hfee : 0 < protocol.leastFee) (table : BreakpointTable) (ledger : Ledger)
    (contracts : List Contract) :
    ∀ run ∈ (runContracts protocol table ledger contracts).1, run.result.outcome ≠ .running := by
  induction contracts generalizing ledger with
  | nil => exact fun _ hmem => absurd hmem List.not_mem_nil
  | cons contract rest ih =>
      simp only [runContracts]
      split_ifs
      · intro run hmem
        rcases List.mem_cons.mp hmem with rfl | hrest
        · exact Machine.outcome_run_ne_running hfee _ _
        · exact ih _ run hrest
      · exact ih ledger

-- All that runs instructions comes to an end.
structure SlicesEnd (protocol : Protocol) : Prop where
  -- Running on, also onto a breakpoint, costs something.
  step : ∀ (machine : Machine) (breakpoints : Breakpoints),
    (machine.step protocol breakpoints).1.isHalt = false →
      (machine.step protocol breakpoints).2.balance < machine.balance
  -- Instructions and built-in functions never bring the contract anything.
  execute : ∀ (machine : Machine) (line : Nat) (instruction : Instruction),
    ((Machine.execute protocol line instruction).run machine).2.balance ≤ machine.balance
  call : ∀ (machine : Machine) (function : ApiFunction) (first second : Word),
    ((Machine.call protocol function first second).run machine).2.balance ≤ machine.balance
  -- Steps under any test have a result.
  stepWhile : ∀ (machine : Machine) (breakpoints : Breakpoints) (goOn : Machine → Bool),
    ∃ outcome final, Machine.stepWhile protocol breakpoints goOn machine = some (outcome, final) ∧
      final.contract.steps - machine.contract.steps ≤ machine.balance.toNat / protocol.leastFee
  -- A run without a result would be reported as plainly running.
  run : ∀ (machine : Machine) (breakpoints : Breakpoints),
    (machine.run protocol breakpoints).1.outcome ≠ .running ∧
      (machine.run protocol breakpoints).1.steps ≤ machine.balance.toNat / protocol.leastFee
  stepOver : ∀ (debugger : Debugger) (simulation : Simulation) (id : Word) (target : Contract),
    simulation.protocol = protocol → simulation.contract? id = some target →
      ∃ outcome final, Machine.stepWhile protocol (debugger.breakpoints target.id)
          (fun machine => Debugger.isAtCall target &&
            target.codeStack.depth < machine.contract.codeStack.depth)
          (simulation.machine target) = some (outcome, final) ∧
        debugger.stepOver simulation id =
          .ok (Debugger.statusOf final.contract.ip (final.contract.steps - target.steps) outcome,
            simulation.install target.id final)
  stepOut : ∀ (debugger : Debugger) (simulation : Simulation) (id : Word) (target : Contract),
    simulation.protocol = protocol → simulation.contract? id = some target →
      ∃ outcome final, Machine.stepWhile protocol (debugger.breakpoints target.id)
          (fun machine => target.codeStack.depth ≤ machine.contract.codeStack.depth)
          (simulation.machine target) = some (outcome, final) ∧
        debugger.stepOut simulation id =
          .ok (Debugger.statusOf final.contract.ip (final.contract.steps - target.steps) outcome,
            simulation.install target.id final)
  runAll : ∀ (simulation : Simulation) (table : BreakpointTable), simulation.protocol = protocol →
    ∀ run ∈ (simulation.runAll table).1, run.result.outcome ≠ .running

theorem slicesEnd_of_leastFee_pos {protocol : Protocol} (hfee : 0 < protocol.leastFee) :
    SlicesEnd protocol := by
  constructor
  · exact fun machine breakpoints => Machine.balance_step_lt hfee machine breakpoints
  · exact Machine.balance_execute_le protocol
  · exact Machine.balance_call_le protocol
  · intro machine breakpoints goOn
    obtain ⟨outcome, final, hresult⟩ := Machine.exists_stepWhile_eq hfee breakpoints goOn machine
    exact ⟨outcome, final, hresult, Machine.steps_stepWhile_le hfee hresult⟩
  · intro machine breakpoints
    exact ⟨Machine.outcome_run_ne_running hfee machine breakpoints,
      Machine.steps_run_le hfee machine breakpoints⟩
  · rintro debugger simulation id target rfl hfound
    obtain ⟨outcome, final, hresult⟩ := Machine.exists_stepWhile_eq hfee
      (debugger.breakpoints target.id)
      (fun machine => Debugger.isAtCall target &&
        target.codeStack.depth < machine.contract.codeStack.depth) (simulation.machine target)
    refine ⟨outcome, final, hresult, ?_⟩
    simp only [Debugger.stepOver, Debugger.find, hfound]
    exact congrArg Except.ok (Debugger.stepWhile_eq hresult)
  · rintro debugger simulation id target rfl hfound
    obtain ⟨outcome, final, hresult⟩ := Machine.exists_stepWhile_eq hfee
      (debugger.breakpoints target.id)
      (fun machine => target.codeStack.depth ≤ machine.contract.codeStack.depth)
      (simulation.machine target)
    refine ⟨outcome, final, hresult, ?_⟩
    simp only [Debugger.stepOut, Debugger.find, hfound]
    exact congrArg Except.ok (Debugger.stepWhile_eq hresult)
  · rintro simulation table rfl
    exact Simulation.outcome_runContracts_ne_running hfee table _ _

-- No instruction is free under settings that are accepted, and a contract only ever has the
-- balance that it starts with.
theorem Settings.slicesEnd_of_validate (settings : Settings) (hvalid : settings.validate = .ok ()) :
    SlicesEnd settings.protocol :=
  slicesEnd_of_leastFee_pos (settings.leastFee_pos hvalid)

theorem Settings.slicesEnd_default :
    Settings.validate {} = .ok () ∧ SlicesEnd (Settings.protocol {}) :=
  ⟨by decide, Settings.slicesEnd_of_validate {} (by decide)⟩

end ContractSim
