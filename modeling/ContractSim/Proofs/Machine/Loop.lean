import ContractSim.Machine.Run
import ContractSim.Proofs.Machine.Spending
import Mathlib.Logic.Function.Iterate

namespace ContractSim.Machine

-- A step that pays no heed to breakpoints runs on or halts.
def RunsOrHalts (outcome : Outcome) : Prop :=
  outcome = .running ∨ ∃ reason, outcome = .halted reason

theorem runsOrHalts_transfer (machine : Machine) (line : Nat) (flow : Flow) :
    RunsOrHalts (machine.transfer line flow).1 := by
  cases flow with
  | next | jump => exact .inl rfl
  | stop | sleep | retry | finish => exact .inr ⟨_, rfl⟩

theorem runsOrHalts_handle (machine : Machine) (fault : Fault) :
    RunsOrHalts (machine.handle fault).1 := by
  unfold handle
  split
  · split_ifs
    · exact .inl rfl
    · exact .inr ⟨_, rfl⟩
  · exact .inr ⟨_, rfl⟩

theorem runsOrHalts_perform (machine : Machine) (protocol : Protocol) (line : Nat)
    (instruction : Instruction) :
    RunsOrHalts (machine.perform protocol line instruction).1 := by
  unfold perform
  split
  · exact runsOrHalts_transfer _ _ _
  · exact runsOrHalts_handle _ _

theorem runsOrHalts_advance (machine : Machine) (protocol : Protocol) :
    RunsOrHalts (machine.advance protocol).1 := by
  unfold advance chargeAndPerform
  dsimp only
  split_ifs
  · exact .inr ⟨_, rfl⟩
  · split
    · exact .inr ⟨_, rfl⟩
    · split
      · split_ifs
        · exact .inr ⟨_, rfl⟩
        · split
          · exact .inr ⟨_, rfl⟩
          · exact runsOrHalts_perform _ _ _ _
      · exact .inr ⟨_, rfl⟩

-- Breakpoints only decide how plain running is reported.
theorem step_cases {machine next : Machine} {protocol : Protocol} {breakpoints : Breakpoints}
    {outcome : Outcome} (hstep : machine.step protocol breakpoints = (outcome, next)) :
    (machine.step protocol [] = (.running, next) ∧ next.contract.ip ∈ breakpoints ∧
        outcome = .breakpoint next.contract.ip) ∨
      (machine.step protocol [] = (.running, next) ∧ next.contract.ip ∉ breakpoints ∧
        outcome = .running) ∨
      ∃ reason, machine.step protocol [] = (.halted reason, next) ∧ outcome = .halted reason := by
  have hkind := runsOrHalts_advance machine protocol
  unfold step at hstep ⊢
  generalize machine.advance protocol = result at hkind hstep ⊢
  obtain ⟨kind, after⟩ := result
  obtain rfl | ⟨reason, rfl⟩ := hkind
  · by_cases hip : after.contract.ip ∈ breakpoints
    · cases (if_pos hip).symm.trans hstep
      exact .inl ⟨rfl, hip, rfl⟩
    · cases (if_neg hip).symm.trans hstep
      exact .inr (.inl ⟨rfl, hip, rfl⟩)
  · cases hstep
    exact .inr (.inr ⟨reason, rfl, rfl⟩)

theorem step_of_running {machine next : Machine} {protocol : Protocol}
    {breakpoints : Breakpoints} (hstep : machine.step protocol breakpoints = (.running, next)) :
    machine.step protocol [] = (.running, next) ∧ next.contract.ip ∉ breakpoints := by
  rcases step_cases hstep with ⟨-, -, hcase⟩ | ⟨hfree, hip, -⟩ | ⟨reason, -, hcase⟩
  · cases hcase
  · exact ⟨hfree, hip⟩
  · cases hcase

theorem step_of_breakpoint {machine next : Machine} {protocol : Protocol}
    {breakpoints : Breakpoints} {line : Nat}
    (hstep : machine.step protocol breakpoints = (.breakpoint line, next)) :
    machine.step protocol [] = (.running, next) ∧ line = next.contract.ip ∧
      line ∈ breakpoints := by
  rcases step_cases hstep with ⟨hfree, hip, hcase⟩ | ⟨-, -, hcase⟩ | ⟨reason, -, hcase⟩
  · cases hcase
    exact ⟨hfree, rfl, hip⟩
  · cases hcase
  · cases hcase

theorem step_of_halted {machine next : Machine} {protocol : Protocol}
    {breakpoints : Breakpoints} {reason : HaltReason}
    (hstep : machine.step protocol breakpoints = (.halted reason, next)) :
    machine.step protocol [] = (.halted reason, next) := by
  rcases step_cases hstep with ⟨-, -, hcase⟩ | ⟨-, -, hcase⟩ | ⟨reason', hfree, hcase⟩
  · cases hcase
  · cases hcase
  · cases hcase
    exact hfree

theorem step_snd (machine : Machine) (protocol : Protocol) (breakpoints : Breakpoints) :
    (machine.step protocol []).2 = (machine.step protocol breakpoints).2 := by
  rcases step_cases (Prod.eta (machine.step protocol breakpoints)).symm with
    ⟨hfree, -, -⟩ | ⟨hfree, -, -⟩ | ⟨reason, hfree, -⟩
  · rw [hfree]
  · rw [hfree]
  · rw [hfree]

-- A number of steps without breakpoints.
def walk (protocol : Protocol) (count : Nat) (machine : Machine) : Machine :=
  (fun machine => (machine.step protocol []).2)^[count] machine

theorem walk_succ (protocol : Protocol) (count : Nat) (machine : Machine) :
    walk protocol (count + 1) machine = walk protocol count (machine.step protocol []).2 :=
  Function.iterate_succ_apply _ count machine

theorem walk_add (protocol : Protocol) (first second : Nat) (machine : Machine) :
    walk protocol (first + second) machine =
      walk protocol second (walk protocol first machine) := by
  unfold walk
  rw [Nat.add_comm, Function.iterate_add_apply]

-- The steps of a slice that has a result, with their number. All but the last run plainly on and
-- pass the test.
inductive Loop (protocol : Protocol) (breakpoints : Breakpoints) (goOn : Machine → Bool) :
    Nat → Machine → Outcome → Machine → Prop
  | last {machine next : Machine} {outcome : Outcome}
      (hstep : machine.step protocol breakpoints = (outcome, next))
      (hend : outcome = .running → goOn next = false) :
      Loop protocol breakpoints goOn 1 machine outcome next
  | more {count : Nat} {machine next final : Machine} {outcome : Outcome}
      (hstep : machine.step protocol breakpoints = (.running, next)) (hon : goOn next = true)
      (hrest : Loop protocol breakpoints goOn count next outcome final) :
      Loop protocol breakpoints goOn (count + 1) machine outcome final

variable {protocol : Protocol} {breakpoints : Breakpoints} {goOn : Machine → Bool}

theorem Loop.of_stepWhile {machine : Machine} {result : Outcome × Machine}
    (hresult : stepWhile protocol breakpoints goOn machine = some result) :
    ∃ count, Loop protocol breakpoints goOn count machine result.1 result.2 := by
  refine stepWhile.partial_correctness protocol breakpoints goOn
    (fun machine result => ∃ count, Loop protocol breakpoints goOn count machine result.1 result.2)
    ?_ machine result hresult
  intro rest ih machine result hsome
  rcases hstep : machine.step protocol breakpoints with ⟨outcome, next⟩
  rw [hstep] at hsome
  cases outcome with
  | running =>
      by_cases hon : goOn next = true
      · simp only [hon, ite_true] at hsome
        obtain ⟨count, hloop⟩ := ih next result hsome
        exact ⟨count + 1, .more hstep hon hloop⟩
      · simp only [hon, Bool.false_eq_true, ite_false, Option.some.injEq] at hsome
        subst hsome
        exact ⟨1, .last hstep fun _ => Bool.eq_false_iff.mpr hon⟩
  | breakpoint line =>
      simp only [Option.some.injEq] at hsome
      subst hsome
      exact ⟨1, .last hstep Outcome.noConfusion⟩
  | halted reason =>
      simp only [Option.some.injEq] at hsome
      subst hsome
      exact ⟨1, .last hstep Outcome.noConfusion⟩

theorem Loop.stepWhile_eq {count : Nat} {machine final : Machine} {outcome : Outcome}
    (hloop : Loop protocol breakpoints goOn count machine outcome final) :
    stepWhile protocol breakpoints goOn machine = some (outcome, final) := by
  induction hloop with
  | @last machine next outcome hstep hend =>
      rw [stepWhile, hstep]
      cases outcome with
      | running => simp [hend rfl]
      | breakpoint line => rfl
      | halted reason => rfl
  | more hstep hon _ ih =>
      rw [stepWhile, hstep]
      simp only [hon, ite_true, ih]

-- A slice is a walk that breakpoints only end.
theorem Loop.final_eq_walk {count : Nat} {machine final : Machine} {outcome : Outcome}
    (hloop : Loop protocol breakpoints goOn count machine outcome final) :
    final = walk protocol count machine := by
  induction hloop with
  | @last machine next outcome hstep _ =>
      have hnext := step_snd machine protocol breakpoints
      rw [hstep] at hnext
      exact hnext.symm
  | more hstep _ _ ih =>
      rw [walk_succ, (step_of_running hstep).1]
      exact ih

-- The steps of a slice one by one.
theorem Loop.of_walk {count : Nat} {machine final : Machine} {outcome : Outcome}
    (hgoes : ∀ index < count,
      ((walk protocol index machine).step protocol breakpoints).1 = .running ∧
        goOn (walk protocol (index + 1) machine) = true)
    (hlast : (walk protocol count machine).step protocol breakpoints = (outcome, final))
    (hend : outcome = .running → goOn final = false) :
    Loop protocol breakpoints goOn (count + 1) machine outcome final := by
  induction count generalizing machine with
  | zero => exact .last hlast hend
  | succ count ih =>
      obtain ⟨hrunning, hon⟩ := hgoes 0 (Nat.succ_pos count)
      rw [walk_succ] at hlast hon
      refine .more (Prod.ext hrunning (step_snd machine protocol breakpoints).symm) hon ?_
      refine ih ?_ hlast
      intro index hindex
      have hnext := hgoes (index + 1) (Nat.succ_lt_succ hindex)
      rwa [walk_succ, walk_succ] at hnext

-- No step but the last stands on a breakpoint.
theorem Loop.ip_notMem_breakpoints {count : Nat} {machine final : Machine} {outcome : Outcome}
    (hloop : Loop protocol breakpoints goOn count machine outcome final) {index : Nat}
    (hpositive : 0 < index) (hindex : index < count) :
    (walk protocol index machine).contract.ip ∉ breakpoints := by
  induction hloop generalizing index with
  | last => omega
  | more hstep _ _ ih =>
      obtain ⟨hfree, hip⟩ := step_of_running hstep
      obtain ⟨index, rfl⟩ := Nat.exists_eq_succ_of_ne_zero (Nat.ne_of_gt hpositive)
      rw [walk_succ, hfree]
      cases index with
      | zero => exact hip
      | succ index => exact ih (Nat.succ_pos index) (by omega)

-- A breakpoint that is reported is where the slice ends.
theorem Loop.breakpoint_eq {count line : Nat} {machine final : Machine}
    (hloop : Loop protocol breakpoints goOn count machine (.breakpoint line) final) :
    line = final.contract.ip ∧ line ∈ breakpoints := by
  generalize houtcome : Outcome.breakpoint line = outcome at hloop
  induction hloop with
  | last hstep _ =>
      subst houtcome
      exact (step_of_breakpoint hstep).2
  | more _ _ _ ih => exact ih houtcome

-- Without a test a slice does not end while the contract plainly runs.
theorem Loop.ne_running {count : Nat} {machine final : Machine} {outcome : Outcome}
    (hloop : Loop protocol breakpoints (fun _ => true) count machine outcome final) :
    outcome ≠ .running := by
  induction hloop with
  | last _ hend =>
      intro hrunning
      cases hend hrunning
  | more _ _ _ ih => exact ih

-- A run to a breakpoint is the beginning of any longer run that passes over it.
theorem Loop.append_free {count more line : Nat} {machine middle final : Machine}
    {outcome : Outcome}
    (hloop : Loop protocol breakpoints (fun _ => true) count machine (.breakpoint line) middle)
    (hrest : Loop protocol [] (fun _ => true) more middle outcome final) :
    Loop protocol [] (fun _ => true) (count + more) machine outcome final := by
  generalize houtcome : Outcome.breakpoint line = reported at hloop
  induction hloop with
  | last hstep _ =>
      subst houtcome
      rw [Nat.add_comm]
      exact .more (step_of_breakpoint hstep).1 rfl hrest
  | more hstep _ _ ih =>
      rw [Nat.add_right_comm]
      exact .more (step_of_running hstep).1 rfl (ih hrest houtcome)

-- A run that no breakpoint ended is the run without breakpoints.
theorem Loop.free {count : Nat} {machine final : Machine} {reason : HaltReason}
    (hloop : Loop protocol breakpoints (fun _ => true) count machine (.halted reason) final) :
    Loop protocol [] (fun _ => true) count machine (.halted reason) final := by
  generalize houtcome : Outcome.halted reason = reported at hloop ⊢
  induction hloop with
  | last hstep _ =>
      subst houtcome
      exact .last (step_of_halted hstep) Outcome.noConfusion
  | more hstep _ _ ih => exact .more (step_of_running hstep).1 rfl (ih houtcome)

theorem spends_step (machine : Machine) (protocol : Protocol) (breakpoints : Breakpoints) :
    (Spends 0 0 machine (machine.step protocol breakpoints).2 ∧
      (machine.step protocol breakpoints).1.isHalt = true) ∨
    ∃ fee, protocol.leastFee ≤ fee ∧
      Spends fee 1 machine (machine.step protocol breakpoints).2 := by
  have hspends := spends_advance machine protocol
  have hkind := runsOrHalts_advance machine protocol
  unfold step
  generalize machine.advance protocol = result at hspends hkind ⊢
  obtain ⟨outcome, next⟩ := result
  obtain rfl | ⟨reason, rfl⟩ := hkind
  · rcases hspends with ⟨-, hhalt⟩ | hspends
    · cases hhalt
    · right
      simp only [notice]
      split_ifs
      · exact hspends
      · exact hspends
  · exact hspends

-- What a slice costs: at least the price of its instructions at the lowest fee.
theorem Loop.spends {count : Nat} {machine final : Machine} {outcome : Outcome}
    (hloop : Loop protocol breakpoints goOn count machine outcome final) :
    ∃ fees steps, steps ≤ count ∧ steps * protocol.leastFee ≤ fees ∧
      Spends fees steps machine final := by
  induction hloop with
  | @last machine next outcome hstep _ =>
      have hspends := spends_step machine protocol breakpoints
      rw [hstep] at hspends
      rcases hspends with ⟨hspends, -⟩ | ⟨fee, hfee, hspends⟩
      · exact ⟨0, 0, Nat.zero_le 1, by rw [Nat.zero_mul], hspends⟩
      · exact ⟨fee, 1, Nat.le_refl 1, by rwa [Nat.one_mul], hspends⟩
  | @more count machine next final outcome hstep _ _ ih =>
      obtain ⟨fees, steps, hsteps, hfees, hrest⟩ := ih
      have hspends := spends_step machine protocol breakpoints
      rw [hstep] at hspends
      rcases hspends with ⟨-, hhalt⟩ | ⟨fee, hfee, hspends⟩
      · cases hhalt
      · refine ⟨fee + fees, 1 + steps, by omega, ?_, hspends.trans hrest⟩
        rw [Nat.add_mul, Nat.one_mul]
        omega

theorem spends_slice (machine : Machine) (protocol : Protocol) (breakpoints : Breakpoints)
    (goOn : Machine → Bool) :
    ∃ fees steps, steps * protocol.leastFee ≤ fees ∧
      Spends fees steps machine (machine.slice protocol breakpoints goOn).2 := by
  unfold slice
  cases hresult : stepWhile protocol breakpoints goOn machine with
  | none => exact ⟨0, 0, by rw [Nat.zero_mul], Spends.refl machine⟩
  | some result =>
      obtain ⟨count, hloop⟩ := Loop.of_stepWhile hresult
      obtain ⟨fees, steps, -, hfees, hspends⟩ := hloop.spends
      exact ⟨fees, steps, hfees, hspends⟩

-- A run reports exactly what it cost.
theorem spends_run (machine : Machine) (protocol : Protocol) (breakpoints : Breakpoints) :
    (machine.run protocol breakpoints).1.steps * protocol.leastFee ≤
        (machine.run protocol breakpoints).1.fees.toNat ∧
      Spends (machine.run protocol breakpoints).1.fees.toNat
        (machine.run protocol breakpoints).1.steps machine
        (machine.run protocol breakpoints).2 := by
  obtain ⟨fees, steps, hfees, hspends⟩ :=
    spends_slice machine protocol breakpoints fun _ => true
  have hrunSteps : (machine.run protocol breakpoints).1.steps = steps := hspends.steps_eq
  have hrunFees : (machine.run protocol breakpoints).1.fees.toNat = fees := hspends.fees_eq
  rw [hrunSteps, hrunFees]
  exact ⟨hfees, hspends⟩

theorem id_walk (protocol : Protocol) (count : Nat) (machine : Machine) :
    (walk protocol count machine).contract.id = machine.contract.id := by
  induction count generalizing machine with
  | zero => rfl
  | succ count ih =>
      rw [walk_succ, ih]
      rcases spends_step machine protocol [] with ⟨hspends, -⟩ | ⟨fee, -, hspends⟩
      · exact hspends.id
      · exact hspends.id

theorem slice_eq_walk (machine : Machine) (protocol : Protocol) (breakpoints : Breakpoints)
    (goOn : Machine → Bool) :
    ∃ count, (machine.slice protocol breakpoints goOn).2 = walk protocol count machine := by
  unfold slice
  cases hresult : stepWhile protocol breakpoints goOn machine with
  | none => exact ⟨0, rfl⟩
  | some result =>
      obtain ⟨count, hloop⟩ := Loop.of_stepWhile hresult
      exact ⟨count, hloop.final_eq_walk⟩

theorem Loop.run_eq {count : Nat} {machine final : Machine} {outcome : Outcome}
    (hloop : Loop protocol breakpoints (fun _ => true) count machine outcome final) :
    machine.run protocol breakpoints =
      ({ steps := final.contract.steps - machine.contract.steps,
         fees := final.contract.feesPaid - machine.contract.feesPaid, outcome }, final) := by
  simp only [run, slice, hloop.stepWhile_eq, Option.getD_some]

-- A run that never ends is no run at all; any other one is a loop.
theorem run_cases (machine : Machine) (protocol : Protocol) (breakpoints : Breakpoints) :
    machine.run protocol breakpoints = ({ steps := 0, fees := 0, outcome := .running }, machine) ∨
    ∃ count, Loop protocol breakpoints (fun _ => true) count machine
      (machine.run protocol breakpoints).1.outcome (machine.run protocol breakpoints).2 := by
  cases hresult : stepWhile protocol breakpoints (fun _ => true) machine with
  | none =>
      left
      simp only [run, slice, hresult, Option.getD_none, Nat.sub_self, UInt64.sub_self]
  | some result =>
      right
      obtain ⟨count, hloop⟩ := Loop.of_stepWhile hresult
      rw [hloop.run_eq]
      exact ⟨count, hloop⟩

-- A run to a halt does not depend on breakpoints.
theorem run_free_of_halt {protocol : Protocol} {breakpoints : Breakpoints} {machine : Machine}
    (hhalt : (machine.run protocol breakpoints).1.outcome.isHalt = true) :
    machine.run protocol [] = machine.run protocol breakpoints := by
  rcases run_cases machine protocol breakpoints with hnone | ⟨count, hloop⟩
  · rw [hnone] at hhalt
    cases hhalt
  · generalize hrun : machine.run protocol breakpoints = result at hhalt hloop ⊢
    obtain ⟨⟨steps, fees, outcome⟩, final⟩ := result
    cases outcome with
    | running | breakpoint => cases hhalt
    | halted reason => rw [hloop.free.run_eq, ← hloop.run_eq, hrun]

-- Going on from a pause without breakpoints is going on from the start without them.
theorem run_free_of_pause {protocol : Protocol} {breakpoints : Breakpoints} {machine : Machine}
    (hpause : (machine.run protocol breakpoints).1.outcome.isHalt = false)
    (hhalt : ((machine.run protocol breakpoints).2.run protocol []).1.outcome.isHalt = true) :
    (machine.run protocol []).2 = ((machine.run protocol breakpoints).2.run protocol []).2 ∧
      (machine.run protocol []).1.outcome =
        ((machine.run protocol breakpoints).2.run protocol []).1.outcome := by
  rcases run_cases machine protocol breakpoints with hnone | ⟨count, hloop⟩
  · rw [hnone]
    exact ⟨rfl, rfl⟩
  · rcases run_cases (machine.run protocol breakpoints).2 protocol [] with hnone | ⟨more, hrest⟩
    · rw [hnone] at hhalt
      cases hhalt
    · cases houtcome : (machine.run protocol breakpoints).1.outcome with
      | running => exact absurd houtcome hloop.ne_running
      | halted reason =>
          rw [houtcome] at hpause
          cases hpause
      | breakpoint line =>
          rw [houtcome] at hloop
          rw [(hloop.append_free hrest).run_eq]
          exact ⟨rfl, rfl⟩

end ContractSim.Machine
